import ScriptEngine.Text.Width

-- Finding a text in another one, and cutting a text at a separator.

namespace ScriptEngine.Text

-- The byte offset of the first occurrence.
def offsetOf? (needle : List Char) : List Char → Option Nat
  | [] => if needle.isEmpty then some 0 else none
  | c :: rest =>
    if needle.isPrefixOf (c :: rest) then some 0
    else (offsetOf? needle rest).map (· + c.utf8Size)

-- Cuts what follows the characters `piece`, which are given in reverse, after passing over `skip`
-- characters of a separator.
def splitAfter (separator : List Char) : List Char → Nat → List Char → List (List Char)
  | piece, _, [] => [piece.reverse]
  | piece, skip + 1, _ :: rest => splitAfter separator piece skip rest
  | piece, 0, c :: rest =>
    if separator.isPrefixOf (c :: rest) then
      piece.reverse :: splitAfter separator [] (separator.length - 1) rest
    else
      splitAfter separator (c :: piece) 0 rest

-- The pieces between the leftmost occurrences of a separator that do not overlap.
def splitAt (separator text : List Char) : List (List Char) :=
  splitAfter separator [] 0 text

end ScriptEngine.Text
