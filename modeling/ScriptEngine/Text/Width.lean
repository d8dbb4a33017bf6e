-- Text measured in UTF-8 bytes: how far a run of characters reaches, and the piece between two
-- byte offsets.

namespace ScriptEngine.Text

-- Bytes that the characters take in UTF-8.
def width : List Char → Nat
  | [] => 0
  | c :: rest => c.utf8Size + width rest

-- What is left after skipping characters until `count` bytes are passed.
def dropBytes : Nat → List Char → List Char
  | 0, text => text
  | _ + 1, [] => []
  | count + 1, c :: rest => dropBytes (count + 1 - c.utf8Size) rest

-- The leading characters that start within the first `count` bytes.
def takeBytes : Nat → List Char → List Char
  | 0, _ => []
  | _ + 1, [] => []
  | count + 1, c :: rest => c :: takeBytes (count + 1 - c.utf8Size) rest

-- The byte offset at which the character with an index starts.
def offsetAt? : Nat → List Char → Option Nat
  | _, [] => none
  | 0, _ :: _ => some 0
  | index + 1, c :: rest => (offsetAt? index rest).map (· + c.utf8Size)

-- The characters between two byte offsets.
def slice (text : List Char) (start stop : Nat) : List Char :=
  takeBytes (stop - start) (dropBytes start text)

@[simp] theorem width_nil : width [] = 0 := rfl

@[simp] theorem width_cons (c : Char) (rest : List Char) :
    width (c :: rest) = c.utf8Size + width rest := rfl

@[simp] theorem width_append (front back : List Char) :
    width (front ++ back) = width front + width back := by
  induction front with
  | nil => simp
  | cons c rest ih => simp [ih, Nat.add_assoc]

end ScriptEngine.Text
