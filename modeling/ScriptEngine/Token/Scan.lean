import ScriptEngine.Number.Reader
import ScriptEngine.Text.Alphabetic
import ScriptEngine.Token.Fault

-- From text to tokens. Between tokens stand white space and comments; a token is as long as it can
-- be. Offsets count UTF-8 bytes.

namespace ScriptEngine

-- A token with the byte offsets of its first character and of what follows it.
structure Lexeme where
  token : Token
  start : Nat
  stop : Nat

-- The tokens of a text up to its end or to the first place that is no token.
inductive Stream where
  | next (lexeme : Lexeme) (rest : Stream)
  | done (offset : Nat)
  | broken (error : ParseError)

-- A place in a text: what is still to be read, and its byte offset.
structure Cursor where
  offset : Nat
  rest : List Char

namespace Scan

-- The white space of the language. The line and paragraph separators do not belong to it.
def isSpace (c : Char) : Bool :=
  c = '\t' || c = '\n' || c = '\r' || c.toNat = 0xb || c.toNat = 0xc || c.toNat = 0xfeff
    || Text.spaceSeparator.contains c

-- Skips to what follows the end mark of a block comment.
def closeComment? (offset : Nat) : List Char → Option Cursor
  | '*' :: '/' :: rest => some ⟨offset + 2, rest⟩
  | c :: rest => closeComment? (offset + c.utf8Size) rest
  | [] => none

theorem closeComment?_length {text : List Char} {offset : Nat} {cursor : Cursor}
    (h : closeComment? offset text = some cursor) : cursor.rest.length < text.length := by
  fun_induction closeComment? offset text with
  | case1 offset rest => cases h; simp only [List.length_cons]; omega
  | case2 offset c rest _ ih =>
    have := ih h
    simp only [List.length_cons]
    omega
  | case3 => cases h

-- Skips white space and complete comments.
def skipGap (cursor : Cursor) : Cursor :=
  match hc : cursor.rest with
  | '/' :: '/' :: comment =>
    let body := comment.takeWhile (· ≠ '\n')
    skipGap ⟨cursor.offset + 2 + Text.width body, comment.drop body.length⟩
  | '/' :: '*' :: comment =>
    match _hm : closeComment? (cursor.offset + 2) comment with
    | some after => skipGap after
    | none => cursor
  | c :: rest => if isSpace c then skipGap ⟨cursor.offset + c.utf8Size, rest⟩ else cursor
  | [] => cursor
termination_by cursor.rest.length
decreasing_by
  · simp [hc]; omega
  · have := closeComment?_length _hm
    simp [hc]; omega
  · simp [hc]

theorem skipGap_length_le (cursor : Cursor) :
    (skipGap cursor).rest.length ≤ cursor.rest.length := by
  fun_induction skipGap cursor with
  | case1 cursor comment hc body ih => simp [hc] at ih ⊢; omega
  | case2 cursor comment hc after hm ih =>
    have := closeComment?_length hm
    simp [hc]; omega
  | case3 cursor comment hc hm => exact Nat.le_refl _
  | case4 cursor c rest _ _ hc hs ih => simp [hc] at ih ⊢; omega
  | case5 cursor c rest _ _ hc hs => exact Nat.le_refl _
  | case6 cursor hc => exact Nat.le_refl _

def startsName (c : Char) : Bool :=
  Text.isAlphabetic c || c = '_'

def continuesName (c : Char) : Bool :=
  Text.isAlphabetic c || c.isDigit || c = '_'

-- A decimal fraction at the start of a text and the number of its characters. A fraction with a
-- point is none at all if an exponent mark without digits follows it.
def fraction? (text : List Char) : Option (Number.Fraction × Nat) :=
  let whole := text.takeWhile Char.isDigit
  match text.dropWhile Char.isDigit with
  | '.' :: rest =>
    let after := rest.takeWhile Char.isDigit
    let tail := rest.dropWhile Char.isDigit
    let size := whole.length + 1 + after.length
    if whole.isEmpty && after.isEmpty then none
    else match tail with
      | mark :: _ =>
        if mark = 'e' || mark = 'E' then
          (Number.exponent? tail).map fun (power, left) =>
            (⟨whole, after, power⟩, size + (tail.length - left.length))
        else some (⟨whole, after, 0⟩, size)
      | [] => some (⟨whole, after, 0⟩, size)
  | tail =>
    if whole.isEmpty then none
    else (Number.exponent? tail).map fun (power, left) =>
      (⟨whole, [], power⟩, whole.length + (tail.length - left.length))

def integer (radix : Nat) (digits : List Char) : Token :=
  .literal (.number (.int (Number.foldDigits radix digits)))

-- The digits behind a `0x`, if the text starts so.
def hexDigits : Char → List Char → List Char
  | '0', mark :: digits =>
    if mark = 'x' || mark = 'X' then digits.takeWhile (Number.isDigitIn 16) else []
  | _, _ => []

-- An octal number from behind its leading zero.
def octal (rest : List Char) : Except (ParseFault × Nat) (Token × Nat) :=
  let digits := rest.takeWhile (Number.isDigitIn 8)
  match rest.drop digits.length with
  | c :: _ =>
    if c.isDigit then .error (.decimalDigitInOctal, digits.length + 1)
    else .ok (integer 8 digits, digits.length)
  | [] => .ok (integer 8 digits, digits.length)

-- The double that starts a text, if a fraction does. Its characters are read as a text of their own.
def double? (text : List Char) : Option (Except (ParseFault × Nat) (Token × Nat)) :=
  (fraction? text).map fun (_, size) =>
    match Number.readDouble? (text.take size) with
    | some value => .ok (.literal (.number (.double value)), size - 1)
    | none => .error (.malformedNumber, 0)

-- The digits at the start of a text as an integer.
def decimal (text : List Char) : Except (ParseFault × Nat) (Token × Nat) :=
  match text.takeWhile Char.isDigit with
  | [] => .error (.malformedNumber, 0)
  | digits => .ok (integer 10 digits, digits.length - 1)

-- A number that starts with the given digit, and how many characters of the rest belong to it.
def number (first : Char) (rest : List Char) : Except (ParseFault × Nat) (Token × Nat) :=
  let hex := hexDigits first rest
  if !hex.isEmpty then .ok (integer 16 hex, hex.length + 1)
  else match double? (first :: rest) with
    | some result => result
    | none => if first = '0' then octal rest else decimal (first :: rest)

-- The raw characters before the closing quote. A backslash takes the next character with it.
def stringBody? (quote : Char) : List Char → Option (List Char)
  | [] => none
  | ['\\'] => none
  | '\\' :: c :: rest => (stringBody? quote rest).map ('\\' :: c :: ·)
  | c :: rest => if c = quote then some [] else (stringBody? quote rest).map (c :: ·)

-- The character with the code that four characters spell. A plus sign may take the place of the
-- first digit, and a surrogate stands for the replacement character.
def unicodeEscape? (a b c d : Char) : Option Char :=
  let digits := if a = '+' then [b, c, d] else [a, b, c, d]
  if digits.all (Number.isDigitIn 16) then
    let code := Number.digitsValue 16 digits
    some (if code.isValidChar then Char.ofNat code else Char.ofNat 0xfffd)
  else
    none

-- The character for a simple escape.
def escaped (c : Char) : Char :=
  match c with
  | 'n' => '\n'
  | 't' => '\t'
  | 'r' => '\r'
  | 'b' => Char.ofNat 0x8
  | 'f' => Char.ofNat 0xc
  | '0' => Char.ofNat 0
  | other => other

-- The characters that a string body stands for.
def unescape : List Char → Except ParseFault (List Char)
  | [] => .ok []
  | ['\\'] => .error .unterminatedString
  | '\\' :: 'u' :: a :: b :: c :: d :: rest =>
    match unicodeEscape? a b c d with
    | some code => (unescape rest).map (code :: ·)
    | none => .error .badUnicodeEscape
  | '\\' :: 'u' :: _ => .error .badUnicodeEscape
  | '\\' :: c :: rest => (unescape rest).map (escaped c :: ·)
  | c :: rest => (unescape rest).map (c :: ·)

def stringLiteral (quote : Char) (rest : List Char) : Except (ParseFault × Nat) (Token × Nat) :=
  match stringBody? quote rest with
  | none => .error (.unterminatedString, 0)
  | some body =>
    match unescape body with
    | .ok value => .ok (.literal (.string (String.ofList value)), body.length + 1)
    | .error fault => .error (fault, 0)

def symbol (first : Char) (rest : List Char) : Except (ParseFault × Nat) (Token × Nat) :=
  match Symbol.longestPrefix? (first :: rest) with
  | some mark => .ok (.symbol mark, mark.text.length - 1)
  | none => .error (.unexpectedCharacter first, 0)

def word (letters : List Char) : Token :=
  match Keyword.ofText? letters with
  | some keyword => .keyword keyword
  | none => .identifier (String.ofList letters)

-- The token that starts with `first`, and how many characters of the rest belong to it; or the
-- fault, and how many characters before it are in order.
def token (first : Char) (rest : List Char) : Except (ParseFault × Nat) (Token × Nat) :=
  if startsName first then
    let letters := rest.takeWhile continuesName
    .ok (word (first :: letters), letters.length)
  else if first.isDigit then number first rest
  else if first = '"' || first = '\'' then stringLiteral first rest
  else if first = '.' then
    match double? (first :: rest) with
    | some result => result
    | none => symbol first rest
  else symbol first rest

end Scan

-- The tokens from a place on.
def Stream.ofCursor (cursor : Cursor) : Stream :=
  let gap := Scan.skipGap cursor
  match _hg : gap.rest with
  | [] => .done gap.offset
  | first :: rest =>
    if first = '/' ∧ rest.head? = some '*' then .broken ⟨.unterminatedComment, gap.offset⟩
    else match Scan.token first rest with
      | .error (fault, size) => .broken ⟨fault, gap.offset + Text.width ((first :: rest).take size)⟩
      | .ok (token, size) =>
        let stop := gap.offset + Text.width (first :: rest.take size)
        .next ⟨token, gap.offset, stop⟩ (Stream.ofCursor ⟨stop, rest.drop size⟩)
termination_by cursor.rest.length
decreasing_by
  have hl := Scan.skipGap_length_le cursor
  have hr : (Scan.skipGap cursor).rest.length = rest.length + 1 := by
    rw [show (Scan.skipGap cursor).rest = first :: rest from _hg]; simp
  simp; omega

def Stream.ofText (text : List Char) : Stream :=
  Stream.ofCursor ⟨0, text⟩

end ScriptEngine
