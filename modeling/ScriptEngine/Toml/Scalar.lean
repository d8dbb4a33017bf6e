import ScriptEngine.Number.Reader
import ScriptEngine.Toml

-- Reading strings, numbers and dates of TOML documents. A reader gives what it read and the rest of
-- the text.

namespace ScriptEngine.Toml

-- Characters that may stand in comments and strings: the tab and everything that is no control
-- character.
def isText (c : Char) : Bool :=
  c = '\t' || (0x20 ≤ c.toNat && c.toNat ≠ 0x7f)

def isBlank (c : Char) : Bool :=
  c = ' ' || c = '\t'

def skipBlanks (text : List Char) : List Char :=
  text.dropWhile isBlank

def newline? : List Char → Option (List Char)
  | '\n' :: rest => some rest
  | '\r' :: '\n' :: rest => some rest
  | _ => none

def hexChar? (digits : List Char) : Option Char :=
  if digits.all (Number.isDigitIn 16) then
    let code := Number.digitsValue 16 digits
    if code.isValidChar then some (Char.ofNat code) else none
  else none

-- The character of an escape, behind its backslash.
def escape? : List Char → Option (Char × List Char)
  | 'b' :: rest => some (Char.ofNat 8, rest)
  | 't' :: rest => some ('\t', rest)
  | 'n' :: rest => some ('\n', rest)
  | 'f' :: rest => some (Char.ofNat 12, rest)
  | 'r' :: rest => some ('\r', rest)
  | '"' :: rest => some ('"', rest)
  | '\\' :: rest => some ('\\', rest)
  | 'u' :: a :: b :: c :: d :: rest => (hexChar? [a, b, c, d]).map (·, rest)
  | 'U' :: a :: b :: c :: d :: e :: f :: g :: h :: rest =>
    (hexChar? [a, b, c, d, e, f, g, h]).map (·, rest)
  | _ => none

-- A string on one line, behind its opening quote.
def basicString : Nat → List Char → Option (List Char × List Char)
  | 0, _ => none
  | fuel + 1, text =>
    match text with
    | '"' :: rest => some ([], rest)
    | '\\' :: rest => do
      let (c, rest) ← escape? rest
      let (body, rest) ← basicString fuel rest
      return (c :: body, rest)
    | c :: rest =>
      if isText c then do
        let (body, rest) ← basicString fuel rest
        return (c :: body, rest)
      else none
    | [] => none

-- A string without escapes on one line, behind its opening quote.
def literalString : List Char → Option (List Char × List Char)
  | '\'' :: rest => some ([], rest)
  | c :: rest =>
    if isText c then (literalString rest).map fun (body, rest) => (c :: body, rest) else none
  | [] => none

-- Three quotes end a string of several lines; one or two more belong to the string.
def closeLong (quote : Char) (text : List Char) : Option (List Char × List Char) :=
  let count := (text.takeWhile (· = quote)).length
  if count < 3 then none
  else
    let count := min count 5
    some (List.replicate (count - 3) quote, text.drop count)

-- Skips blanks and line breaks after a backslash at the end of a line.
def skipLines : Nat → List Char → List Char
  | 0, text => text
  | fuel + 1, text =>
    match newline? (skipBlanks text) with
    | some rest => skipLines fuel rest
    | none => skipBlanks text

-- A string of several lines, behind its opening quotes.
def longString (escapes : Bool) (quote : Char) : Nat → List Char → Option (List Char × List Char)
  | 0, _ => none
  | fuel + 1, text =>
    match closeLong quote text with
    | some closed => some closed
    | none =>
      match text with
      | '\\' :: rest =>
        if escapes then
          match newline? (skipBlanks rest) with
          | some below => longString escapes quote fuel (skipLines fuel below)
          | none => do
            let (c, rest) ← escape? rest
            let (body, rest) ← longString escapes quote fuel rest
            return (c :: body, rest)
        else do
          let (body, rest) ← longString escapes quote fuel rest
          return ('\\' :: body, rest)
      | c :: rest =>
        match newline? text with
        | some below => do
          let (body, rest) ← longString escapes quote fuel below
          return ('\n' :: body, rest)
        | none =>
          if isText c then do
            let (body, rest) ← longString escapes quote fuel rest
            return (c :: body, rest)
          else none
      | [] => none

-- A string of any form. A line break right behind three opening quotes does not count.
def string? (text : List Char) : Option (List Char × List Char) :=
  let long (escapes : Bool) (quote : Char) (rest : List Char) :=
    longString escapes quote (text.length + 1) ((newline? rest).getD rest)
  match text with
  | '"' :: '"' :: '"' :: rest => long true '"' rest
  | '\'' :: '\'' :: '\'' :: rest => long false '\'' rest
  | '"' :: rest => basicString (text.length + 1) rest
  | '\'' :: rest => literalString rest
  | _ => none

-- The digits at the start of a text. Single underscores may stand between them.
def digitsTail (isDigit : Char → Bool) : List Char → List Char × List Char
  | '_' :: c :: rest =>
    if isDigit c then
      let (digits, rest) := digitsTail isDigit rest
      (c :: digits, rest)
    else ([], '_' :: c :: rest)
  | c :: rest =>
    if isDigit c then
      let (digits, rest) := digitsTail isDigit rest
      (c :: digits, rest)
    else ([], c :: rest)
  | [] => ([], [])

def digits? (isDigit : Char → Bool) : List Char → Option (List Char × List Char)
  | c :: rest =>
    if isDigit c then
      let (digits, rest) := digitsTail isDigit rest
      some (c :: digits, rest)
    else none
  | [] => none

-- Decimal digits of a whole number. Nothing follows a leading zero.
def whole? : List Char → Option (List Char × List Char)
  | '0' :: rest => some (['0'], rest)
  | text => digits? Char.isDigit text

-- The range of integers is that of 64 bits.
def inRange (value : Int) : Option Item :=
  if -9223372036854775808 ≤ value ∧ value ≤ 9223372036854775807 then some (.integer value) else none

def radixInteger? (radix : Nat) (text : List Char) : Option (Item × List Char) := do
  let (digits, rest) ← digits? (Number.isDigitIn radix) text
  let item ← inRange (Number.digitsValue radix digits)
  return (item, rest)

-- The part of a float behind its whole digits: digits behind a point, and a power of ten.
def floatTail? (whole text : List Char) : Option (Number.Fraction × List Char) :=
  let power? (text : List Char) : Option (Int × List Char) :=
    match text with
    | mark :: rest =>
      if mark = 'e' ∨ mark = 'E' then do
        let (negative, rest) := Number.sign rest
        let (digits, rest) ← digits? Char.isDigit rest
        let size : Int := Number.digitsValue 10 digits
        return (if negative then -size else size, rest)
      else none
    | [] => none
  match text with
  | '.' :: rest => do
    let (after, rest) ← digits? Char.isDigit rest
    match rest with
    | 'e' :: _ | 'E' :: _ => do
      let (power, rest) ← power? rest
      return (⟨whole, after, power⟩, rest)
    | _ => return (⟨whole, after, 0⟩, rest)
  | _ => do
    let (power, rest) ← power? text
    return (⟨whole, [], power⟩, rest)

-- An integer or a float. A float that is too large for a double is refused.
def number? (text : List Char) : Option (Item × List Char) :=
  match text with
  | '0' :: 'x' :: rest => radixInteger? 16 rest
  | '0' :: 'o' :: rest => radixInteger? 8 rest
  | '0' :: 'b' :: rest => radixInteger? 2 rest
  | _ =>
    let (negative, body) := Number.sign text
    match body with
    | 'i' :: 'n' :: 'f' :: rest =>
      some (.float (if negative then Double.negativeInfinity else Double.infinity), rest)
    | 'n' :: 'a' :: 'n' :: rest => some (.float Double.nan, rest)
    | _ => do
      let (whole, rest) ← whole? body
      match floatTail? whole rest with
      | some (fraction, rest) =>
        let value := fraction.toDouble negative
        if value == Double.infinity then none else some (.float value, rest)
      | none =>
        let size : Int := Number.digitsValue 10 whole
        let item ← inRange (if negative then -size else size)
        return (item, rest)

-- A fixed count of digits with a value in a range.
def field? (count low high : Nat) (text : List Char) : Option (Nat × List Char) :=
  let digits := text.take count
  let value := Number.digitsValue 10 digits
  if digits.length = count ∧ digits.all Char.isDigit ∧ low ≤ value ∧ value ≤ high then
    some (value, text.drop count)
  else none

def mark? (mark : Char) : List Char → Option (List Char)
  | c :: rest => if c = mark then some rest else none
  | [] => none

def daysOf (year month : Nat) : Nat :=
  if month = 2 then
    if year % 4 = 0 ∧ (year % 100 ≠ 0 ∨ year % 400 = 0) then 29 else 28
  else if month = 4 ∨ month = 6 ∨ month = 9 ∨ month = 11 then 30
  else 31

def date? (text : List Char) : Option (List Char) := do
  let (year, rest) ← field? 4 0 9999 text
  let (month, rest) ← field? 2 1 12 (← mark? '-' rest)
  let (_, rest) ← field? 2 1 (daysOf year month) (← mark? '-' rest)
  return rest

def time? (text : List Char) : Option (List Char) := do
  let (_, rest) ← field? 2 0 23 text
  let (_, rest) ← field? 2 0 59 (← mark? ':' rest)
  let (_, rest) ← field? 2 0 60 (← mark? ':' rest)
  match rest with
  | '.' :: fraction =>
    match fraction.takeWhile Char.isDigit with
    | [] => none
    | digits => return fraction.drop digits.length
  | _ => return rest

def offset? : List Char → Option (List Char)
  | 'Z' :: rest | 'z' :: rest => some rest
  | sign :: rest =>
    if sign = '+' ∨ sign = '-' then do
      let (_, rest) ← field? 2 0 23 rest
      let (_, rest) ← field? 2 0 59 (← mark? ':' rest)
      return rest
    else none
  | [] => none

-- A date, a time, or both with a `T` or a blank between them, and then perhaps an offset.
def datetime? (text : List Char) : Option (Item × List Char) :=
  let item (rest : List Char) : Item × List Char :=
    (.datetime (String.ofList (text.take (text.length - rest.length))), rest)
  match date? text with
  | some rest =>
    let timed := match rest with
      | 'T' :: rest | 't' :: rest | ' ' :: rest => time? rest
      | _ => none
    match timed with
    | some rest => some (item ((offset? rest).getD rest))
    | none => some (item rest)
  | none => (time? text).map item

end ScriptEngine.Toml
