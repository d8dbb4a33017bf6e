import ScriptEngine.Number
import ScriptEngine.Text.CharClass

-- Reading numbers from text: digit runs in a radix, decimal fractions, and whole texts.

namespace ScriptEngine.Number

-- The value of a digit in a radix up to sixteen.
def digitValue? (radix : Nat) (c : Char) : Option Nat :=
  let value :=
    if c.isDigit then some (c.toNat - '0'.toNat)
    else if 'a' ≤ c ∧ c ≤ 'f' then some (c.toNat - 'a'.toNat + 10)
    else if 'A' ≤ c ∧ c ≤ 'F' then some (c.toNat - 'A'.toNat + 10)
    else none
  value.filter (· < radix)

def isDigitIn (radix : Nat) (c : Char) : Bool :=
  (digitValue? radix c).isSome

-- The number that a digit run spells.
def digitsValue (radix : Nat) (digits : List Char) : Nat :=
  digits.foldl (fun value c => value * radix + (digitValue? radix c).getD 0) 0

-- The same in 64 bits, where each step wraps.
def foldDigits (radix : Nat) (digits : List Char) : Int64 :=
  digits.foldl
    (fun value c => value * Int64.ofNat radix + Int64.ofNat ((digitValue? radix c).getD 0)) 0

-- It makes no difference whether the steps wrap or the number at the end.
theorem foldDigits_eq (radix : Nat) (digits : List Char) :
    foldDigits radix digits = Int64.ofNat (digitsValue radix digits) :=
  List.foldl_hom Int64.ofNat fun value c => by rw [Int64.ofNat_add, Int64.ofNat_mul]

-- A decimal fraction: whole digits, digits after the point, and a power of ten.
structure Fraction where
  whole : List Char
  after : List Char
  power : Int

def Fraction.toDouble (negative : Bool) (fraction : Fraction) : Float :=
  Double.ofDecimal negative (digitsValue 10 (fraction.whole ++ fraction.after))
    (fraction.power - fraction.after.length)

-- The power of ten after an exponent mark, with what follows it.
def exponent? : List Char → Option (Int × List Char)
  | mark :: rest =>
    if mark = 'e' ∨ mark = 'E' then
      let (negative, digits) := match rest with
        | '-' :: digits => (true, digits)
        | '+' :: digits => (false, digits)
        | digits => (false, digits)
      match digits.takeWhile Char.isDigit with
      | [] => none
      | run =>
        let size : Int := digitsValue 10 run
        some (if negative then -size else size, digits.dropWhile Char.isDigit)
    else none
  | [] => none

-- An optional sign.
def sign : List Char → Bool × List Char
  | '-' :: rest => (true, rest)
  | '+' :: rest => (false, rest)
  | rest => (false, rest)

-- The whole text as a signed decimal integer that fits 64 bits.
def readInt? (text : List Char) : Option Int64 :=
  let (negative, digits) := sign text
  if digits.isEmpty || !digits.all Char.isDigit then none
  else
    let size : Int := digitsValue 10 digits
    let value := if negative then -size else size
    if Int64.minValue.toInt ≤ value ∧ value ≤ Int64.maxValue.toInt then some (Int64.ofInt value)
    else none

-- The whole text as a signed decimal fraction, with at least one digit beside the point.
def readDouble? (text : List Char) : Option Float :=
  let (negative, body) := sign text
  let whole := body.takeWhile Char.isDigit
  let (after, rest) := match body.dropWhile Char.isDigit with
    | '.' :: rest => (rest.takeWhile Char.isDigit, rest.dropWhile Char.isDigit)
    | rest => ([], rest)
  if whole.isEmpty && after.isEmpty then none
  else match rest with
    | [] => some (Fraction.toDouble negative ⟨whole, after, 0⟩)
    | _ => match exponent? rest with
      | some (power, []) => some (Fraction.toDouble negative ⟨whole, after, power⟩)
      | _ => none

-- The number that a text stands for. Blanks around it do not matter, an empty text is zero, and
-- everything that is no finite number and not spelled as an infinity is NaN.
def ofText (text : List Char) : Number :=
  let body := Text.trim text
  if body.isEmpty then int 0
  else match readInt? body with
    | some value => int value
    | none =>
      if body = "Infinity".toList ∨ body = "+Infinity".toList then double Double.infinity
      else if body = "-Infinity".toList then double Double.negativeInfinity
      else match readDouble? body with
        | some value => double (if value.isFinite then value else Double.nan)
        | none => double Double.nan

-- The integer at the start of a text, wrapped to 64 bits: `0x` begins hexadecimal digits, any other
-- leading zero octal digits.
def leadingInt? (text : List Char) : Option Int64 :=
  let (negative, body) := sign text
  let (radix, digits) := match body with
    | '0' :: 'x' :: digits => (16, digits)
    | '0' :: 'X' :: digits => (16, digits)
    | '0' :: _ => (8, body)
    | _ => (10, body)
  match digits.takeWhile (isDigitIn radix) with
  | [] => none
  | run =>
    let value := foldDigits radix run
    some (if negative then -value else value)

end ScriptEngine.Number
