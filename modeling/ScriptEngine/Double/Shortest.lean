import ScriptEngine.Double.Binary

-- The fewest decimal digits that read back as a given double, and their positional text.

namespace ScriptEngine.Double

-- The number `digits * 10 ^ exponent`.
structure Digits where
  digits : Nat
  exponent : Int
deriving DecidableEq, Repr

-- The numbers that round to a double, over a common denominator: the double itself, and the ends
-- of its interval, which belong to it when `closed` holds.
structure Interval where
  low : Nat
  value : Nat
  high : Nat
  den : Nat
  closed : Bool

-- Below a power of two the doubles lie half as far apart, so the lower half of the interval is half
-- as long there.
def Interval.ofParts (parts : Parts) : Interval :=
  let unit := parts.significand * 4
  let below := if parts.significand = leadingBit then 1 else 2
  let up := (parts.exponent - 2).toNat
  { low := (unit - below) * Nat.pow 2 up
    value := unit * Nat.pow 2 up
    high := (unit + 2) * Nat.pow 2 up
    den := Nat.pow 2 (2 - parts.exponent).toNat
    closed := parts.significand % 2 == 0 }

-- Whether `count * num / den` lies in the interval.
def Interval.admits (interval : Interval) (count num den : Nat) : Bool :=
  let point := count * num * interval.den
  if interval.closed then interval.low * den ≤ point && point ≤ interval.high * den
  else interval.low * den < point && point < interval.high * den

-- The least `place` with `num / den < 10 ^ place`, for a positive fraction in the range of doubles.
def leadingPlace (num den : Nat) : Int :=
  if den ≤ num then ((Nat.toDigits 10 (num / den)).length : Int)
  else
    match (List.range 400).find? fun zeros => den ≤ num * Nat.pow 10 (zeros + 1) with
    | some zeros => -(zeros : Int)
    | none => -400

-- The neighbours of the value on the grid of `10 ^ exponent`: the one that reads back, the nearer
-- one if both do, and the upper one on a tie.
def Interval.onGrid? (interval : Interval) (exponent : Int) : Option Nat :=
  let num := Nat.pow 10 exponent.toNat
  let den := Nat.pow 10 (-exponent).toNat
  let below := interval.value * den / (interval.den * num)
  let twiceRest := 2 * (interval.value * den % (interval.den * num))
  match interval.admits below num den, interval.admits (below + 1) num den with
  | true, true => some (if interval.den * num ≤ twiceRest then below + 1 else below)
  | true, false => some below
  | false, true => some (below + 1)
  | false, false => none

-- Seventeen digits always read back.
def shortest (parts : Parts) : Digits :=
  let interval := Interval.ofParts parts
  let place := leadingPlace interval.value interval.den
  let found := (List.range 17).findSome? fun (extra : Nat) =>
    let exponent := place - 1 - (extra : Int)
    (interval.onGrid? exponent).map fun digits => (Digits.mk digits exponent, extra)
  match found with
  | some (⟨digits, exponent⟩, extra) =>
    if digits = Nat.pow 10 (extra + 1) then ⟨1, exponent + extra + 1⟩ else ⟨digits, exponent⟩
  | none => ⟨0, 0⟩

-- Positional text without an exponent, with a point only where digits follow it.
def Digits.positional (number : Digits) : List Char :=
  let digits := Nat.toDigits 10 number.digits
  if 0 ≤ number.exponent then digits ++ List.replicate number.exponent.toNat '0'
  else
    let places := (-number.exponent).toNat
    if places < digits.length then
      digits.take (digits.length - places) ++ '.' :: digits.drop (digits.length - places)
    else
      '0' :: '.' :: (List.replicate (places - digits.length) '0' ++ digits)

end ScriptEngine.Double
