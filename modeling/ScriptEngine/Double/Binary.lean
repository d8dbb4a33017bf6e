-- Doubles as exact binary fractions, and the double nearest to a fraction.

namespace ScriptEngine.Double

def infinity : Float := Float.ofBits 0x7ff0000000000000

def negativeInfinity : Float := Float.ofBits 0xfff0000000000000

def nan : Float := Float.ofBits 0x7ff8000000000000

-- A finite double is its sign times `significand * 2 ^ exponent`.
structure Parts where
  negative : Bool
  significand : Nat
  exponent : Int
deriving DecidableEq, Repr

-- The weight of the bit that leads a significand of 53 bits. The exponent field stands above the
-- other 52.
def leadingBit : Nat := 0x10000000000000

def signBit : Nat := 0x8000000000000000

-- The parts of the finite double with the given bits. A significand has its leading bit unless the
-- exponent field, of eleven bits, is zero.
def Parts.ofBits (bits : Nat) : Parts :=
  let field := bits / leadingBit % 2048
  let low := bits % leadingBit
  { negative := bits / signBit % 2 == 1
    significand := if field = 0 then low else low + leadingBit
    exponent := (max 1 field : Nat) - 1075 }

def parts (x : Float) : Parts :=
  Parts.ofBits x.toBits.toNat

-- Numerator and denominator of `(num / den) / 2 ^ exponent`.
def scaled (num den : Nat) (exponent : Int) : Nat × Nat :=
  if 0 ≤ exponent then (num, den * Nat.pow 2 exponent.toNat)
  else (num * Nat.pow 2 (-exponent).toNat, den)

-- The whole number nearest to `num / den`, an exact half going to the even neighbour.
def roundHalfEven (num den : Nat) : Nat :=
  let quotient := num / den
  let twice := 2 * (num % den)
  if twice < den then quotient
  else if den < twice then quotient + 1
  else quotient + quotient % 2

-- The exponent at which `num / den` has a significand of 53 bits, or the least exponent of all.
def exponentFor (num den : Nat) : Int :=
  let guess : Int := (num.log2 : Int) - (den.log2 : Int) - 52
  let (top, bottom) := scaled num den guess
  max (-1074) (if top / bottom < leadingBit then guess - 1 else guess)

-- The bits of the infinite double, above those of all finite ones.
def infinityBits : Nat := 2047 * leadingBit

-- The bits of the nonnegative double nearest to `num / den`. A carry out of the significand raises
-- the exponent field by itself, and everything too large is infinite.
def nearestBits (num den : Nat) : Nat :=
  if num = 0 then 0
  else
    let exponent := exponentFor num den
    let (top, bottom) := scaled num den exponent
    min (roundHalfEven top bottom + (exponent + 1074).toNat * leadingBit) infinityBits

def withSign (negative : Bool) (bits : Nat) : Float :=
  Float.ofBits (if negative then bits + signBit else bits).toUInt64

-- The double nearest to `mantissa * 10 ^ exponent`. Past the range of doubles the power is not
-- computed.
def ofDecimal (negative : Bool) (mantissa : Nat) (exponent : Int) : Float :=
  let digits : Int := (Nat.toDigits 10 mantissa).length
  withSign negative <|
    if mantissa = 0 then 0
    else if 400 < digits + exponent then infinityBits
    else if digits + exponent < -400 then 0
    else if 0 ≤ exponent then nearestBits (mantissa * Nat.pow 10 exponent.toNat) 1
    else nearestBits mantissa (Nat.pow 10 (-exponent).toNat)

-- Whether a finite double is a whole number.
def isWhole (x : Float) : Bool :=
  x.floor == x

-- The whole part, towards zero.
def truncate (x : Float) : Float :=
  if x < 0 then x.ceil else x.floor

end ScriptEngine.Double
