import ScriptEngine.Double.Shortest

-- Numbers of the language: 64-bit integers, which wrap, and doubles.

namespace ScriptEngine

inductive Number where
  | int (value : Int64)
  | double (value : Float)

namespace Number

def toDouble : Number → Float
  | int value => value.toFloat
  | double value => value

-- Doubles are cut towards zero and held within range; those that are not finite count as zero.
def toInt : Number → Int64
  | int value => value
  | double value => if value.isFinite then value.toInt64 else 0

-- Equality within one representation: an integer never equals a double.
def same : Number → Number → Bool
  | int a, int b => a == b
  | double a, double b => a == b
  | _, _ => false

def isNaN : Number → Bool
  | int _ => false
  | double value => value.isNaN

def isFinite : Number → Bool
  | int _ => true
  | double value => value.isFinite

def isTruthy : Number → Bool
  | int value => value != 0
  | double value => !(value == 0 || value.isNaN)

-- Decimal text of an integer.
def intText (value : Int) : List Char :=
  if value < 0 then '-' :: Nat.toDigits 10 value.natAbs else Nat.toDigits 10 value.natAbs

def signed (negative : Bool) (digits : List Char) : List Char :=
  if negative then '-' :: digits else digits

-- Whole doubles below 10^21 are written in full, all others with the fewest digits that read back,
-- always positionally. Zero has no sign.
def doubleText (value : Float) : List Char :=
  if value.isNaN then "NaN".toList
  else if value.isInf then signed (value < 0) "Infinity".toList
  else if value == 0 then ['0']
  else
    let parts := Double.parts value
    if Double.isWhole value && value.abs < 1e21 then
      let (num, den) := Double.scaled parts.significand 1 (-parts.exponent)
      signed parts.negative (Nat.toDigits 10 (num / den))
    else
      signed parts.negative (Double.shortest parts).positional

def text : Number → String
  | int value => String.ofList (intText value.toInt)
  | double value => String.ofList (doubleText value)

-- A double that is a whole number in range becomes an integer.
def ofDouble (value : Float) : Number :=
  if value.isFinite && Double.isWhole value && value.abs < 9223372036854775808.0 then
    int value.toInt64
  else
    double value

end Number

end ScriptEngine
