import ScriptEngine.Double.Binary

-- The exact remainder of a division of doubles that truncates towards zero.

namespace ScriptEngine.Double

-- The remainder has the sign of the dividend, also when it is zero.
def remainder (x y : Float) : Float :=
  if x.isNaN || y.isNaN || x.isInf then nan
  else if y == 0 then nan
  else if y.isInf then x
  else
    let dividend := parts x
    let divisor := parts y
    let exponent := min dividend.exponent divisor.exponent
    let rest :=
      (dividend.significand * Nat.pow 2 (dividend.exponent - exponent).toNat)
        % (divisor.significand * Nat.pow 2 (divisor.exponent - exponent).toNat)
    let (num, den) := scaled rest 1 (-exponent)
    withSign dividend.negative (nearestBits num den)

end ScriptEngine.Double
