import ScriptEngine.Native.Strings

-- Native functions on numbers.

namespace ScriptEngine

namespace MathFunction

-- An argument as a double; NaN if the call has fewer.
def operand (heap : Heap) (arguments : List Value) (index : Nat) : Float :=
  match arguments[index]? with
  | some value => (heap.toNumber value).toDouble
  | none => Double.nan

-- The first of the numbers that the order puts before all others and before the start, or NaN if
-- one of them is NaN.
def extreme (before : Float → Float → Bool) (start : Float) (numbers : List Float) : Float :=
  if numbers.any Float.isNaN then Double.nan
  else numbers.foldl (fun best x => if before x best then x else best) start

def signOf (x : Float) : Number :=
  if x.isNaN then .double Double.nan
  else if x == 0 then .int 0
  else if x > 0 then .int 1
  else .int (-1)

-- Whole results of rounding, of powers and of extremes are integers.
def apply (function : MathFunction) (arguments : List Value) (heap : Heap) : Number :=
  let x := operand heap arguments 0
  let all := arguments.map fun value => (heap.toNumber value).toDouble
  match function with
  | abs =>
    match arguments with
    | .number (.int value) :: _ => .int (if value < 0 then -value else value)
    | _ => .ofDouble x.abs
  | floor => .ofDouble x.floor
  | ceil => .ofDouble x.ceil
  | round => .ofDouble (x + 0.5).floor
  | trunc => .ofDouble (Double.truncate x)
  | sign => signOf x
  | min => .ofDouble (extreme (· < ·) Double.infinity all)
  | max => .ofDouble (extreme (· > ·) Double.negativeInfinity all)
  | sqrt => .double x.sqrt
  | pow => .ofDouble (x.pow (operand heap arguments 1))
  | exp => .double x.exp
  | log => .double x.log
  | sin => .double x.sin
  | cos => .double x.cos
  | tan => .double x.tan

end MathFunction

namespace NumberFunction

-- These ask about numbers only and convert nothing.
def apply (function : NumberFunction) (arguments : List Value) : Bool :=
  match function, argument arguments 0 with
  | isNaN, .number value => value.isNaN
  | isFinite, .number value => value.isFinite
  | isInteger, .number (.int _) => true
  | isInteger, .number (.double value) => value.isFinite && Double.isWhole value
  | _, _ => false

end NumberFunction

end ScriptEngine
