import ScriptEngine.Double.Remainder
import ScriptEngine.Heap.Equality

-- Binary operators. The operands decide in four steps what an operator works on: nothing on both
-- sides, numbers, anything on the heap, and else text.

namespace ScriptEngine

-- What a comparison says about an order of its operands; none for other operators.
def BinaryOp.compare? (operator : BinaryOp) (order : Option Ordering) : Option Bool :=
  match operator with
  | equal => some (order == some .eq)
  | unequal => some (order != some .eq)
  | less => some (order == some .lt)
  | lessEqual => some (order == some .lt || order == some .eq)
  | greater => some (order == some .gt)
  | greaterEqual => some (order == some .gt || order == some .eq)
  | _ => none

namespace Ladder

def orderInts (a b : Int64) : Ordering :=
  if a < b then .lt else if a = b then .eq else .gt

-- Doubles have no order if one of them is NaN.
def orderDoubles (a b : Float) : Option Ordering :=
  if a < b then some .lt else if a == b then some .eq else if a > b then some .gt else none

def orderTexts (a b : String) : Ordering :=
  if a < b then .lt else if a = b then .eq else .gt

-- Nothing equals nothing, and all other operators give nothing.
def onNothing : BinaryOp → Value
  | .equal => .boolean true
  | .unequal => .boolean false
  | _ => .undefined

-- Sums, differences, products and shifts wrap to 64 bits. A quotient is a double, and division by
-- zero gives infinity.
def onInts (operator : BinaryOp) (a b : Int64) : Except Fault Value :=
  match operator.compare? (some (orderInts a b)) with
  | some answer => .ok (.boolean answer)
  | none =>
    match operator with
    | .add => .ok (.int (a + b))
    | .subtract => .ok (.int (a - b))
    | .multiply => .ok (.int (a * b))
    | .divide => .ok (.double (if b = 0 then Double.infinity else a.toFloat / b.toFloat))
    | .modulo => .ok (if b = 0 then .double Double.infinity else .int (a % b))
    | .bitAnd => .ok (.int (a &&& b))
    | .bitOr => .ok (.int (a ||| b))
    | .bitXor => .ok (.int (a ^^^ b))
    | .shiftLeft => .ok (.int (a <<< (b &&& 63)))
    | .shiftRight => .ok (.int (a >>> (b &&& 63)))
    | .shiftRightUnsigned =>
      .ok (.int (Int64.ofNat ((a.toUInt64.toNat % UInt32.size) >>> (b.toUInt64.toNat % 32))))
    | _ => .error (.notAllowed operator .integer)

def onDoubles (operator : BinaryOp) (a b : Float) : Except Fault Value :=
  match operator.compare? (orderDoubles a b) with
  | some answer => .ok (.boolean answer)
  | none =>
    match operator with
    | .add => .ok (.double (a + b))
    | .subtract => .ok (.double (a - b))
    | .multiply => .ok (.double (a * b))
    | .divide => .ok (.double (if b == 0 then Double.infinity else a / b))
    | .modulo => .ok (.double (if b == 0 then Double.infinity else Double.remainder a b))
    | _ => .error (.notAllowed operator .double)

def onTexts (operator : BinaryOp) (a b : String) : Except Fault Value :=
  match operator.compare? (some (orderTexts a b)) with
  | some answer => .ok (.boolean answer)
  | none =>
    match operator with
    | .add => .ok (.string (a ++ b))
    | _ => .error (.notAllowed operator .string)

-- Numbers, booleans and undefined.
def isNumeric : Value → Bool
  | .number _ | .boolean _ | .undefined => true
  | _ => false

def isDouble : Value → Bool
  | .number (.double _) => true
  | _ => false

def isReference : Value → Bool
  | .object _ | .array _ | .native _ => true
  | _ => false

def operandClass : Value → OperandClass
  | .array _ => .array
  | _ => .object

-- Things on the heap are only told apart.
def onReferences (operator : BinaryOp) (a b : Value) : Except Fault Value :=
  match operator with
  | .equal => .ok (.boolean (a.sameReference b))
  | .unequal => .ok (.boolean !(a.sameReference b))
  | _ => .error (.notAllowed operator (operandClass (if isReference a then a else b)))

-- Booleans count as zero and one, and everything that is no number as zero.
def toInt : Value → Int64
  | .boolean value => if value then 1 else 0
  | .number value => value.toInt
  | _ => 0

def toDouble : Value → Float
  | .boolean value => if value then 1 else 0
  | .number value => value.toDouble
  | _ => 0

end Ladder

open Ladder in
def Heap.applyBinary {σ : Type} (host : Host σ) (heap : Heap) (operator : BinaryOp) (a b : Value) :
    Except Fault Value :=
  if operator = .strictEqual then .ok (.boolean (heap.strictlyEqual host a b))
  else if operator = .strictUnequal then .ok (.boolean !(heap.strictlyEqual host a b))
  else if a.isNothing && b.isNothing then .ok (onNothing operator)
  else if isNumeric a && isNumeric b then
    if isDouble a || isDouble b then onDoubles operator (toDouble a) (toDouble b)
    else onInts operator (toInt a) (toInt b)
  else if isReference a || isReference b then onReferences operator a b
  else onTexts operator (heap.toText a) (heap.toText b)

end ScriptEngine
