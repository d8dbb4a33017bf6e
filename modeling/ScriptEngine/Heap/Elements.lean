import ScriptEngine.Fault
import ScriptEngine.Heap

-- Elements of arrays. Arrays are dense, so a write far behind the end is refused.

namespace ScriptEngine

-- Writes reach indices below this one.
def Heap.indexLimit : Int64 := 16777216

-- The index that a key denotes. Doubles are cut towards zero; nothing but finite numbers counts.
def Value.toIndex? : Value → Option Int64
  | .number (.int value) => some value
  | .number (.double value) => if value.isFinite then some value.toInt64 else none
  | _ => none

namespace Heap

def element (heap : Heap) (ref : ArrayRef) (index : Int64) : Value :=
  if index < 0 then .undefined else ((heap.array ref)[index.toNatClampNeg]?).getD .undefined

-- The elements with one of them replaced, and with undefined ones up to it if they end before it.
def place (elements : Array Value) (index : Nat) (value : Value) : Array Value :=
  if elements.size ≤ index then
    (elements ++ Array.replicate (index - elements.size) Value.undefined).push value
  else
    elements.setIfInBounds index value

def setElement (heap : Heap) (ref : ArrayRef) (index : Int64) (value : Value) :
    Except Fault Heap :=
  if index < 0 ∨ indexLimit ≤ index then .error (.invalidIndex index)
  else .ok (heap.modifyArray ref (place · index.toNatClampNeg value))

end Heap

end ScriptEngine
