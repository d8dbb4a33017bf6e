import ScriptEngine.Heap.Equality

-- Native classes and their instances.

namespace ScriptEngine

variable {σ : Type}

namespace Maker

-- The number that a class of numbers wraps. Only numbers and texts that are not blank count.
def wrappedNumber (heap : Heap) : List Value → Number
  | [] => .int 0
  | .number value :: _ => value
  | .string text :: _ =>
    if (Text.trim text.toList).isEmpty then .double Double.nan else heap.toNumber (.string text)
  | _ :: _ => .double Double.nan

-- A new instance, still without a prototype.
def build (host : Host σ) (className : String) (arguments : List Value) :
    Maker → Run σ Fault Object
  | plain => return .empty
  | number => do
    let heap ← Run.getHeap
    return ⟨.wrapper (.number (wrappedNumber heap arguments)), .empty⟩
  | boolean => return ⟨.wrapper (.boolean (arguments.any Value.isTruthy)), .empty⟩
  | .host handler => Run.ofStep (host.construct handler className arguments)

end Maker

namespace Instance

-- Methods that an instance answers itself.
def hasMethod (host : Host σ) (name : String) : Instance → Bool
  | number _ | boolean _ => name = "toString" || name = "valueOf"
  | .host handler _ _ => host.hasMethod handler name

def invoke (host : Host σ) (heap : Heap) (name : String) (arguments : List Value)
    (content : Instance) : Run σ Fault Value :=
  match content with
  | .host handler className primitive =>
    Run.ofStep (host.invoke handler className primitive name arguments)
  | content =>
    if name = "toString" then return .string (heap.toText content.primitive)
    else if name = "valueOf" then return content.primitive
    else Run.fail (.noMethod content.className name)

end Instance

end ScriptEngine
