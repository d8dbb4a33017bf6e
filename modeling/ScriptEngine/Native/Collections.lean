import ScriptEngine.Heap.Equality
import ScriptEngine.Native.Strings

-- Native functions on arrays and objects.

namespace ScriptEngine

variable {σ : Type}

def Value.isArray : Value → Bool
  | .array _ => true
  | _ => false

namespace ArrayFunction

def text : ArrayFunction → String
  | push => "push"
  | pop => "pop"
  | join => "join"
  | indexOf => "indexOf"
  | contains => "contains"
  | isArray => "isArray"

-- The index of the first element that is strictly equal to a value.
def position? (host : Host σ) (heap : Heap) (ref : ArrayRef) (value : Value) : Option Nat :=
  (heap.array ref).toList.findIdx? fun element => heap.strictlyEqual host element value

def onArray (host : Host σ) (function : ArrayFunction) (ref : ArrayRef) (arguments : List Value)
    (heap : Heap) : Value × Heap :=
  match function with
  | push =>
    let heap := heap.modifyArray ref (· ++ arguments.toArray)
    (.ofNat (heap.array ref).size, heap)
  | pop => (((heap.array ref).back?).getD .undefined, heap.modifyArray ref Array.pop)
  | join =>
    let separator := match arguments with
      | [] | .undefined :: _ => ","
      | separator :: _ => heap.toText separator
    (.string (heap.joinArray ref separator), heap)
  | indexOf =>
    match position? host heap ref (argument arguments 0) with
    | some index => (.ofNat index, heap)
    | none => (.int (-1), heap)
  | contains => (.boolean (position? host heap ref (argument arguments 0)).isSome, heap)
  | isArray => (.boolean (argument arguments 0).isArray, heap)

def apply (host : Host σ) (function : ArrayFunction) (receiver : Value) (arguments : List Value) :
    Run σ Fault Value :=
  match function, receiver with
  | isArray, _ => return .boolean (argument arguments 0).isArray
  | function, .array ref => Run.onHeap (function.onArray host ref arguments)
  | function, _ => Run.fail (.notAnArray function.text)

end ArrayFunction

namespace ObjectFunction

-- The names of the properties of an object, or the indices of an array.
def keysOf (heap : Heap) : Value → List String
  | .object ref => heap.names ref
  | .array ref =>
    (List.range (heap.array ref).size).map fun index => (Number.int (Int64.ofNat index)).text
  | _ => []

def apply (function : ObjectFunction) (receiver : Value) (arguments : List Value) (heap : Heap) :
    Value × Heap :=
  match function with
  | .toString => (.string (heap.toText receiver), heap)
  | hasOwnProperty =>
    match receiver with
    | .object ref => (.boolean (heap.get? ref (heap.toText (argument arguments 0))).isSome, heap)
    | _ => (.boolean false, heap)
  | keys => heap.addArrayValue ((keysOf heap (argument arguments 0)).map Value.string)

end ObjectFunction

end ScriptEngine
