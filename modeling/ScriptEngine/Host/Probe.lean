import ScriptEngine.Engine

-- A small host to try an engine out with. Its functions report or change what they are called with,
-- its classes are built in the ways that the engine tells apart, and its clock moves on by a
-- microsecond with every reading.

namespace ScriptEngine.Probe

-- How often each counter has been called.
structure State where
  counts : List Nat
deriving Repr

instance : Inhabited State := ⟨⟨[]⟩⟩

def errorKind (name : String) : ErrorKind :=
  match name with
  | "SyntaxError" => .syntaxError
  | "ReferenceError" => .referenceError
  | "RangeError" => .rangeError
  | "TimeoutError" => .timeoutError
  | _ => .typeError

-- The text of an argument; empty if there is none.
def textArgument (heap : Heap) (arguments : List Value) (index : Nat) : String :=
  match arguments[index]? with
  | some value => heap.toText value
  | none => ""

def call (handler : Handler) (receiver : Value) (arguments : List Value) (machine : Machine State) :
    Except Fault Value × Machine State :=
  match handler.label with
  | "args" =>
    let (value, heap) := machine.heap.addArrayValue arguments
    (.ok value, { machine with heap })
  | "this" => (.ok receiver, machine)
  | "stop" | "stop_handle" => (.ok .undefined, machine.stop)
  | "depth" => (.ok (.ofNat machine.depth), machine)
  | "counter" =>
    let count := machine.host.counts.getD handler.slot 0 + 1
    (.ok (.ofNat count),
      { machine with host := ⟨machine.host.counts.set handler.slot count⟩ })
  | "fail" =>
    let kind := errorKind (textArgument machine.heap arguments 0)
    (.error (.raised kind (textArgument machine.heap arguments 1)), machine)
  | _ => (.ok .undefined, machine)

def construct (handler : Handler) (className : String) (arguments : List Value)
    (machine : Machine State) : Except Fault Object × Machine State :=
  match handler.label with
  | "failing" =>
    let count := (Number.int (Int64.ofNat arguments.length)).text
    (.error (.raised .rangeError ("cannot build from " ++ count ++ " args")), machine)
  | "opaque" | "ghost" =>
    (.ok ⟨.wrapper (.host handler className (argument arguments 0)), .empty⟩, machine)
  | _ => (.ok .empty, machine)

def host : Host State where
  clock := Host.stepClock
  stops _ := false
  call := call
  construct := construct
  sameValue _ _ _ _ := none
  hasMethod handler name := handler.label = "ghost" && name = "ghost"
  invoke _ className _ name _ machine := (.error (.noMethod className name), machine)

-- A native class of one of the kinds that `construct` knows.
def nativeClass (name label : String) : NativeClass :=
  ⟨name, label ≠ "namespace", .host ⟨label, 0⟩⟩

-- Registers a function of one of the kinds that `call` knows.
def registerFunction (name label : String) (engine : Engine State) : Engine State :=
  let counts := engine.machine.host.counts
  let engine := engine.registerNative name (.host ⟨label, counts.length⟩)
  { engine with machine := { engine.machine with host := ⟨counts ++ [0]⟩ } }

end ScriptEngine.Probe
