import ScriptEngine.Config
import ScriptEngine.Eval
import ScriptEngine.Native.Standard

-- An engine owns one global object. Scripts run against it one at a time, and what they define
-- stays. Every entry starts the time and the call depth anew.

namespace ScriptEngine

structure Engine (σ : Type) where
  machine : Machine σ
  timeout : Nat

namespace Engine

variable {σ α : Type}

def create (config : Config) (hostState : σ) : Engine σ :=
  let (root, heap) := Heap.empty.addObject .empty
  let heap := if config.installStandard then Registry.standard.install heap root else heap
  { machine :=
      { heap, root, deadline := .never, readings := 0, depth := 0, maxDepth := config.maxDepth,
        transcript := default, host := hostState }
    timeout := config.timeout }

def heap (engine : Engine σ) : Heap :=
  engine.machine.heap

def root (engine : Engine σ) : ObjectRef :=
  engine.machine.root

def mapHeap (change : Heap → Heap) (engine : Engine σ) : Engine σ :=
  { engine with machine := { engine.machine with heap := change engine.machine.heap } }

-- Runs a computation from a new start.
def enter (host : Host σ) (run : Run σ Error α) (engine : Engine σ) :
    Ending Error α × Engine σ :=
  let (ending, machine) := run (engine.machine.restart host engine.timeout)
  (ending, { engine with machine })

-- Runs statements for their effects. What was done before a failure is kept.
def execute (host : Host σ) (fuel : Nat) (source : String) (engine : Engine σ) :
    Ending Error Unit × Engine σ :=
  engine.enter host <|
    match Program.read source with
    | .ok program => do
      let _ ← Stmt.execAll host (Below.ofFuel host fuel) fuel ⟨source, .ofRoot engine.root⟩
        program.body
      return ()
    | .error error => Run.fail (.ofParse source error)

-- The value of one expression.
def evaluate (host : Host σ) (fuel : Nat) (source : String) (engine : Engine σ) :
    Ending Error Value × Engine σ :=
  engine.enter host <|
    match Expr.read source with
    | .ok expression =>
      expression.eval host (Below.ofFuel host fuel) ⟨source, .ofRoot engine.root⟩
    | .error error => Run.fail (.ofParse source error)

-- Calls the global function of a name with the global object as its receiver.
def callFunction (host : Host σ) (fuel : Nat) (name : String) (arguments : List Value)
    (engine : Engine σ) : Ending Error Value × Engine σ :=
  let location : Location := ⟨name, 0⟩
  engine.enter host <|
    match (engine.heap.get? engine.root name).filter engine.heap.isFunction with
    | some function =>
      callValue host (Below.ofFuel host fuel) location function (.object engine.root) arguments none
        (.ofRoot engine.root)
    | none => Run.fail ⟨.unknownFunction name, location⟩

-- Calls a function with an object as its receiver and as the innermost frame of its scope.
def callWithin (host : Host σ) (fuel : Nat) (frame : ObjectRef) (function : Value)
    (arguments : List Value) (engine : Engine σ) : Ending Error Value × Engine σ :=
  engine.enter host <|
    callValue host (Below.ofFuel host fuel) ⟨"", 0⟩ function (.object frame) arguments none
      ((Scope.ofRoot engine.root).child frame)

-- Puts an object on the global object under a name.
def registerObject (name : String) (object : Object) (engine : Engine σ) : ObjectRef × Engine σ :=
  let (ref, heap) := engine.heap.addObject object
  (ref, engine.mapHeap fun _ => heap.set engine.root name (.object ref))

-- Puts a native function on the global object under a name.
def registerNative (name : String) (native : Native) (engine : Engine σ) : Engine σ :=
  engine.mapHeap (·.installNatives engine.root [(name, native)])

def deregister (name : String) (engine : Engine σ) : Engine σ :=
  engine.mapHeap (·.erase engine.root name)

def stop (engine : Engine σ) : Engine σ :=
  { engine with machine := engine.machine.stop }

def setMaxDepth (depth : Nat) (engine : Engine σ) : Engine σ :=
  { engine with machine := { engine.machine with maxDepth := depth } }

-- The text written since the last call, which is then forgotten.
def takeTranscript (engine : Engine σ) : Transcript × Engine σ :=
  (engine.machine.transcript,
    { engine with machine := { engine.machine with transcript := default } })

end Engine

end ScriptEngine
