import ScriptEngine.Deadline
import ScriptEngine.Heap

-- The state of an engine, what the embedding program adds to it, and computations on it.

namespace ScriptEngine

-- Text written to the two console channels.
structure Transcript where
  output : String
  errors : String
deriving DecidableEq, Repr

namespace Transcript

instance : Inhabited Transcript := ⟨⟨"", ""⟩⟩

def write (text : String) (transcript : Transcript) : Transcript :=
  { transcript with output := transcript.output ++ text }

def writeError (text : String) (transcript : Transcript) : Transcript :=
  { transcript with errors := transcript.errors ++ text }

end Transcript

structure Machine (σ : Type) where
  heap : Heap
  -- The global object.
  root : ObjectRef
  deadline : Deadline
  -- How often the clock has been read.
  readings : Nat
  -- User functions that have been entered and not left.
  depth : Nat
  maxDepth : Nat
  transcript : Transcript
  -- State of the embedding program's own.
  host : σ

-- What the embedding program provides: a clock, given by its successive readings in nanoseconds,
-- and the behaviour of its functions, classes and instances.
structure Host (σ : Type) where
  clock : Nat → Nat
  -- Whether another thread stops the run through a handle between a reading and the one before it.
  stops : Nat → Bool
  call : Handler → Value → List Value → Machine σ → Except Fault Value × Machine σ
  construct : Handler → String → List Value → Machine σ → Except Fault Object × Machine σ
  -- Strict equality of an instance with a value; none to compare as for any object.
  sameValue : Handler → Value → Heap → Value → Option Bool
  hasMethod : Handler → String → Bool
  invoke : Handler → String → Value → String → List Value → Machine σ →
    Except Fault Value × Machine σ

-- A clock that moves on by a microsecond with every reading.
def Host.stepClock (reading : Nat) : Nat :=
  reading * 1000

-- A host without functions and classes of its own.
def Host.bare : Host Unit where
  clock := stepClock
  stops _ := false
  call _ _ _ machine := (.ok .undefined, machine)
  construct _ _ _ machine := (.ok .empty, machine)
  sameValue _ _ _ _ := none
  hasMethod _ _ := false
  invoke _ className _ name _ machine := (.error (.noMethod className name), machine)

-- How a computation ends: with a value, with a failure, because the whole program crashes, or
-- because its fuel is spent.
inductive Ending (ε α : Type) where
  | done (value : α)
  | failed (error : ε)
  | crashed
  | spent

-- A computation on a machine. Whatever its ending, it leaves a machine behind.
def Run (σ ε α : Type) : Type :=
  Machine σ → Ending ε α × Machine σ

namespace Run

variable {σ ε α : Type}

@[always_inline, inline]
def done (value : α) : Run σ ε α :=
  fun machine => (.done value, machine)

@[always_inline, inline]
def andThen {β : Type} (run : Run σ ε α) (next : α → Run σ ε β) : Run σ ε β := fun machine =>
  match run machine with
  | (.done value, machine) => next value machine
  | (.failed error, machine) => (.failed error, machine)
  | (.crashed, machine) => (.crashed, machine)
  | (.spent, machine) => (.spent, machine)

instance : Monad (Run σ ε) where
  pure := done
  bind := andThen

def fail (error : ε) : Run σ ε α :=
  fun machine => (.failed error, machine)

def spent : Run σ ε α :=
  fun machine => (.spent, machine)

def get : Run σ ε (Machine σ) :=
  fun machine => (.done machine, machine)

def getHeap : Run σ ε Heap :=
  fun machine => (.done machine.heap, machine)

def modifyHeap (change : Heap → Heap) : Run σ ε Unit :=
  fun machine => (.done (), { machine with heap := change machine.heap })

-- Runs an operation on the heap that gives a value.
def onHeap (operation : Heap → α × Heap) : Run σ ε α := fun machine =>
  let (value, heap) := operation machine.heap
  (.done value, { machine with heap })

def ofExcept : Except ε α → Run σ ε α
  | .ok value => pure value
  | .error error => fail error

-- Runs an operation that cannot run out of fuel.
def ofStep (step : Machine σ → Except ε α × Machine σ) : Run σ ε α := fun machine =>
  match step machine with
  | (.ok value, machine) => (.done value, machine)
  | (.error error, machine) => (.failed error, machine)

-- Gives the faults of a computation a place.
def locate (location : Location) (run : Run σ Fault α) : Run σ Error α := fun machine =>
  match run machine with
  | (.done value, machine) => (.done value, machine)
  | (.failed fault, machine) => (.failed ⟨fault, location⟩, machine)
  | (.crashed, machine) => (.crashed, machine)
  | (.spent, machine) => (.spent, machine)

-- Makes the place of an error part of its message.
def embed (run : Run σ Error α) : Run σ Fault α := fun machine =>
  match run machine with
  | (.done value, machine) => (.done value, machine)
  | (.failed error, machine) => (.failed (.nested error.location error.fault), machine)
  | (.crashed, machine) => (.crashed, machine)
  | (.spent, machine) => (.spent, machine)

-- Runs a step again and again until it gives a value, as long as there is fuel.
def repeatUntil (step : Run σ ε (Option α)) : Nat → Run σ ε α
  | 0 => spent
  | fuel + 1 => fun machine =>
    match step machine with
    | (.done (some value), machine) => (.done value, machine)
    | (.done none, machine) => repeatUntil step fuel machine
    | (.failed error, machine) => (.failed error, machine)
    | (.crashed, machine) => (.crashed, machine)
    | (.spent, machine) => (.spent, machine)

end Run

namespace Machine

variable {σ : Type}

def stop (machine : Machine σ) : Machine σ :=
  { machine with deadline := .stopped }

-- The machine once what other threads have done before the next reading is seen.
def hear (host : Host σ) (machine : Machine σ) : Machine σ :=
  if host.stops machine.readings then machine.stop else machine

-- The machine after one more reading.
def tick (machine : Machine σ) : Machine σ :=
  { machine with readings := machine.readings + 1 }

-- Starts the time of a run, given in milliseconds, and its call depth anew.
def restart (host : Host σ) (timeout : Nat) (machine : Machine σ) : Machine σ :=
  { machine with
    deadline := .after (host.clock machine.readings) (timeout * 1000000)
    readings := machine.readings + 1
    depth := 0 }

section Restart

variable (host : Host σ) (timeout : Nat) (machine : Machine σ)

-- A new start leaves what has been done. Not by `rfl` alone, which would compare the deadlines
-- first.

@[simp] theorem heap_restart : (machine.restart host timeout).heap = machine.heap := by
  unfold restart
  rfl

@[simp] theorem root_restart : (machine.restart host timeout).root = machine.root := by
  unfold restart
  rfl

@[simp] theorem maxDepth_restart : (machine.restart host timeout).maxDepth = machine.maxDepth := by
  unfold restart
  rfl

@[simp] theorem transcript_restart :
    (machine.restart host timeout).transcript = machine.transcript := by
  unfold restart
  rfl

end Restart

def write (text : String) (machine : Machine σ) : Machine σ :=
  { machine with transcript := machine.transcript.write text }

def writeError (text : String) (machine : Machine σ) : Machine σ :=
  { machine with transcript := machine.transcript.writeError text }

end Machine

-- Fails if the run has been stopped or its time is up.
def Run.checkpoint {σ : Type} (host : Host σ) : Run σ Fault Unit := fun machine =>
  let machine := machine.hear host
  match machine.deadline.check (host.clock machine.readings) with
  | .ok () => (.done (), machine.tick)
  | .error fault => (.failed fault, machine.tick)

end ScriptEngine
