import ScriptEngine.Proofs.Logging.Erasure

-- The report of a run on receivers: which functions are entered with which receiver, what `this`
-- gives, and what subscript assignments store.

namespace ScriptEngine

variable {σ : Type}

inductive Report where
  -- A user function begins, with a frame of its own.
  | entered (frame : ObjectRef) (call : Call)
  -- `this` has given a value in the function with the frame, or outside of all functions.
  | received (frame : Option ObjectRef) (value : Value)
  -- A property of an object has been set under a name that is no word of a tree: by a subscript
  -- assignment, or by a registration.
  | stored (container : ObjectRef) (name : String) (value : Value)

-- The report on a subscript assignment. Elements of arrays are no properties, and a key that looks at
-- the object is not written.
def Report.ofSubscript (heap : Heap) (container key value : Value) : List Report :=
  match container with
  | .object ref => if heap.textVisits ref key then [] else [.stored ref (heap.toText key) value]
  | _ => []

def Hooks.reports : Hooks σ Report where
  received scope heap := [.received scope.inner.head? (scope.receiver heap)]
  stored := Report.ofSubscript
  entered frame call := [.entered frame call]

abbrev ReportedBelow (σ : Type) : Type :=
  ObservedBelow σ Report

-- The levels of a run with their reports.
abbrev ReportedBelow.ofFuel (host : Host σ) (fuel : Nat) : ReportedBelow σ :=
  ObservedBelow.ofFuel Hooks.reports host fuel

-- The computation of an entry with its report.
abbrev Entry.reported (host : Host σ) (below : ReportedBelow σ) (fuel : Nat) (engine : Engine σ)
    (entry : Entry) : Logged Report σ Error Unit :=
  entry.observed Hooks.reports host below fuel engine

end ScriptEngine
