import ScriptEngine.Proofs.Pairing.Walk

-- Runs that are watched where the depth or the scope changes: at the calls of user functions, at
-- their bodies, and at the scripts that native functions run. The moments are kept beside the state
-- of the embedding program, which does not see them.

namespace ScriptEngine

variable {σ τ ε α : Type}

-- Where the scope or the depth changes. A call is made and comes back in the scope of the caller; the
-- body of the function, if it is entered, is entered and left in a scope of its own.
inductive Point where
  | called | entered | left | cameBack
  -- A script of a native function.
  | opened | closed
deriving DecidableEq, Repr

-- In the body of a user function, which has a level of its own.
def Point.isInside : Point → Bool
  | entered | left => true
  | called | cameBack | opened | closed => false

structure Moment where
  point : Point
  depth : Nat
  -- The number of scopes around the current one.
  ancestors : Nat
  -- Inside of a script that a native function runs.
  nested : Bool
deriving DecidableEq, Repr

def Machine.mapHost (f : σ → τ) (machine : Machine σ) : Machine τ :=
  { machine with host := f machine.host }

namespace Watched

-- The state of the embedding program with the moments so far.
abbrev State (σ : Type) : Type :=
  σ × List Moment

def note (point : Point) (nested : Bool) (scope : Scope) (machine : Machine (State σ)) :
    Machine (State σ) :=
  { machine with
    host := (machine.host.1, machine.host.2 ++ [⟨point, machine.depth, scope.depth, nested⟩]) }

-- Notes the moments before and after a computation, whatever its ending.
def watch (first last : Point) (nested : Bool) (scope : Scope) (run : Run (State σ) ε α) :
    Run (State σ) ε α := fun machine =>
  let (ending, machine) := run (note first nested scope machine)
  (ending, note last nested scope machine)

-- An operation of the embedding program, which leaves the moments alone.
def lift (step : Machine σ → Except ε α × Machine σ) (machine : Machine (State σ)) :
    Except ε α × Machine (State σ) :=
  let (result, after) := step (machine.mapHost Prod.fst)
  (result, after.mapHost fun state => (state, machine.host.2))

def host (host : Host σ) : Host (State σ) where
  clock := host.clock
  stops := host.stops
  call handler receiver arguments := lift (host.call handler receiver arguments)
  construct handler name arguments := lift (host.construct handler name arguments)
  sameValue := host.sameValue
  hasMethod := host.hasMethod
  invoke handler className primitive name arguments :=
    lift (host.invoke handler className primitive name arguments)

-- The levels of a run that is watched.
def below (embedder : Host σ) (nested : Bool) : Nat → Below (State σ)
  | 0 => { enter := fun _ _ _ _ _ => Run.spent, script := fun _ _ => Run.spent }
  | fuel + 1 =>
    { enter := fun location closure receiver arguments scope =>
        watch .called .cameBack nested scope <| Run.deeper location do
          let frame ← Run.onHeap (·.addObject (closure.frame receiver arguments))
          let context : Context := ⟨closure.script, scope.child frame⟩
          let completion ← watch .entered .left nested context.scope <|
            Stmt.execAll (host embedder) (below embedder nested fuel) fuel context
              closure.function.body
          match completion with
          | .returned value => return value
          | _ => return .undefined
      script := fun form text => do
        let machine ← Run.get
        watch .opened .closed true (.ofRoot machine.root) <|
          form.run (host embedder) (below embedder true fuel) fuel text }

end Watched

-- What an engine is asked to do in a scope.
inductive Task where
  | execute (context : Context) (item : Stmt)
  | evaluate (context : Context) (value : Expr)
  | call (location : Location) (function receiver : Value) (arguments : List Value)
      (method : Option String) (scope : Scope)

namespace Task

def scope : Task → Scope
  | execute context _ | evaluate context _ => context.scope
  | call _ _ _ _ _ scope => scope

-- The computation of a task, without its value.
def run (host : Host σ) (below : Below σ) (fuel : Nat) : Task → Run σ Error Unit
  | execute context item => do
    let _ ← item.exec host below fuel context
    return ()
  | evaluate context value => do
    let _ ← value.eval host below context
    return ()
  | call location function receiver arguments method scope => do
    let _ ← callValue host below location function receiver arguments method scope
    return ()

-- The moments of a task, how it ends, and the machine it leaves.
def record (host : Host σ) (fuel : Nat) (task : Task) (machine : Machine σ) :
    List Moment × Ending Error Unit × Machine σ :=
  let (ending, after) := task.run (Watched.host host) (Watched.below host false fuel) fuel
    (machine.mapHost fun state => (state, []))
  (after.host.2, ending, after.mapHost Prod.fst)

end Task

end ScriptEngine
