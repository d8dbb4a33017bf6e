import ScriptEngine.Proofs.Logging.Erasure

-- The record of a run: what its checkpoints let pass or refuse, the work behind them, and the stop.

namespace ScriptEngine

inductive Event where
  -- A checkpoint lets the run go on. Its reading of the clock tells it from all others.
  | passed (reading : Nat)
  -- A checkpoint ends the run, inside of this many scripts that native functions are running.
  | refused (depth : Nat)
  -- Work begins that the checkpoint with this reading has let pass. There is no reading for what an
  -- entry calls itself.
  | began (work : Work) (reading : Option Nat)
  -- The run has been stopped.
  | stopped
deriving DecidableEq, Repr

variable {σ : Type}

namespace Event

-- The event as a script that a native function runs shows it to the script around it.
def nested : Event → Event
  | refused depth => refused (depth + 1)
  | event => event

-- Whether the event is the call of a function by the entry itself.
def isDirect : Event → Bool
  | began _ none => true
  | _ => false

-- The event that a stop between two states is.
def stopsBetween (before after : Machine σ) : List Event :=
  if before.deadline ≠ .stopped ∧ after.deadline = .stopped then [.stopped] else []

theorem eq_of_mem_stopsBetween {before after : Machine σ} {event : Event}
    (h : event ∈ stopsBetween before after) : event = .stopped := by
  unfold stopsBetween at h
  split at h
  · exact List.mem_singleton.mp h
  · cases h

end Event

-- A computation on a machine, with the events in it.
abbrev Traced (σ ε α : Type) : Type :=
  Logged Event σ ε α

abbrev TracedBelow (σ : Type) : Type :=
  ObservedBelow σ Event

def Hooks.events : Hooks σ Event where
  checkpoint machine result := Event.stopsBetween machine result.2 ++
    match result.1 with
    | .done () => [.passed machine.readings]
    | .failed _ => [.refused 0]
    | .crashed | .spent => []
  began work reading := [.began work reading]
  asked := Event.stopsBetween
  nested := Event.nested

abbrev Expr.traced (host : Host σ) (below : TracedBelow σ) (context : Context) (value : Expr) :
    Traced σ Error Value :=
  value.observed Hooks.events host below context

abbrev Stmt.traced (host : Host σ) (below : TracedBelow σ) (fuel : Nat) (context : Context)
    (item : Stmt) : Traced σ Error Completion :=
  item.observed Hooks.events host below context fuel

theorem Traced.run_guarded {α : Type} {machine : Machine σ} (host : Host σ) (location : Location)
    (next : Nat → Traced σ Error α) :
    (Hooks.events.guarded host location next).run machine =
      match Run.locate location (Run.checkpoint host) machine with
      | (.done (), after) =>
        (Event.stopsBetween machine after ++ .passed machine.readings ::
          ((next machine.readings).run after).1, ((next machine.readings).run after).2)
      | (.failed error, after) =>
        (Event.stopsBetween machine after ++ [.refused 0], .failed error, after)
      | (.crashed, after) => (Event.stopsBetween machine after, .crashed, after)
      | (.spent, after) => (Event.stopsBetween machine after, .spent, after) := by
  unfold Hooks.guarded
  rw [Logged.run_bind]
  dsimp only [Logged.lift, Logged.watch, Run.get]
  rw [Logged.run_bind]
  dsimp only
  rcases Run.locate location (Run.checkpoint host) machine with ⟨ending, after⟩
  cases ending with
  | done _ => simp [Hooks.events]
  | failed _ | crashed | spent => simp [Hooks.events]

end ScriptEngine
