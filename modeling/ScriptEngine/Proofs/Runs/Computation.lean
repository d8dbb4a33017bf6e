import ScriptEngine.Eval

-- Computations on machines, taken apart into their steps.

namespace ScriptEngine

variable {σ ε α β : Type}

-- An ending without its value.
def Ending.forget : Ending ε α → Ending ε Unit
  | done _ => done ()
  | failed error => failed error
  | crashed => crashed
  | spent => spent

def Ending.value? : Ending ε α → Option α
  | .done value => some value
  | _ => none

namespace Run

theorem bind_apply (run : Run σ ε α) (next : α → Run σ ε β) (machine : Machine σ) :
    (run >>= next) machine =
      match run machine with
      | (.done value, machine) => next value machine
      | (.failed error, machine) => (.failed error, machine)
      | (.crashed, machine) => (.crashed, machine)
      | (.spent, machine) => (.spent, machine) := rfl

-- A run whose failures are passed on in another form.
def mapError {ε' : Type} (f : ε → ε') (run : Run σ ε α) : Run σ ε' α := fun machine =>
  match run machine with
  | (.done value, machine) => (.done value, machine)
  | (.failed error, machine) => (.failed (f error), machine)
  | (.crashed, machine) => (.crashed, machine)
  | (.spent, machine) => (.spent, machine)

theorem locate_eq_mapError (location : Location) (run : Run σ Fault α) :
    Run.locate location run = Run.mapError (fun fault => ⟨fault, location⟩) run := by
  funext machine
  unfold Run.locate Run.mapError
  rcases run machine with ⟨ending, after⟩
  cases ending <;> rfl

theorem embed_eq_mapError (run : Run σ Error α) :
    Run.embed run = Run.mapError (fun error => .nested error.location error.fault) run := by
  funext machine
  unfold Run.embed Run.mapError
  rcases run machine with ⟨ending, after⟩
  cases ending <;> rfl

-- A round and the rounds after it.
theorem repeatUntil_succ (step : Run σ ε (Option α)) (fuel : Nat) :
    Run.repeatUntil step (fuel + 1) =
      step >>= fun value => value.elim (Run.repeatUntil step fuel) pure := by
  funext machine
  rw [bind_apply, Run.repeatUntil]
  dsimp only
  rcases step machine with ⟨ending, after⟩
  cases ending with
  | done value => cases value <;> rfl
  | failed error => rfl
  | crashed => rfl
  | spent => rfl

-- At the greatest depth a call fails at once.
theorem deeper_of_le {location : Location} {run : Run σ Error α} {machine : Machine σ}
    (h : machine.maxDepth ≤ machine.depth) :
    Run.deeper location run machine = (.failed ⟨.callDepthExceeded, location⟩, machine) :=
  if_pos h

-- Holding a container for a write leaves the machine as it is.
theorem hold_apply (container key : Value) (machine : Machine σ) :
    (hold container key : Run σ ε Unit) machine =
      (if machine.heap.clashes container key then .crashed else .done (), machine) := by
  unfold hold
  split <;> rfl

-- A container that has been held is written.
theorem hold_bind_apply (container key : Value) (next : Unit → Run σ ε α) (machine : Machine σ) :
    (hold container key >>= next) machine =
      if machine.heap.clashes container key then (.crashed, machine) else next () machine := by
  rw [bind_apply, hold_apply]
  by_cases hc : machine.heap.clashes container key
  · rw [if_pos hc, if_pos hc]
  · rw [if_neg hc, if_neg hc]

end Run

end ScriptEngine
