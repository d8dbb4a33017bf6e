import ScriptEngine.Proofs.Likeness.Idle

-- Runs without a clock. A run that no deadline ends does what it does on a machine without one, in
-- the same places, and so two runs that start apart only in their time do the same.

namespace ScriptEngine

variable {σ ε α β : Type}

-- The machine with no deadline and after the given number of readings.
def Machine.untimed (readings : Nat) (machine : Machine σ) : Machine σ :=
  { machine with deadline := .never, readings }

-- What a function of the embedding program leaves without the time.
def Host.untimedStep (step : Machine σ → Except Fault α × Machine σ) (machine : Machine σ) :
    Except Fault α × Machine σ :=
  ((step machine).1, (step machine).2.untimed 0)

-- The embedding program with a clock that stands still.
def Host.untimed (host : Host σ) : Host σ where
  clock _ := 0
  stops _ := false
  call handler receiver arguments := untimedStep (host.call handler receiver arguments)
  construct handler name arguments := untimedStep (host.construct handler name arguments)
  sameValue := host.sameValue
  hasMethod := host.hasMethod
  invoke handler className primitive name arguments :=
    untimedStep (host.invoke handler className primitive name arguments)

-- The functions of the embedding program do not look at the time.
structure Host.Timeless (host : Host σ) : Prop where
  call (handler : Handler) (receiver : Value) (arguments : List Value) (machine : Machine σ)
    (readings : Nat) :
    untimedStep (host.call handler receiver arguments) (machine.untimed readings) =
      untimedStep (host.call handler receiver arguments) machine
  construct (handler : Handler) (name : String) (arguments : List Value) (machine : Machine σ)
    (readings : Nat) :
    untimedStep (host.construct handler name arguments) (machine.untimed readings) =
      untimedStep (host.construct handler name arguments) machine
  invoke (handler : Handler) (className : String) (primitive : Value) (name : String)
    (arguments : List Value) (machine : Machine σ) (readings : Nat) :
    untimedStep (host.invoke handler className primitive name arguments) (machine.untimed readings) =
      untimedStep (host.invoke handler className primitive name arguments) machine

-- Unless a deadline ends the first run, the second comes from the machine without a deadline to the
-- same ending and to the same machine but for the time.
def Run.Lasts [Placed ε] (run untimed : Run σ ε α) : Prop :=
  ∀ machine readings, (run machine).1.halts ∨
    ∃ later, untimed (machine.untimed readings) = ((run machine).1, (run machine).2.untimed later)

namespace Run

section Lasts

variable [Placed ε]

theorem lasts_pure (value : α) : (pure value : Run σ ε α).Lasts (pure value) :=
  fun _ readings => .inr ⟨readings, rfl⟩

theorem lasts_spent : (spent : Run σ ε α).Lasts spent :=
  fun _ readings => .inr ⟨readings, rfl⟩

theorem lasts_fail (error : ε) : (fail error : Run σ ε α).Lasts (fail error) :=
  fun _ readings => .inr ⟨readings, rfl⟩

theorem lasts_getHeap : (getHeap : Run σ ε Heap).Lasts getHeap :=
  fun _ readings => .inr ⟨readings, rfl⟩

theorem lasts_ofExcept (result : Except ε α) :
    (ofExcept result : Run σ ε α).Lasts (ofExcept result) := by
  cases result with
  | ok value => exact lasts_pure value
  | error error => exact lasts_fail error

theorem lasts_onHeap (operation : Heap → α × Heap) :
    (onHeap operation : Run σ ε α).Lasts (onHeap operation) :=
  fun _ readings => .inr ⟨readings, rfl⟩

theorem lasts_modifyHeap (change : Heap → Heap) :
    (modifyHeap change : Run σ ε Unit).Lasts (modifyHeap change) :=
  fun _ readings => .inr ⟨readings, rfl⟩

theorem lasts_hold (container key : Value) :
    (hold container key : Run σ ε Unit).Lasts (hold container key) := by
  intro machine readings
  refine .inr ⟨readings, ?_⟩
  rw [hold_apply, hold_apply]
  rfl

theorem Lasts.bind {run untimed : Run σ ε α} {next next' : α → Run σ ε β} (h : run.Lasts untimed)
    (hn : ∀ value, (next value).Lasts (next' value)) : (run >>= next).Lasts (untimed >>= next') := by
  intro machine readings
  have hrun := h machine readings
  rw [Run.bind_apply, Run.bind_apply]
  generalize run machine = result at hrun ⊢
  obtain ⟨ending, after⟩ := result
  obtain hhalt | ⟨later, heq⟩ := hrun
  · cases ending with
    | failed error => exact .inl hhalt
    | _ => cases hhalt
  · rw [heq]
    cases ending with
    | done value => exact hn value after later
    | failed _ | crashed | spent => exact .inr ⟨later, rfl⟩

-- What is read off a machine may not be its time.
theorem lasts_get_bind {next : Machine σ → Run σ ε β}
    {next' : Machine σ → Run σ ε β}
    (hn : ∀ machine readings, (next machine).Lasts (next' (machine.untimed readings))) :
    ((get : Run σ ε (Machine σ)) >>= next).Lasts (get >>= next') :=
  fun machine readings => hn machine readings machine readings

theorem Lasts.repeatUntil {step untimed : Run σ ε (Option α)} (h : step.Lasts untimed)
    (fuel : Nat) : (Run.repeatUntil step fuel).Lasts (Run.repeatUntil untimed fuel) := by
  induction fuel with
  | zero => exact lasts_spent
  | succ fuel ih =>
    rw [Run.repeatUntil_succ, Run.repeatUntil_succ]
    refine h.bind fun value => ?_
    cases value with
    | none => exact ih
    | some value => exact lasts_pure value

end Lasts

theorem Lasts.mapError {ε' : Type} [Placed ε] [Placed ε'] {run untimed : Run σ ε α}
    {change : ε → ε'} (h : run.Lasts untimed)
    (hhalts : ∀ error, Placed.halts (change error) = Placed.halts error) :
    (Run.mapError change run).Lasts (Run.mapError change untimed) := by
  intro machine readings
  have hrun := h machine readings
  unfold Run.mapError
  generalize run machine = result at hrun ⊢
  obtain ⟨ending, after⟩ := result
  obtain hhalt | ⟨later, heq⟩ := hrun
  · cases ending with
    | failed error => exact .inl ((hhalts error).trans hhalt)
    | _ => cases hhalt
  · rw [heq]
    cases ending <;> exact .inr ⟨later, rfl⟩

theorem Lasts.locate {run untimed : Run σ Fault α} (location : Location) (h : run.Lasts untimed) :
    (Run.locate location run).Lasts (Run.locate location untimed) := by
  rw [Run.locate_eq_mapError, Run.locate_eq_mapError]
  exact h.mapError fun _ => rfl

theorem Lasts.embed {run untimed : Run σ Error α} (h : run.Lasts untimed) :
    (Run.embed run).Lasts (Run.embed untimed) := by
  rw [Run.embed_eq_mapError, Run.embed_eq_mapError]
  exact h.mapError fun _ => rfl

theorem lasts_changeHeap (change : Heap → Except Fault Heap) :
    (changeHeap change : Run σ Fault Unit).Lasts (changeHeap change) := by
  intro machine readings
  refine .inr ⟨readings, ?_⟩
  unfold changeHeap
  dsimp only [Machine.untimed]
  cases change machine.heap <;> rfl

theorem Lasts.deeper {run untimed : Run σ Error α} (location : Location) (h : run.Lasts untimed) :
    (Run.deeper location run).Lasts (Run.deeper location untimed) := by
  intro machine readings
  by_cases hle : machine.maxDepth ≤ machine.depth
  · have huntimed : (machine.untimed readings).maxDepth ≤ (machine.untimed readings).depth := hle
    rw [Run.deeper_of_le hle, Run.deeper_of_le huntimed]
    exact .inr ⟨readings, rfl⟩
  · have huntimed : ¬ (machine.untimed readings).maxDepth ≤ (machine.untimed readings).depth := hle
    unfold Run.deeper
    rw [if_neg hle, if_neg huntimed]
    obtain hhalt | ⟨later, heq⟩ := h { machine with depth := machine.depth + 1 } readings
    · exact .inl hhalt
    · refine .inr ⟨later, ?_⟩
      change untimed { machine.untimed readings with depth := (machine.untimed readings).depth + 1 } =
        _ at heq
      rw [heq]
      rfl

-- A function of the embedding program.
theorem lasts_ofStep {step : Machine σ → Except Fault α × Machine σ}
    (h : ∀ machine readings, Host.untimedStep step (machine.untimed readings) =
      Host.untimedStep step machine) :
    (ofStep step).Lasts (ofStep (Host.untimedStep step)) := by
  intro machine readings
  refine .inr ⟨0, ?_⟩
  unfold ofStep
  rw [h]
  unfold Host.untimedStep
  rcases step machine with ⟨_ | _, after⟩ <;> rfl

-- A checkpoint that lets the run go on.
theorem lasts_checkpoint (host : Host σ) : (checkpoint host).Lasts (checkpoint host.untimed) := by
  intro machine readings
  have huntimed : checkpoint host.untimed (machine.untimed readings) =
      (.done (), machine.untimed (readings + 1)) := rfl
  have hhear (later : Nat) : (machine.hear host).tick.untimed later = machine.untimed later := by
    unfold Machine.hear
    split <;> rfl
  rw [huntimed]
  unfold checkpoint Deadline.check
  dsimp only
  by_cases hstopped : (machine.hear host).deadline = .stopped
  · rw [if_pos hstopped]
    exact .inl rfl
  · rw [if_neg hstopped]
    split
    · next hlate =>
      split at hlate
      · cases hlate
      · refine .inr ⟨readings + 1, ?_⟩
        dsimp only
        rw [hhear]
    · next fault hlate =>
      split at hlate
      · cases hlate
        exact .inl rfl
      · cases hlate

end Run

end ScriptEngine
