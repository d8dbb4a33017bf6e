import ScriptEngine.Proofs.Likeness.Unplaced
import ScriptEngine.Proofs.Pairing.Invariant

-- An idle machine: it has no places, and its clock stands still. A run that no deadline ends does on
-- an idle machine what it does on any other, up to places and readings of the clock; so two runs that
-- are the same on idle machines leave the same behind.

namespace ScriptEngine

variable {σ ε α β γ δ : Type}

-- Faults and errors: what they are without their places, and whether a deadline is behind them.
class Placed (ε : Type) where
  unplaced : ε → ε
  halts : ε → Bool

-- Stopped from outside or out of time, here or in an inner script.
def Fault.halts : Fault → Bool
  | interrupted | timedOut => true
  | nested _ fault => fault.halts
  | _ => false

instance : Placed Fault := ⟨Fault.unplaced, Fault.halts⟩

instance : Placed Error := ⟨Error.unplaced, fun error => error.fault.halts⟩

namespace Ending

-- A deadline has ended the run.
def halts [Placed ε] : Ending ε α → Bool
  | failed error => Placed.halts error
  | done _ | crashed | spent => false

-- The ending without places, of a run whose values are seen in another way.
def view [Placed ε] (f : α → β) : Ending ε α → Ending ε β
  | done value => done (f value)
  | failed error => failed (Placed.unplaced error)
  | crashed => crashed
  | spent => spent

end Ending

-- The machine without places, with no deadline and after the given number of readings.
def Machine.idle (readings : Nat) (machine : Machine σ) : Machine σ :=
  { machine with heap := machine.heap.unplaced, deadline := .never, readings }

-- What a function of the embedding program leaves on an idle machine.
def Host.idleStep (f : α → α) (step : Machine σ → Except Fault α × Machine σ) (machine : Machine σ) :
    Except Fault α × Machine σ :=
  let (result, after) := step machine
  (match result with
    | .ok value => .ok (f value)
    | .error fault => .error fault.unplaced, after.idle 0)

theorem Host.idleStep_congr {α : Type} {f : α → α} {machine other : Machine σ}
    (step : Machine σ → Except Fault α × Machine σ)
    (h : (step machine).1 = (step other).1 ∧
      (step machine).2.idle 0 = (step other).2.idle 0) :
    Host.idleStep f step machine = Host.idleStep f step other := by
  unfold Host.idleStep
  dsimp only
  rw [h.1, h.2]

-- The embedding program with a clock that stands still.
def Host.idle (host : Host σ) : Host σ where
  clock _ := 0
  stops _ := false
  call handler receiver arguments := idleStep id (host.call handler receiver arguments)
  construct handler name arguments :=
    idleStep Object.unplaced (host.construct handler name arguments)
  sameValue := host.sameValue
  hasMethod := host.hasMethod
  invoke handler className primitive name arguments :=
    idleStep id (host.invoke handler className primitive name arguments)

-- The functions of the embedding program look neither at places nor at the clock: what they do is
-- the same on an idle machine.
structure Host.Indifferent (host : Host σ) : Prop where
  call (handler : Handler) (receiver : Value) (arguments : List Value) (machine : Machine σ)
    (readings : Nat) :
    idleStep id (host.call handler receiver arguments) (machine.idle readings) =
      idleStep id (host.call handler receiver arguments) machine
  construct (handler : Handler) (name : String) (arguments : List Value) (machine : Machine σ)
    (readings : Nat) :
    idleStep Object.unplaced (host.construct handler name arguments) (machine.idle readings) =
      idleStep Object.unplaced (host.construct handler name arguments) machine
  sameValue (handler : Handler) (primitive : Value) (heap : Heap) (other : Value) :
    host.sameValue handler primitive heap.unplaced other =
      host.sameValue handler primitive heap other
  invoke (handler : Handler) (className : String) (primitive : Value) (name : String)
    (arguments : List Value) (machine : Machine σ) (readings : Nat) :
    idleStep id (host.invoke handler className primitive name arguments) (machine.idle readings) =
      idleStep id (host.invoke handler className primitive name arguments) machine

-- Unless a deadline ends the first run, the second comes from an idle machine to the same ending,
-- and leaves the machine idle that the first leaves.
def Run.Follows [Placed ε] (f : α → β) (run : Run σ ε α) (idle : Run σ ε β) : Prop :=
  ∀ machine readings, (run machine).1.halts ∨
    ∃ later, idle (machine.idle readings) = ((run machine).1.view f, (run machine).2.idle later)

namespace Run

section Follows

variable [Placed ε]

theorem follows_pure (f : α → β) (value : α) :
    (pure value : Run σ ε α).Follows f (pure (f value)) :=
  fun _ readings => .inr ⟨readings, rfl⟩

theorem follows_spent (f : α → β) : (spent : Run σ ε α).Follows f spent :=
  fun _ readings => .inr ⟨readings, rfl⟩

theorem follows_fail (f : α → β) {error error' : ε} (h : error' = Placed.unplaced error) :
    (fail error : Run σ ε α).Follows f (fail error') := by
  rintro machine readings
  subst h
  exact .inr ⟨readings, rfl⟩

theorem follows_getHeap : (getHeap : Run σ ε Heap).Follows Heap.unplaced getHeap :=
  fun _ readings => .inr ⟨readings, rfl⟩

theorem Follows.bind {f : α → β} {g : γ → δ} {run : Run σ ε α} {idle : Run σ ε β}
    {next : α → Run σ ε γ} {next' : β → Run σ ε δ} (h : run.Follows f idle)
    (hn : ∀ value, (next value).Follows g (next' (f value))) :
    (run >>= next).Follows g (idle >>= next') := by
  intro machine readings
  have hrun := h machine readings
  rw [Run.bind_apply, Run.bind_apply]
  generalize run machine = result at hrun ⊢
  obtain ⟨ending, after⟩ := result
  obtain hhalt | ⟨later, heq⟩ := hrun
  · cases ending with
    | failed error => exact .inl hhalt
    | _ => cases hhalt
  · rw [heq]
    cases ending with
    | done value => exact hn value after later
    | failed _ | crashed | spent => exact .inr ⟨later, rfl⟩

theorem Follows.get_bind {g : γ → δ} {next : Machine σ → Run σ ε γ}
    {next' : Machine σ → Run σ ε δ}
    (hn : ∀ machine readings, (next machine).Follows g (next' (machine.idle readings))) :
    ((get : Run σ ε (Machine σ)) >>= next).Follows g (get >>= next') :=
  fun machine readings => hn machine readings machine readings

theorem follows_onHeap {f : α → β} {operation : Heap → α × Heap} {operation' : Heap → β × Heap}
    (h : ∀ heap : Heap, operation' heap.unplaced =
      (f (operation heap).1, (operation heap).2.unplaced)) :
    (onHeap operation : Run σ ε α).Follows f (onHeap operation') := by
  intro machine readings
  refine .inr ⟨readings, ?_⟩
  have hheap := h machine.heap
  unfold onHeap
  dsimp only [Machine.idle]
  rw [hheap]
  rfl

theorem follows_modifyHeap {change : Heap → Heap}
    (h : ∀ heap : Heap, (change heap).unplaced = change heap.unplaced) :
    (modifyHeap change : Run σ ε Unit).Follows id (modifyHeap change) := by
  intro machine readings
  refine .inr ⟨readings, ?_⟩
  unfold modifyHeap
  dsimp only [Machine.idle]
  rw [h]
  rfl

theorem follows_hold (container key : Value) :
    (hold container key : Run σ ε Unit).Follows id (hold container key) := by
  intro machine readings
  have hclashes : (machine.idle readings).heap.clashes container key =
      machine.heap.clashes container key := machine.heap.clashes_unplaced container key
  refine .inr ⟨readings, ?_⟩
  rw [hold_apply, hold_apply, hclashes]
  split <;> rfl

theorem follows_ofExcept {result : Except ε α}
    (h : ∀ error, result = .error error → Placed.unplaced error = error) :
    (ofExcept result : Run σ ε α).Follows id (ofExcept result) := by
  cases result with
  | ok value => exact follows_pure id value
  | error error => exact follows_fail id (h error rfl).symm

theorem Follows.repeatUntil {step idle : Run σ ε (Option α)} (h : step.Follows id idle)
    (fuel : Nat) : (Run.repeatUntil step fuel).Follows id (Run.repeatUntil idle fuel) := by
  induction fuel with
  | zero => exact follows_spent id
  | succ fuel ih =>
    rw [Run.repeatUntil_succ, Run.repeatUntil_succ]
    refine h.bind fun value => ?_
    cases value with
    | none => exact ih
    | some value => exact follows_pure id value

end Follows

-- A failure keeps what it is when it is passed on in another form.
theorem Follows.mapError {ε' : Type} [Placed ε] [Placed ε'] {f : α → β} {run : Run σ ε α}
    {idle : Run σ ε β} {change change' : ε → ε'} (h : run.Follows f idle)
    (hhalts : ∀ error, Placed.halts (change error) = Placed.halts error)
    (hplace : ∀ error, change' (Placed.unplaced error) = Placed.unplaced (change error)) :
    (Run.mapError change run).Follows f (Run.mapError change' idle) := by
  intro machine readings
  have hrun := h machine readings
  unfold Run.mapError
  generalize run machine = result at hrun ⊢
  obtain ⟨ending, after⟩ := result
  obtain hhalt | ⟨later, heq⟩ := hrun
  · cases ending with
    | failed error => exact .inl ((hhalts error).trans hhalt)
    | _ => cases hhalt
  · rw [heq]
    cases ending with
    | failed error =>
      refine .inr ⟨later, ?_⟩
      change (Ending.failed (change' (Placed.unplaced error)), _) =
        (Ending.failed (Placed.unplaced (change error)), _)
      rw [hplace]
    | _ => exact .inr ⟨later, rfl⟩

theorem Follows.locate {f : α → β} {run : Run σ Fault α} {idle : Run σ Fault β}
    (location : Location) (h : run.Follows f idle) :
    (Run.locate location run).Follows f (Run.locate .nowhere idle) := by
  rw [Run.locate_eq_mapError, Run.locate_eq_mapError]
  exact h.mapError (fun _ => rfl) fun _ => rfl

theorem Follows.embed {f : α → β} {run : Run σ Error α} {idle : Run σ Error β}
    (h : run.Follows f idle) : (Run.embed run).Follows f (Run.embed idle) := by
  rw [Run.embed_eq_mapError, Run.embed_eq_mapError]
  exact h.mapError (fun _ => rfl) fun _ => rfl

theorem follows_changeHeap {change : Heap → Except Fault Heap}
    (h : ∀ heap : Heap, change heap.unplaced = (change heap).map Heap.unplaced)
    (hfault : ∀ heap fault, change heap = .error fault → fault.unplaced = fault) :
    (changeHeap change : Run σ Fault Unit).Follows id (changeHeap change) := by
  intro machine readings
  refine .inr ⟨readings, ?_⟩
  have hchange := h machine.heap
  have hplace := hfault machine.heap
  unfold changeHeap
  dsimp only [Machine.idle]
  rw [hchange]
  cases hc : change machine.heap with
  | ok heap => rfl
  | error fault =>
    change (Ending.failed fault, _) = (Ending.failed fault.unplaced, _)
    rw [hplace fault hc]

theorem Follows.deeper {f : α → β} {run : Run σ Error α} {idle : Run σ Error β}
    (location : Location) (h : run.Follows f idle) :
    (Run.deeper location run).Follows f (Run.deeper .nowhere idle) := by
  intro machine readings
  by_cases hle : machine.maxDepth ≤ machine.depth
  · have hidle : (machine.idle readings).maxDepth ≤ (machine.idle readings).depth := hle
    rw [Run.deeper_of_le hle, Run.deeper_of_le hidle]
    exact .inr ⟨readings, rfl⟩
  · have hidle : ¬ (machine.idle readings).maxDepth ≤ (machine.idle readings).depth := hle
    unfold Run.deeper
    rw [if_neg hle, if_neg hidle]
    obtain hhalt | ⟨later, heq⟩ := h { machine with depth := machine.depth + 1 } readings
    · exact .inl hhalt
    · refine .inr ⟨later, ?_⟩
      change idle { machine.idle readings with depth := (machine.idle readings).depth + 1 } = _
        at heq
      rw [heq]
      rfl

-- A function of the embedding program.
theorem follows_ofStep {f : α → α} {step : Machine σ → Except Fault α × Machine σ}
    (h : ∀ machine readings, Host.idleStep f step (machine.idle readings) =
      Host.idleStep f step machine) :
    (ofStep step).Follows f (ofStep (Host.idleStep f step)) := by
  intro machine readings
  refine .inr ⟨0, ?_⟩
  unfold ofStep
  rw [h]
  unfold Host.idleStep
  rcases step machine with ⟨_ | _, after⟩ <;> rfl

-- A checkpoint that lets the run go on.
theorem follows_checkpoint (host : Host σ) :
    (checkpoint host).Follows id (checkpoint host.idle) := by
  intro machine readings
  have hidle : checkpoint host.idle (machine.idle readings) =
      (.done (), machine.idle (readings + 1)) := rfl
  have hhear (later : Nat) : (machine.hear host).tick.idle later = machine.idle later := by
    unfold Machine.hear
    split <;> rfl
  rw [hidle]
  unfold checkpoint Deadline.check
  dsimp only
  by_cases hstopped : (machine.hear host).deadline = .stopped
  · rw [if_pos hstopped]
    exact .inl rfl
  · rw [if_neg hstopped]
    split
    · next hlate =>
      split at hlate
      · cases hlate
      · refine .inr ⟨readings + 1, ?_⟩
        dsimp only
        rw [hhear]
        rfl
    · next fault hlate =>
      split at hlate
      · cases hlate
        exact .inl rfl
      · cases hlate

end Run

end ScriptEngine
