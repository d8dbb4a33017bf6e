import ScriptEngine.Proofs.Runs.Computation

-- Computations that keep a log of acts of any kind. The log is written beside the run, which does not
-- see it.

namespace ScriptEngine

-- A computation on a machine, with the acts in it.
structure Logged (A σ ε α : Type) where
  run : Machine σ → List A × Ending ε α × Machine σ

namespace Logged

variable {A σ ε α β : Type}

def done (value : α) : Logged A σ ε α :=
  ⟨fun machine => ([], .done value, machine)⟩

def andThen (logged : Logged A σ ε α) (next : α → Logged A σ ε β) : Logged A σ ε β :=
  ⟨fun machine =>
    match logged.run machine with
    | (acts, .done value, machine) =>
      (acts ++ ((next value).run machine).1, ((next value).run machine).2)
    | (acts, .failed error, machine) => (acts, .failed error, machine)
    | (acts, .crashed, machine) => (acts, .crashed, machine)
    | (acts, .spent, machine) => (acts, .spent, machine)⟩

instance : Monad (Logged A σ ε) where
  pure := done
  bind := andThen

-- A computation whose acts can be told from the machine that it starts on.
def watch (acts : Machine σ → List A) (run : Run σ ε α) : Logged A σ ε α :=
  ⟨fun machine => (acts machine, run machine)⟩

-- A computation without acts.
def lift (run : Run σ ε α) : Logged A σ ε α :=
  watch (fun _ => []) run

-- A computation that begins with acts.
def noted (acts : List A) (logged : Logged A σ ε α) : Logged A σ ε α :=
  ⟨fun machine => (acts ++ (logged.run machine).1, (logged.run machine).2)⟩

-- A computation that begins with an act.
def noting (act : A) : Logged A σ ε α → Logged A σ ε α :=
  noted [act]

def mapActs (f : A → A) (logged : Logged A σ ε α) : Logged A σ ε α :=
  ⟨fun machine => ((logged.run machine).1.map f, (logged.run machine).2)⟩

def mapError {ε' : Type} (f : ε → ε') (logged : Logged A σ ε α) : Logged A σ ε' α :=
  ⟨fun machine => ((logged.run machine).1, Run.mapError f (fun _ => (logged.run machine).2) machine)⟩

-- Gives the faults of a computation a place.
def locate (location : Location) : Logged A σ Fault α → Logged A σ Error α :=
  mapError fun fault => ⟨fault, location⟩

-- Makes the place of an error part of its message.
def embed : Logged A σ Error α → Logged A σ Fault α :=
  mapError fun error => .nested error.location error.fault

def repeatUntil (step : Logged A σ ε (Option α)) : Nat → Logged A σ ε α
  | 0 => lift Run.spent
  | fuel + 1 => step >>= fun value => value.elim (repeatUntil step fuel) pure

def deeper (location : Location) (logged : Logged A σ Error α) : Logged A σ Error α :=
  ⟨fun machine =>
    if machine.maxDepth ≤ machine.depth then ([], .failed ⟨.callDepthExceeded, location⟩, machine)
    else
      let (acts, ending, machine) := logged.run { machine with depth := machine.depth + 1 }
      (acts, ending, { machine with depth := machine.depth - 1 })⟩

theorem run_bind (logged : Logged A σ ε α) (next : α → Logged A σ ε β) (machine : Machine σ) :
    (logged >>= next).run machine =
      match logged.run machine with
      | (acts, .done value, machine) =>
        (acts ++ ((next value).run machine).1, ((next value).run machine).2)
      | (acts, .failed error, machine) => (acts, .failed error, machine)
      | (acts, .crashed, machine) => (acts, .crashed, machine)
      | (acts, .spent, machine) => (acts, .spent, machine) := rfl

theorem mapActs_id (logged : Logged A σ ε α) : logged.mapActs id = logged := by
  unfold mapActs
  simp only [List.map_id]

theorem noted_bind (acts : List A) (logged : Logged A σ ε α) (next : α → Logged A σ ε β) :
    noted acts logged >>= next = noted acts (logged >>= next) := by
  refine congrArg Logged.mk (funext fun machine => ?_)
  change (noted acts logged >>= next).run machine =
    (acts ++ ((logged >>= next).run machine).1, ((logged >>= next).run machine).2)
  rw [run_bind, run_bind, noted]
  dsimp only
  rcases logged.run machine with ⟨others, ending, after⟩
  cases ending with
  | done value => exact Prod.ext (List.append_assoc ..) rfl
  | failed _ | crashed | spent => rfl

theorem noting_bind (act : A) (logged : Logged A σ ε α) (next : α → Logged A σ ε β) :
    noting act logged >>= next = noting act (logged >>= next) :=
  noted_bind [act] logged next

-- The computation without its log.
def erase (logged : Logged A σ ε α) : Run σ ε α :=
  fun machine => (logged.run machine).2

section Erase

@[simp] theorem erase_pure (value : α) : (pure value : Logged A σ ε α).erase = pure value := rfl

@[simp] theorem erase_bind (logged : Logged A σ ε α) (next : α → Logged A σ ε β) :
    (logged >>= next).erase = logged.erase >>= fun value => (next value).erase := by
  funext machine
  rw [erase, run_bind, Run.bind_apply, erase]
  rcases logged.run machine with ⟨acts, ending, after⟩
  cases ending <;> rfl

@[simp] theorem erase_watch (acts : Machine σ → List A) (run : Run σ ε α) :
    (watch acts run).erase = run := rfl

@[simp] theorem erase_lift (run : Run σ ε α) : (lift run : Logged A σ ε α).erase = run := rfl

@[simp] theorem erase_noted (acts : List A) (logged : Logged A σ ε α) :
    (noted acts logged).erase = logged.erase := rfl

@[simp] theorem erase_mapActs (f : A → A) (logged : Logged A σ ε α) :
    (logged.mapActs f).erase = logged.erase := rfl

@[simp] theorem erase_noting (act : A) (logged : Logged A σ ε α) :
    (noting act logged).erase = logged.erase := rfl

@[simp] theorem erase_locate (location : Location) (logged : Logged A σ Fault α) :
    (logged.locate location).erase = Run.locate location logged.erase := by
  rw [Run.locate_eq_mapError]
  rfl

@[simp] theorem erase_embed (logged : Logged A σ Error α) :
    logged.embed.erase = Run.embed logged.erase := by
  rw [Run.embed_eq_mapError]
  rfl

@[simp] theorem erase_repeatUntil (step : Logged A σ ε (Option α)) (fuel : Nat) :
    (step.repeatUntil fuel).erase = Run.repeatUntil step.erase fuel := by
  induction fuel with
  | zero => rfl
  | succ fuel ih =>
    rw [repeatUntil, erase_bind, Run.repeatUntil_succ]
    congr 1
    funext value
    cases value with
    | none => exact ih
    | some value => rfl

@[simp] theorem erase_deeper (location : Location) (logged : Logged A σ Error α) :
    (logged.deeper location).erase = Run.deeper location logged.erase := by
  funext machine
  unfold erase deeper Run.deeper
  dsimp only
  split <;> rfl

end Erase

end Logged

section Loop

variable {A σ : Type}

-- A test that a loop makes now or not.
def Loop.loggedTest (now : Bool) (test : Logged A σ Error Bool) : Logged A σ Error Bool :=
  if now then test else pure true

-- A round of a loop behind its checkpoint, if the parts keep a log.
def Loop.beyond (test : Logged A σ Error Bool) (body : Logged A σ Error Completion)
    (step : Logged A σ Error Unit) (testLast : Bool) : Logged A σ Error (Option Completion) := do
  let enters ← Loop.loggedTest (!testLast) test
  if !enters then
    return some .normal
  else
    match ← body with
    | .returned value => return some (.returned value)
    | .broke => return some .normal
    | .continued => do
      step
      return none
    | .normal => do
      step
      let again ← Loop.loggedTest testLast test
      return if again then none else some .normal

def Loop.logged (checkpoint : Run σ Error Unit) (test : Logged A σ Error Bool)
    (body : Logged A σ Error Completion) (step : Logged A σ Error Unit) (testLast : Bool) :
    Logged A σ Error (Option Completion) := do
  Logged.lift checkpoint
  Loop.beyond test body step testLast

theorem Loop.erase_beyond (checkpoint : Run σ Error Unit) {test : Logged A σ Error Bool}
    {body : Logged A σ Error Completion} {step : Logged A σ Error Unit} {testLast : Bool} :
    (checkpoint >>= fun _ => (Loop.beyond test body step testLast).erase) =
      Loop.round checkpoint test.erase body.erase step.erase testLast := by
  unfold Loop.beyond Loop.round
  congr 1
  funext _
  cases testLast
  all_goals
    simp only [Logged.erase_bind, Loop.loggedTest, Bool.not_true, Bool.not_false, if_true, if_false,
      Bool.false_eq_true, Logged.erase_pure]
    congr 1
    funext enters
    cases enters with
    | false => rfl
    | true =>
      simp only [Bool.not_true, Bool.false_eq_true, if_false, Logged.erase_bind]
      congr 1
      funext completion
      cases completion <;> simp

theorem Loop.erase_logged {checkpoint : Run σ Error Unit} {test : Logged A σ Error Bool}
    {body : Logged A σ Error Completion} {step : Logged A σ Error Unit} {testLast : Bool} :
    (Loop.logged checkpoint test body step testLast).erase =
      Loop.round checkpoint test.erase body.erase step.erase testLast := by
  rw [← Loop.erase_beyond, Loop.logged, Logged.erase_bind, Logged.erase_lift]

end Loop

end ScriptEngine
