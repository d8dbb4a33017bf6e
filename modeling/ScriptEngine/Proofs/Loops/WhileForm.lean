import ScriptEngine.Proofs.Logging.Log
import ScriptEngine.Proofs.Places.Updates

-- Loops that are written with an initialiser and a step, and the same loops written without. Their
-- parts may keep a log of anything, and both forms come to the same log.

namespace ScriptEngine

variable {A σ ε α β γ : Type}

namespace Logged

theorem bind_assoc (logged : Logged A σ ε α) (next : α → Logged A σ ε β)
    (last : β → Logged A σ ε γ) :
    (logged >>= next) >>= last = logged >>= fun value => next value >>= last := by
  refine congrArg Logged.mk (funext fun machine => ?_)
  change ((logged >>= next) >>= last).run machine =
    (logged >>= fun value => next value >>= last).run machine
  simp only [run_bind]
  rcases logged.run machine with ⟨acts, ending, after⟩
  cases ending with
  | done value =>
    dsimp only
    rcases (next value).run after with ⟨more, ending, last⟩
    cases ending <;> simp
  | _ => rfl

theorem pure_bind (value : α) (next : α → Logged A σ ε β) : pure value >>= next = next value := rfl

-- Computations count as the same on a machine if what follows the value does.
theorem run_bind_congr {logged : Logged A σ ε α} {next other : α → Logged A σ ε β}
    {machine : Machine σ}
    (h : ∀ value after, logged.erase machine = (.done value, after) →
      (next value).run after = (other value).run after) :
    (logged >>= next).run machine = (logged >>= other).run machine := by
  unfold erase at h
  rw [run_bind, run_bind]
  generalize logged.run machine = result at h ⊢
  obtain ⟨acts, ending, after⟩ := result
  cases ending with
  | done value =>
    dsimp only
    rw [h value after rfl]
  | _ => rfl

theorem ext {logged other : Logged A σ ε α} (h : ∀ machine, logged.run machine = other.run machine) :
    logged = other :=
  congrArg Logged.mk (funext h)

-- The log and the faults without their places.
def unlocated (logged : Logged A σ Error α) : Logged A σ Fault α :=
  logged.mapError Error.fault

section Unlocated

theorem unlocated_bind (logged : Logged A σ Error α) (next : α → Logged A σ Error β) :
    (logged >>= next).unlocated = logged.unlocated >>= fun value => (next value).unlocated := by
  refine ext fun machine => ?_
  rw [run_bind, unlocated, unlocated, mapError, mapError]
  dsimp only
  rw [run_bind]
  unfold Run.mapError
  rcases logged.run machine with ⟨acts, ending, after⟩
  cases ending <;> rfl

theorem unlocated_repeatUntil (step : Logged A σ Error (Option α)) (fuel : Nat) :
    (step.repeatUntil fuel).unlocated = step.unlocated.repeatUntil fuel := by
  induction fuel with
  | zero => rfl
  | succ fuel ih =>
    rw [repeatUntil, repeatUntil, unlocated_bind]
    congr 1
    funext value
    cases value with
    | none => exact ih
    | some value => rfl

theorem unlocated_locate (location : Location) (logged : Logged A σ Fault α) :
    (logged.locate location).unlocated = logged := by
  refine ext fun machine => ?_
  unfold unlocated locate mapError Run.mapError
  dsimp only
  rcases logged.run machine with ⟨acts, ending, after⟩
  cases ending <;> rfl

theorem run_unlocated_congr {logged other : Logged A σ Error α} {machine : Machine σ}
    (h : logged.run machine = other.run machine) :
    logged.unlocated.run machine = other.unlocated.run machine := by
  unfold unlocated mapError
  dsimp only
  rw [h]

end Unlocated

end Logged

-- The parts of a loop that tests first, each with a log of its own.
structure LoopParts (A σ : Type) where
  initial : Logged A σ Error Completion
  checkpoint : Logged A σ Fault Unit
  test : Logged A σ Error Bool
  body : Logged A σ Error Completion
  step : Logged A σ Error Unit

namespace LoopParts

open Logged (repeatUntil)

-- A round of the loop, with the place of its checkpoint.
def round (parts : LoopParts A σ) (location : Location) : Logged A σ Error (Option Completion) := do
  parts.checkpoint.locate location
  if ← parts.test then
    match ← parts.body with
    | .returned value => return some (.returned value)
    | .broke => return some .normal
    | .continued | .normal => do
      parts.step
      return none
  else
    return some .normal

-- The parts with the step as the last statement of the body, which only a normal one comes to.
def stepInBody (parts : LoopParts A σ) : LoopParts A σ :=
  { parts with
    body := do
      match ← parts.body with
      | .normal => do
        parts.step
        return .normal
      | completion => return completion
    step := return () }

-- The loop with its initialiser and its step.
def forLoop (parts : LoopParts A σ) (location : Location) (fuel : Nat) :
    Logged A σ Error Completion := do
  let _ ← parts.initial
  repeatUntil (parts.round location) fuel

-- The initialiser as a statement, and then the loop with the step in its body.
def whileLoop (parts : LoopParts A σ) (location : Location) (fuel : Nat) :
    Logged A σ Error Completion := do
  match ← parts.initial with
  | .normal => repeatUntil (parts.stepInBody.round location) fuel
  | completion => return completion

variable {parts : LoopParts A σ} {location other : Location}

-- The step is run in the same rounds if no body ends by a `continue`.
theorem round_stepInBody
    (h : ∀ machine after, parts.body.erase machine ≠ (.done .continued, after)) :
    parts.stepInBody.round location = parts.round location := by
  unfold round stepInBody
  dsimp only
  congr 1
  funext _
  congr 1
  funext enters
  cases enters with
  | false => rfl
  | true =>
    simp only [if_true, Logged.bind_assoc]
    refine Logged.ext fun machine => Logged.run_bind_congr fun completion after hdone => ?_
    cases completion with
    | continued => exact absurd hdone (h machine after)
    | normal =>
      simp only [Logged.bind_assoc, Logged.pure_bind]
    | _ => rfl

theorem unlocated_round :
    (parts.round location).unlocated = (parts.round other).unlocated := by
  have hcheckpoint : (parts.checkpoint.locate location).unlocated =
      (parts.checkpoint.locate other).unlocated := by
    rw [Logged.unlocated_locate, Logged.unlocated_locate]
  unfold round
  rw [Logged.unlocated_bind, hcheckpoint, ← Logged.unlocated_bind]

-- Both forms come to the same log, machine and ending, but for the place of a checkpoint.
theorem run_forLoop_eq
    (hbody : ∀ machine after, parts.body.erase machine ≠ (.done .continued, after))
    {machine : Machine σ} (hinitial : ∀ completion after,
      parts.initial.erase machine = (.done completion, after) → completion = .normal) (fuel : Nat) :
    (parts.forLoop location fuel).unlocated.run machine =
      (parts.whileLoop other fuel).unlocated.run machine := by
  have hwhile : (parts.whileLoop other fuel).run machine =
      (parts.initial >>= fun _ => repeatUntil (parts.round other) fuel).run machine := by
    unfold whileLoop
    rw [round_stepInBody hbody]
    refine Logged.run_bind_congr fun completion after hdone => ?_
    obtain rfl := hinitial completion after hdone
    rfl
  have hround : (repeatUntil (parts.round location) fuel).unlocated =
      (repeatUntil (parts.round other) fuel).unlocated := by
    rw [Logged.unlocated_repeatUntil, Logged.unlocated_repeatUntil, unlocated_round]
  rw [Logged.run_unlocated_congr hwhile]
  unfold forLoop
  rw [Logged.unlocated_bind, Logged.unlocated_bind, hround]

end LoopParts

section Tree

variable {host : Host σ} {below : Below σ} {context : Context} {fuel : Nat}

-- The initialiser and the step of a loop statement as computations.

def Stmt.execInitial (host : Host σ) (below : Below σ) (fuel : Nat) (context : Context) :
    Option Stmt → Run σ Error Completion
  | some initial => initial.exec host below fuel context
  | none => return .normal

def Expr.evalStep (host : Host σ) (below : Below σ) (context : Context) :
    Option Expr → Run σ Error Unit
  | some step => do
    let _ ← step.eval host below context
    return ()
  | none => return ()

theorem Stmt.exec_loop {offset : Nat} {initial : Option Stmt} {test step : Option Expr} {body : Stmt}
    {testLast : Bool} :
    (Stmt.loop offset initial test step body testLast).exec host below fuel context = (do
      let _ ← Stmt.execInitial host below fuel context initial
      Run.repeatUntil
        (Loop.round (Run.locate (context.at offset) (Run.checkpoint host))
          (Expr.holds host below context test) (body.exec host below fuel context)
          (Expr.evalStep host below context step) testLast)
        fuel) := by
  cases initial <;> cases step <;> simp only [Stmt.exec, Stmt.execInitial, Expr.evalStep]

theorem Stmt.execAll_singleton (item : Stmt) :
    Stmt.execAll host below fuel context [item] = item.exec host below fuel context := by
  rw [Stmt.execAll]
  funext machine
  rw [Run.bind_apply]
  rcases item.exec host below fuel context machine with ⟨ending, after⟩
  cases ending with
  | done completion => cases completion <;> rfl
  | _ => rfl

-- The loop with the step in its body, and a missing test written out as `true`.
def Stmt.whileForm (offset place : Nat) (test step : Option Expr) (body : Stmt) : Stmt :=
  .loop offset none (some (test.getD (.literal place (.boolean true)))) none
    (.block place (body :: (step.map Stmt.expression).toList)) false

-- Parts that are those of a loop statement once their logs are left out.
structure LoopParts.Log (parts : LoopParts A σ) (host : Host σ) (below : Below σ) (fuel : Nat)
    (context : Context) (initial : Option Stmt) (test step : Option Expr) (body : Stmt) :
    Prop where
  initial : parts.initial.erase = Stmt.execInitial host below fuel context initial
  checkpoint : parts.checkpoint.erase = Run.checkpoint host
  test : parts.test.erase = Expr.holds host below context test
  body : parts.body.erase = body.exec host below fuel context
  step : parts.step.erase = Expr.evalStep host below context step

namespace LoopParts

variable {parts : LoopParts A σ} {initial : Option Stmt} {test step : Option Expr} {body : Stmt}

theorem erase_round (location : Location) : (parts.round location).erase =
    Loop.round (Run.locate location parts.checkpoint.erase) parts.test.erase parts.body.erase
      parts.step.erase false := by
  unfold round Loop.round
  rw [Logged.erase_bind, Logged.erase_locate]
  congr 1
  funext _
  rw [Logged.erase_bind]
  congr 1
  funext enters
  cases enters with
  | false => rfl
  | true =>
    simp only [if_true, Logged.erase_bind, Bool.not_true, Bool.false_eq_true, if_false]
    congr 1
    funext completion
    cases completion with
    | normal =>
      simp only [Logged.erase_bind, Logged.erase_pure]
      rfl
    | _ => simp

theorem Log.erase_forLoop (h : parts.Log host below fuel context initial test step body)
    (offset : Nat) : (parts.forLoop (context.at offset) fuel).erase =
      (Stmt.loop offset initial test step body false).exec host below fuel context := by
  unfold forLoop
  rw [Stmt.exec_loop, Logged.erase_bind, h.initial]
  simp only [Logged.erase_repeatUntil, erase_round, h.checkpoint, h.test, h.body, h.step]

-- The test and the body of the other form are computations of the parts as well.

theorem holds_getD (place : Nat) : Expr.holds host below context
    (some (test.getD (.literal place (.boolean true)))) = Expr.holds host below context test := by
  cases test with
  | none =>
    rw [Option.getD_none, Expr.holds, Expr.eval]
    rfl
  | some test => rfl

theorem Log.erase_stepInBody (h : parts.Log host below fuel context initial test step body)
    (place : Nat) : parts.stepInBody.body.erase =
      (Stmt.block place (body :: (step.map Stmt.expression).toList)).exec host below fuel context := by
  rw [Stmt.exec, Stmt.execAll]
  unfold stepInBody
  rw [Logged.erase_bind, h.body]
  congr 1
  funext completion
  cases completion with
  | normal =>
    rw [Logged.erase_bind, h.step]
    cases step with
    | none =>
      rw [Option.map_none, Option.toList_none, Stmt.execAll]
      rfl
    | some step =>
      rw [Option.map_some, Option.toList_some, Stmt.execAll_singleton, Stmt.exec, Expr.evalStep,
        Run.bind_assoc]
      rfl
  | _ => rfl

theorem Log.erase_whileLoop (h : parts.Log host below fuel context initial test step body)
    (offset place : Nat) : (parts.whileLoop (context.at offset) fuel).erase =
      Stmt.execAll host below fuel context
        (initial.toList ++ [.whileForm offset place test step body]) := by
  have hloop : (Logged.repeatUntil (parts.stepInBody.round (context.at offset)) fuel).erase =
      (Stmt.whileForm offset place test step body).exec host below fuel context := by
    unfold Stmt.whileForm
    rw [Stmt.exec_loop, Logged.erase_repeatUntil, erase_round, h.erase_stepInBody place, holds_getD,
      ← h.test, ← h.checkpoint]
    rfl
  unfold whileLoop
  rw [Logged.erase_bind, h.initial]
  cases initial with
  | none =>
    rw [Option.toList_none, List.nil_append, Stmt.execAll_singleton, ← hloop]
    rfl
  | some initial =>
    rw [Option.toList_some, List.singleton_append, Stmt.execAll, Stmt.execInitial]
    congr 1
    funext completion
    cases completion with
    | normal => exact hloop.trans (Stmt.execAll_singleton _).symm
    | _ => rfl

end LoopParts

end Tree

-- All values that a computation gives have a property.
def Run.Gives (run : Run σ ε α) (P : α → Prop) : Prop :=
  ∀ machine value after, run machine = (.done value, after) → P value

namespace Run

theorem gives_pure {P : α → Prop} {value : α} (h : P value) : (pure value : Run σ ε α).Gives P := by
  intro machine result after hdone
  obtain ⟨rfl, -⟩ := pure_eq_done.mp hdone
  exact h

theorem gives_bind {P : β → Prop} {run : Run σ ε α} {next : α → Run σ ε β}
    (h : ∀ value, (next value).Gives P) : (run >>= next).Gives P := by
  intro machine result after hdone
  obtain ⟨value, middle, -, hnext⟩ := bind_eq_done.mp hdone
  exact h value middle result after hnext

theorem Gives.bind {P : α → Prop} {Q : β → Prop} {run : Run σ ε α} {next : α → Run σ ε β}
    (hrun : run.Gives P) (h : ∀ value, P value → (next value).Gives Q) :
    (run >>= next).Gives Q := by
  intro machine result after hdone
  obtain ⟨value, middle, hfirst, hnext⟩ := bind_eq_done.mp hdone
  exact h value (hrun machine value middle hfirst) middle result after hnext

theorem gives_repeatUntil {step : Run σ ε (Option α)} {P : α → Prop}
    (h : step.Gives fun value => ∀ result, value = some result → P result) (fuel : Nat) :
    (repeatUntil step fuel).Gives P := by
  induction fuel with
  | zero =>
    intro machine value after hdone
    cases hdone
  | succ fuel ih =>
    rw [Run.repeatUntil_succ]
    refine h.bind fun value hvalue => ?_
    cases value with
    | none => exact ih
    | some result => exact gives_pure (hvalue result rfl)

end Run

-- The completions that leave every loop behind.
def Completion.leavesLoops : Completion → Prop
  | normal | returned _ => True
  | broke | continued => False

theorem Loop.gives_round (checkpoint step : Run σ Error Unit) (test : Run σ Error Bool)
    (body : Run σ Error Completion) (testLast : Bool) :
    (Loop.round checkpoint test body step testLast).Gives fun value =>
      ∀ completion ∈ value, completion.leavesLoops := by
  refine Run.gives_bind fun _ => ?_
  cases testLast
  all_goals
    refine Run.gives_bind fun enters => ?_
    cases enters with
    | false => exact Run.gives_pure (by simp [Completion.leavesLoops])
    | true =>
      refine Run.gives_bind fun ending => ?_
      cases ending with
      | returned _ | broke => exact Run.gives_pure (by simp [Completion.leavesLoops])
      | continued => exact Run.gives_bind fun _ => Run.gives_pure nofun
      | normal =>
        refine Run.gives_bind fun _ => Run.gives_bind fun again => ?_
        cases again with
        | false => exact Run.gives_pure (by simp [Completion.leavesLoops])
        | true => exact Run.gives_pure nofun

section Tree

variable {host : Host σ} {below : Below σ} {context : Context} {fuel : Nat}

theorem Stmt.gives_exec_loop (offset : Nat) (initial : Option Stmt) (test step : Option Expr)
    (body : Stmt) (testLast : Bool) :
    ((Stmt.loop offset initial test step body testLast).exec host below fuel context).Gives
      Completion.leavesLoops := by
  rw [Stmt.exec_loop]
  refine Run.gives_bind fun _ => Run.gives_repeatUntil ?_ fuel
  exact Loop.gives_round _ _ _ _ _

mutual

-- Whether a `continue` stands in a statement outside of the loops in it.
def Stmt.mayContinue : Stmt → Bool
  | .block _ body => Stmt.anyMayContinue body
  | .branch _ _ yes (some no) => yes.mayContinue || no.mayContinue
  | .branch _ _ yes none => yes.mayContinue
  | .continueLoop _ => true
  | _ => false

def Stmt.anyMayContinue : List Stmt → Bool
  | [] => false
  | first :: rest => first.mayContinue || Stmt.anyMayContinue rest

end

mutual

theorem Stmt.gives_exec (item : Stmt) (h : item.mayContinue = false) :
    (item.exec host below fuel context).Gives (· ≠ .continued) := by
  cases item with
  | empty _ => exact Run.gives_pure nofun
  | block _ body =>
    rw [Stmt.exec]
    exact Stmt.gives_execAll body h
  | branch _ test yes no =>
    cases no with
    | none =>
      simp only [Stmt.exec]
      refine Run.gives_bind fun value => ?_
      split
      · exact Stmt.gives_exec yes h
      · exact Run.gives_pure nofun
    | some no =>
      obtain ⟨hyes, hno⟩ := Bool.or_eq_false_iff.mp h
      simp only [Stmt.exec]
      refine Run.gives_bind fun value => ?_
      split
      · exact Stmt.gives_exec yes hyes
      · exact Stmt.gives_exec no hno
  | declare _ name initial =>
    cases initial
    all_goals
      simp only [Stmt.exec]
      exact Run.gives_bind fun _ => Run.gives_bind fun _ => Run.gives_pure nofun
  | loop offset initial test step body testLast =>
    intro machine completion after hdone
    have hleaves := Stmt.gives_exec_loop offset initial test step body testLast machine completion
      after hdone
    rintro rfl
    exact hleaves
  | giveBack _ value =>
    cases value with
    | none => exact Run.gives_pure nofun
    | some value =>
      simp only [Stmt.exec]
      exact Run.gives_bind fun _ => Run.gives_pure nofun
  | breakLoop _ => exact Run.gives_pure nofun
  | continueLoop _ => cases h
  | expression value =>
    rw [Stmt.exec]
    exact Run.gives_bind fun _ => Run.gives_pure nofun

theorem Stmt.gives_execAll (body : List Stmt) (h : Stmt.anyMayContinue body = false) :
    (Stmt.execAll host below fuel context body).Gives (· ≠ .continued) := by
  cases body with
  | nil => exact Run.gives_pure nofun
  | cons first rest =>
    obtain ⟨hfirst, hrest⟩ := Bool.or_eq_false_iff.mp h
    rw [Stmt.execAll]
    refine (Stmt.gives_exec first hfirst).bind fun completion hc => ?_
    cases completion with
    | normal => exact Stmt.gives_execAll rest hrest
    | _ => exact Run.gives_pure hc

end

-- `for (initial; test; step) body` does what `initial` does and then `while (test) { body step }`,
-- unless a body ends by a `continue`, which leaves out the step in the second form only, or the
-- initialiser by a `return`, a `break` or a `continue`. Whatever is logged of their parts, both come to
-- the same log, the same machine and the same ending, but for the place of a checkpoint, and so they run
-- out of the same fuel. No loop of any form ends by a `break` or a `continue`.
theorem LoopParts.forLoop_eq_whileLoop {parts : LoopParts A σ} {initial : Option Stmt}
    {test step : Option Expr} {body : Stmt}
    (h : parts.Log host below fuel context initial test step body)
    (hbody : (body.exec host below fuel context).Gives (· ≠ .continued)) {machine : Machine σ}
    (hinitial : ∀ completion after,
      Stmt.execInitial host below fuel context initial machine = (.done completion, after) →
        completion = .normal) (offset other place : Nat) :
    (parts.forLoop (context.at offset) fuel).erase =
        (Stmt.loop offset initial test step body false).exec host below fuel context ∧
      (parts.whileLoop (context.at other) fuel).erase =
        Stmt.execAll host below fuel context
          (initial.toList ++ [.whileForm other place test step body]) ∧
      (parts.forLoop (context.at offset) fuel).unlocated.run machine =
        (parts.whileLoop (context.at other) fuel).unlocated.run machine ∧
      ∀ (offset : Nat) (initial : Option Stmt) (test step : Option Expr) (body : Stmt)
        (testLast : Bool),
        ((Stmt.loop offset initial test step body testLast).exec host below fuel context).Gives
          Completion.leavesLoops := by
  refine ⟨h.erase_forLoop offset, h.erase_whileLoop other place, run_forLoop_eq ?_ ?_ fuel,
    Stmt.gives_exec_loop⟩
  · intro machine after hdone
    rw [h.body] at hdone
    exact hbody machine _ after hdone rfl
  · intro completion after hdone
    rw [h.initial] at hdone
    exact hinitial completion after hdone

end Tree

-- The log that shows the machine before and after each run of a part. The parts of both forms are the
-- same computations, and so what happens within them is the same if they start from the same machine.

inductive LoopPart where
  | initial | checkpoint | test | body | step
deriving DecidableEq, Repr

structure Passage (σ : Type) where
  part : LoopPart
  before : Machine σ
  after : Machine σ

def Logged.passing (part : LoopPart) (run : Run σ ε α) : Logged (Passage σ) σ ε α :=
  .watch (fun machine => [⟨part, machine, (run machine).2⟩]) run

def LoopParts.passing (host : Host σ) (below : Below σ) (fuel : Nat) (context : Context)
    (initial : Option Stmt) (test step : Option Expr) (body : Stmt) : LoopParts (Passage σ) σ where
  initial := .passing .initial (Stmt.execInitial host below fuel context initial)
  checkpoint := .passing .checkpoint (Run.checkpoint host)
  test := .passing .test (Expr.holds host below context test)
  body := .passing .body (body.exec host below fuel context)
  step := .passing .step (Expr.evalStep host below context step)

theorem LoopParts.log_passing (host : Host σ) (below : Below σ) (fuel : Nat) (context : Context)
    (initial : Option Stmt) (test step : Option Expr) (body : Stmt) :
    (passing host below fuel context initial test step body).Log host below fuel context initial test
      step body :=
  ⟨rfl, rfl, rfl, rfl, rfl⟩

section Sample

-- The parts of `for (i = 0; i < 2; i += 1) a[i] = 7;`.

def countingInitial : Stmt :=
  .expression (.assign 7 (.identifier 5 "i") (Grammar.integer 9 0))

def countingTest : Expr :=
  .binary 14 .less (.identifier 12 "i") (Grammar.integer 16 2)

def countingStep : Expr :=
  .update 21 .add (.identifier 19 "i") (Grammar.integer 24 1) false

def countingBody : Stmt :=
  .expression (.assign 32 (.subscript 28 (.identifier 27 "a") (.identifier 29 "i"))
    (Grammar.integer 34 7))

def countingContext : Context :=
  ⟨"for (i = 0; i < 2; i += 1) a[i] = 7;", .ofRoot ⟨0⟩⟩

def countingParts : LoopParts (Passage Unit) Unit :=
  .passing Host.bare (Below.ofFuel Host.bare 0) 5 countingContext countingInitial countingTest
    countingStep countingBody

-- Two rounds and a last test, in the other form too.
theorem LoopParts.forLoop_eq_whileLoop_counting :
    let start := Machine.shelf 5 [.int 10]
    let logged := (countingParts.whileLoop (countingContext.at 30) 5).unlocated.run start
    logged.1.map Passage.part =
        [.initial, .checkpoint, .test, .body, .step, .checkpoint, .test, .body, .step, .checkpoint,
          .test] ∧
      logged.2 = (.done .normal, { Machine.shelf 2 [.int 7, .int 7] with readings := 3 }) ∧
      (countingParts.whileLoop (countingContext.at 30) 5).erase =
        Stmt.execAll Host.bare (Below.ofFuel Host.bare 0) 5 countingContext
          [countingInitial, .whileForm 30 0 countingTest countingStep countingBody] := by
  have hlog : countingParts.Log Host.bare (Below.ofFuel Host.bare 0) 5 countingContext
      countingInitial countingTest countingStep countingBody := log_passing ..
  have hbody : (countingBody.exec Host.bare (Below.ofFuel Host.bare 0) 5 countingContext).Gives
      (· ≠ .continued) := countingBody.gives_exec rfl
  have hinitial : (countingInitial.exec Host.bare (Below.ofFuel Host.bare 0) 5
      countingContext).Gives (· = .normal) := by
    rw [countingInitial, Stmt.exec]
    exact Run.gives_bind fun _ => Run.gives_pure rfl
  obtain ⟨-, hwhile, hrun, -⟩ :=
    forLoop_eq_whileLoop hlog hbody (hinitial (Machine.shelf 5 [.int 10])) 0 30 0
  dsimp only
  rw [← hrun]
  exact ⟨by decide +kernel, rfl, hwhile⟩

end Sample

end ScriptEngine
