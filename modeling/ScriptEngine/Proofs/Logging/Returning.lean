import Mathlib.Data.List.Chain
import ScriptEngine.Engine
import ScriptEngine.Proofs.Logging.Statements

-- A `return` ends what it stands in. Outside of all loop initialisers that is the invocation, with
-- the value of the `return`; in a loop initialiser it is the initialiser, and the loop goes on.

namespace ScriptEngine

variable {σ ε α β : Type}

namespace Act

-- What comes next after a return lies outside of its loop initialiser.
def Before (act next : Act) : Prop :=
  act.deed.returned?.isSome → next.initials < act.initials

-- The acts of a walk in a number of loop initialisers that gives back a value, if it ends with a
-- return of its own.
structure Orderly (initials : Nat) (acts : List Act) (given : Option Value) : Prop where
  first : ∀ act ∈ acts.head?, act.initials = initials
  within : ∀ act ∈ acts, initials ≤ act.initials
  steps : acts.IsChain Before
  last (value : Value) : acts.getLast? = some ⟨.returned value, initials⟩ → given = some value

variable {initials : Nat} {acts more : List Act} {given : Option Value}

theorem orderly_nil : Orderly initials [] given := by
  refine ⟨?_, ?_, .nil, ?_⟩
  all_goals rintro _ ⟨⟩

theorem orderly_singleton {deed : Deed} (h : ∀ value, deed = .returned value → given = some value) :
    Orderly initials [⟨deed, initials⟩] given := by
  refine ⟨?_, ?_, .singleton _, ?_⟩
  · rintro act ⟨⟩
    rfl
  · intro act hm
    rw [List.mem_singleton.mp hm]
  · rintro value ⟨⟩
    exact h value rfl

-- Without a value given back a walk goes on.
theorem Orderly.append (h : Orderly initials acts none) (hm : Orderly initials more given) :
    Orderly initials (acts ++ more) given := by
  have hlast : ∀ act ∈ acts.getLast?, act.deed.returned?.isSome → initials < act.initials := by
    rintro ⟨deed, level⟩ hl hr
    refine Nat.lt_of_le_of_ne (h.within _ (List.mem_of_getLast? hl)) ?_
    rintro rfl
    cases deed with
    | returned value => cases h.last value hl
    | _ => cases hr
  refine ⟨fun act ha => ?_, fun act ha => ?_, ?_, fun value hv => ?_⟩
  · cases acts with
    | nil => exact hm.first act ha
    | cons first rest => exact h.first act ha
  · exact (List.mem_append.mp ha).elim (h.within act) (hm.within act)
  · refine List.isChain_append.mpr ⟨h.steps, hm.steps, fun act ha next hn hr => ?_⟩
    rw [hm.first next hn]
    exact hlast act ha hr
  · cases more with
    | nil =>
      rw [List.append_nil] at hv
      cases h.last value hv
    | cons first rest =>
      rw [List.getLast?_append_of_ne_nil _ (List.cons_ne_nil first rest)] at hv
      exact hm.last value hv

-- A loop initialiser behind the beginning of its loop gives nothing back to the loop.
theorem Orderly.initialiser (h : Orderly (initials + 1) acts given) (offset : Nat) :
    Orderly initials (⟨.statement offset, initials⟩ :: acts) none := by
  refine ⟨?_, fun act ha => ?_, ?_, fun value hv => ?_⟩
  · rintro act ⟨⟩
    rfl
  · obtain rfl | ha := List.mem_cons.mp ha
    · exact Nat.le_refl _
    · exact Nat.le_of_succ_le (h.within act ha)
  · refine List.isChain_cons.mpr ⟨?_, h.steps⟩
    rintro next _ ⟨⟩
  · cases acts with
    | nil => cases hv
    | cons first rest =>
      rw [List.getLast?_cons_cons] at hv
      exact absurd (h.within _ (List.mem_of_getLast? hv)) (Nat.not_succ_le_self initials)

-- What an orderly walk outside of all initialisers does behind a return.
theorem Orderly.settles (h : Orderly 0 acts given) {before after : List Act} {value : Value}
    (hs : acts = before ++ ⟨.returned value, initials⟩ :: after) :
    (∀ next ∈ after.head?, next.initials < initials) ∧
    (initials = 0 → after = [] ∧ given = some value) := by
  subst hs
  have hsteps := (List.isChain_append.mp h.steps).2.1
  have hnext : ∀ next ∈ after.head?, next.initials < initials :=
    fun next hn => (List.isChain_cons.mp hsteps).1 next hn rfl
  refine ⟨hnext, ?_⟩
  rintro rfl
  cases after with
  | nil => exact ⟨rfl, h.last value List.getLast?_concat⟩
  | cons next rest => exact absurd (hnext next rfl) (Nat.not_lt_zero _)

end Act

-- The value that an ending gives back.
def Ending.given (gives : α → Option Value) : Ending ε α → Option Value
  | .done value => gives value
  | _ => none

def Completion.given : Completion → Option Value
  | returned value => some value
  | _ => none

namespace Logged

-- Whatever machine it starts on.
def Orderly (initials : Nat) (gives : α → Option Value) (logged : Logged Act σ ε α) : Prop :=
  ∀ machine, Act.Orderly initials (logged.run machine).1 ((logged.run machine).2.1.given gives)

variable {initials : Nat} {gives : α → Option Value} {gives' : β → Option Value}

theorem orderly_lift (run : Run σ ε α) : (lift run).Orderly initials gives :=
  fun _ => Act.orderly_nil

theorem orderly_pure (value : α) : (pure value : Logged Act σ ε α).Orderly initials gives :=
  fun _ => Act.orderly_nil

-- A beginning before a walk.
theorem Orderly.noting {logged : Logged Act σ ε α} (h : logged.Orderly initials gives)
    {deed : Deed} (hd : deed.returned? = none) :
    (noting ⟨deed, initials⟩ logged).Orderly initials gives := by
  intro machine
  have hfirst : Act.Orderly initials [⟨deed, initials⟩] none := by
    refine Act.orderly_singleton fun value hv => ?_
    rw [hv] at hd
    cases hd
  exact hfirst.append (h machine)

-- One walk after another. Behind a value that is given back nothing more is done.
theorem Orderly.bind {logged : Logged Act σ ε α} {next : α → Logged Act σ ε β}
    (h : logged.Orderly initials gives)
    (hn : ∀ value, gives value = none → (next value).Orderly initials gives')
    (hr : ∀ value given, gives value = some given →
      ∃ result, next value = pure result ∧ gives' result = some given) :
    (logged >>= next).Orderly initials gives' := by
  intro machine
  have hacts := h machine
  rw [run_bind]
  rcases hl : logged.run machine with ⟨acts, ending, after⟩
  rw [hl] at hacts
  cases ending with
  | done value =>
    cases hg : gives value with
    | none =>
      dsimp only [Ending.given] at hacts
      rw [hg] at hacts
      exact hacts.append (hn value hg after)
    | some given =>
      obtain ⟨result, hnext, hresult⟩ := hr value given hg
      dsimp only [Ending.given] at hacts ⊢
      rw [hnext]
      change Act.Orderly initials (acts ++ []) (gives' result)
      rw [List.append_nil, hresult, ← hg]
      exact hacts
  | failed _ | crashed | spent => exact hacts

-- One walk after another that gives nothing back.
theorem Orderly.andThen {logged : Logged Act σ ε α} {next : α → Logged Act σ ε β}
    (h : logged.Orderly initials fun _ => none)
    (hn : ∀ value, (next value).Orderly initials gives') :
    (logged >>= next).Orderly initials gives' :=
  h.bind (fun value _ => hn value) fun value given hg => by cases hg

-- A loop initialiser behind the beginning of its loop.
theorem Orderly.initialiser {initial : Logged Act σ ε α}
    (h : initial.Orderly (initials + 1) gives) (offset : Nat) :
    (Logged.noting ⟨.statement offset, initials⟩ initial).Orderly initials
      (fun _ => none) := by
  intro machine
  have hnone (ending : Ending ε α) : ending.given (fun _ => none) = none := by
    cases ending <;> rfl
  rw [hnone]
  exact (h machine).initialiser offset

theorem Orderly.repeatUntil {step : Logged Act σ ε (Option α)}
    (h : step.Orderly initials fun value => value.bind gives) (fuel : Nat) :
    (step.repeatUntil fuel).Orderly initials gives := by
  induction fuel with
  | zero => exact orderly_lift _
  | succ fuel ih =>
    refine h.bind (fun value _ => ?_) fun value given hg => ?_
    · cases value with
      | none => exact ih
      | some value => exact orderly_pure value
    · cases value with
      | none => cases hg
      | some value => exact ⟨value, rfl, hg⟩

end Logged

section Walk

open Logged

variable {host : Host σ} {below : Below σ} {context : Context}

theorem Expr.orderly_logged (initials : Nat) (value : Expr) :
    (value.logged host below context initials).Orderly initials fun _ => none :=
  (orderly_lift _).noting rfl

theorem Expr.orderly_loggedHolds (initials : Nat) (test : Option Expr) :
    (Expr.loggedHolds host below context initials test).Orderly initials fun _ => none := by
  cases test with
  | none => exact orderly_pure true
  | some test => exact (test.orderly_logged initials).andThen fun _ => orderly_pure _

theorem Expr.orderly_loggedStep (initials : Nat) (step : Option Expr) :
    (Expr.loggedStep host below context initials step).Orderly initials fun _ => none := by
  cases step with
  | none => exact orderly_pure ()
  | some step => exact (step.orderly_logged initials).andThen fun _ => orderly_pure _

theorem Expr.orderly_loggedOption (initials : Nat) (value : Option Expr) :
    (Expr.loggedOption host below context initials value).Orderly initials fun _ => none := by
  cases value with
  | none => exact orderly_pure _
  | some value => exact value.orderly_logged initials

-- A round ends with the return of its body.
theorem Loop.orderly_logged {initials : Nat} {checkpoint : Run σ Error Unit}
    {test : Logged Act σ Error Bool} {body : Logged Act σ Error Completion}
    {step : Logged Act σ Error Unit} {testLast : Bool}
    (ht : test.Orderly initials fun _ => none) (hb : body.Orderly initials Completion.given)
    (hs : step.Orderly initials fun _ => none) :
    (Loop.logged checkpoint test body step testLast).Orderly initials
      fun completion => completion.bind Completion.given := by
  have htest (now : Bool) : (Loop.loggedTest now test).Orderly initials fun _ => none := by
    cases now with
    | true => exact ht
    | false => exact orderly_pure true
  refine Orderly.andThen (orderly_lift checkpoint) fun _ => (htest _).andThen fun enters => ?_
  cases enters with
  | false => exact orderly_pure _
  | true =>
    refine hb.bind (fun completion hg => ?_) fun completion given hg => ?_
    · cases completion with
      | returned value => cases hg
      | broke => exact orderly_pure _
      | continued => exact hs.andThen fun _ => orderly_pure _
      | normal => exact hs.andThen fun _ => (htest _).andThen fun _ => orderly_pure _
    · cases completion with
      | returned value => exact ⟨some (.returned value), rfl, hg⟩
      | _ => cases hg

mutual

theorem Stmt.orderly_logged (fuel initials : Nat) (item : Stmt) :
    (item.logged host below context fuel initials).Orderly initials Completion.given := by
  cases item with
  | empty _ | breakLoop _ | continueLoop _ =>
    rw [Stmt.logged]
    exact (orderly_pure _).noting rfl
  | block _ body =>
    rw [Stmt.logged]
    exact (Stmt.orderly_loggedAll fuel initials body).noting rfl
  | branch _ test yes no =>
    rw [Stmt.logged]
    refine Orderly.noting ((test.orderly_logged initials).andThen fun value => ?_) rfl
    cases value.isTruthy with
    | true => exact Stmt.orderly_logged fuel initials yes
    | false =>
      cases no with
      | none => exact orderly_pure _
      | some no => exact Stmt.orderly_logged fuel initials no
  | declare _ name initial =>
    rw [Stmt.logged]
    refine Orderly.noting ((Expr.orderly_loggedOption initials initial).andThen fun value => ?_) rfl
    exact (orderly_lift _).andThen fun _ => orderly_pure _
  | loop offset initial test step body testLast =>
    rw [Stmt.logged, ← noting_bind]
    have hinitial : (noting ⟨.statement offset, initials⟩
        (Stmt.loggedOption host below context fuel (initials + 1) initial)).Orderly initials
          fun _ => none := by
      cases initial with
      | none => exact @Orderly.initialiser _ _ _ initials (fun _ => none) _ (orderly_pure _) offset
      | some initial => exact (Stmt.orderly_logged fuel (initials + 1) initial).initialiser offset
    refine hinitial.andThen fun _ => Orderly.repeatUntil ?_ fuel
    exact Loop.orderly_logged (Expr.orderly_loggedHolds initials test)
      (Stmt.orderly_logged fuel initials body) (Expr.orderly_loggedStep initials step)
  | giveBack _ value =>
    rw [Stmt.logged]
    refine Orderly.noting ((Expr.orderly_loggedOption initials value).andThen fun value => ?_) rfl
    refine fun machine => Act.orderly_singleton fun other hv => ?_
    cases hv
    rfl
  | expression value =>
    rw [Stmt.logged]
    exact Orderly.noting ((value.orderly_logged initials).andThen fun _ => orderly_pure _) rfl

theorem Stmt.orderly_loggedAll (fuel initials : Nat) (body : List Stmt) :
    (Stmt.loggedAll host below context fuel initials body).Orderly initials Completion.given := by
  cases body with
  | nil => exact orderly_pure _
  | cons first rest =>
    rw [Stmt.loggedAll]
    refine (Stmt.orderly_logged fuel initials first).bind (fun completion hg => ?_)
      fun completion given hg => ?_
    · cases completion with
      | normal => exact Stmt.orderly_loggedAll fuel initials rest
      | _ => exact orderly_pure _
    · cases completion with
      | returned value => exact ⟨.returned value, rfl, hg⟩
      | _ => cases hg

end

-- What an invocation does is what its body does, and the value that the body gives back is its own.
theorem Closure.orderly_logged (fuel : Nat) (closure : Closure) (receiver : Value)
    (arguments : List Value) (scope : Scope) (machine : Machine σ) :
    ∃ given, Act.Orderly 0
        ((closure.logged host below fuel receiver arguments scope).run machine).1 given ∧
      ∀ value, given = some value →
        ((closure.logged host below fuel receiver arguments scope).run machine).2.1 =
          .done value := by
  let frame := machine.heap.addObject (closure.frame receiver arguments)
  let body : Logged Act σ Error Completion := Stmt.loggedAll host below
    ⟨closure.script, scope.child frame.1⟩ fuel 0 closure.function.body
  have hrun : (closure.logged host below fuel receiver arguments scope).run machine =
      (body >>= fun completion => pure completion.result).run { machine with heap := frame.2 } := rfl
  have hbody : body.Orderly 0 Completion.given := Stmt.orderly_loggedAll fuel 0 closure.function.body
  have hacts := hbody { machine with heap := frame.2 }
  rw [hrun, run_bind]
  rcases hb : body.run { machine with heap := frame.2 } with ⟨acts, ending, left⟩
  rw [hb] at hacts
  cases ending with
  | done completion =>
    refine ⟨completion.given, ?_, fun value hg => ?_⟩
    · change Act.Orderly 0 (acts ++ []) completion.given
      rw [List.append_nil]
      exact hacts
    · cases completion with
      | returned other =>
        cases hg
        rfl
      | _ => cases hg
  | failed _ | crashed | spent => exact ⟨none, hacts, fun value hg => by cases hg⟩

-- What comes next in an invocation behind a return lies outside of the innermost loop initialiser
-- that the return stands in. A return outside of all initialisers, in whatever blocks, branches and
-- loop bodies, is the last thing that its body does, and the invocation ends with its value.
theorem Closure.returned_settles (host : Host σ) (fuel : Nat) (location : Location)
    (closure : Closure) (receiver : Value) (arguments : List Value) (scope : Scope)
    {machine : Machine σ} {before after : List Act} {value : Value} {initials : Nat}
    (hacts : ((closure.logged host (Below.ofFuel host fuel) fuel receiver arguments scope).run
      machine).1 = before ++ ⟨.returned value, initials⟩ :: after) :
    (Below.ofFuel host (fuel + 1)).enter location closure receiver arguments scope =
      Run.deeper location
        (closure.logged host (Below.ofFuel host fuel) fuel receiver arguments scope).erase ∧
    (∀ next ∈ after.head?, next.initials < initials) ∧
    (initials = 0 → after = [] ∧
      ((closure.logged host (Below.ofFuel host fuel) fuel receiver arguments scope).run
        machine).2.1 = .done value) := by
  obtain ⟨given, horderly, hending⟩ :=
    closure.orderly_logged fuel receiver arguments scope machine
  obtain ⟨hnext, hlast⟩ := horderly.settles hacts
  refine ⟨Below.enter_eq_logged fuel location closure receiver arguments scope, hnext, fun hi => ?_⟩
  exact ⟨(hlast hi).1, hending value (hlast hi).2⟩

end Walk

section Sample

-- The function that a text spells.
def Closure.spelled (source : String) : Closure :=
  match Expr.read source with
  | .ok (.function _ literal) => ⟨source, literal⟩
  | _ => ⟨source, .mk none [] 0 [] ""⟩

-- What a function does on an engine without globals.
def Closure.sample (closure : Closure) (arguments : List Value) :
    List Act × Ending Error Value × Machine Unit :=
  let engine := Engine.create { installStandard := false } ()
  (closure.logged Host.bare (Below.ofFuel Host.bare 10) 10 .undefined arguments
    (.ofRoot engine.root)).run engine.machine

-- Looks for a number in a branch inside of a loop.
def Closure.searching : Closure :=
  .spelled ("function (x) \x7b for (var i = 0; i < 3; i += 1) \x7b " ++
    "if (i == x) \x7b return i; \x7d \x7d return 9; \x7d")

-- The loop ends with the return, and so does the function.
theorem Closure.returned_settles_searching :
    ∃ before value, (searching.sample [.int 1]).1 = before ++ [⟨.returned value, 0⟩] ∧
      (searching.sample [.int 1]).2.1 = .done value ∧
      (searching.sample [.int 1]).2.1.value?.map Heap.empty.toText = some "1" := by
  have hfound : (searching.sample [.int 1]).1.any
      (fun act => act.initials == 0 && act.deed.returned?.isSome) = true := by decide +kernel
  obtain ⟨⟨deed, initials⟩, hm, hact⟩ := List.any_eq_true.mp hfound
  obtain ⟨hinitials, hreturned⟩ := Bool.and_eq_true_iff.mp hact
  obtain rfl := eq_of_beq hinitials
  cases deed with
  | returned value =>
    obtain ⟨before, after, hsplit⟩ := List.append_of_mem hm
    have hsettles := (returned_settles Host.bare 10 ⟨"", 0⟩ searching .undefined [.int 1]
      (.ofRoot (Engine.create { installStandard := false } ()).root) hsplit).2.2 rfl
    obtain ⟨rfl, hending⟩ := hsettles
    exact ⟨before, value, hsplit, hending, by decide +kernel⟩
  | _ => cases hreturned

-- Returns in a loop initialiser and behind the loop.
def Closure.overruling : Closure :=
  .spelled "function () \x7b for (return 1; false; ) \x7b \x7d return 2; \x7d"

-- The return with 1 stands in the body, and yet the test of the loop and the other return come after
-- it, and the invocation ends with 2.
theorem Closure.return_overruled :
    ((overruling.sample []).1.map fun act =>
      (act.initials, act.deed.returned?.map Heap.empty.toText)) =
        [(0, none), (1, none), (1, none), (1, some "1"), (0, none), (0, none), (0, none),
          (0, some "2")] ∧
    (overruling.sample []).2.1.value?.map Heap.empty.toText = some "2" := by
  decide +kernel

end Sample

end ScriptEngine
