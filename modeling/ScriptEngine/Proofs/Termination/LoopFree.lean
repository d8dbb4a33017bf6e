import ScriptEngine.Proofs.Pairing.Invariant
import ScriptEngine.Proofs.Termination.Writes

-- Scripts without loops come to an end. Every call of a user function is one level deeper, and the
-- depth is bounded; between two calls a walk goes along a tree. So fuel for one level more than the
-- depth allows is never spent, and more of it changes nothing. What remains besides success and
-- failure is a write by which the program crashes.

namespace ScriptEngine

open Pairing

variable {σ : Type}

section Functions

variable {literal inner : Function}

mutual

-- What is inside of a function of a tree is inside of the tree.
theorem Expr.functions_trans (hi : inner ∈ literal.functions) :
    (value : Expr) → literal ∈ value.functions → inner ∈ value.functions
  | .literal _ _, h | .identifier _ _, h | .receiver _, h => by cases h
  | .dot _ target _, h => target.functions_trans hi h
  | .unary _ _ operand, h => operand.functions_trans hi h
  | .subscript _ left right, h | .binary _ _ left right, h | .logical _ _ left right, h
  | .assign _ left right, h | .update _ _ left right _, h => by
    simp only [Expr.functions, List.mem_append] at h ⊢
    exact h.imp (left.functions_trans hi) (right.functions_trans hi)
  | .ternary _ test yes no, h => by
    simp only [Expr.functions, List.mem_append] at h ⊢
    exact h.imp (.imp (test.functions_trans hi) (yes.functions_trans hi)) (no.functions_trans hi)
  | .call _ callee arguments, h => by
    simp only [Expr.functions, List.mem_append] at h ⊢
    exact h.imp (callee.functions_trans hi) (Expr.functionsOfAll_trans hi arguments)
  | .construct _ _ arguments, h => Expr.functionsOfAll_trans hi arguments h
  | .object _ entries, h => Expr.functionsOfEntries_trans hi entries h
  | .array _ elements, h => Expr.functionsOfAll_trans hi elements h
  | .function _ function, h => function.functions_trans hi h

theorem Expr.functionsOfAll_trans (hi : inner ∈ literal.functions) :
    (values : List Expr) → literal ∈ Expr.functionsOfAll values →
      inner ∈ Expr.functionsOfAll values
  | [], h => by cases h
  | first :: rest, h => by
    simp only [Expr.functionsOfAll, List.mem_append] at h ⊢
    exact h.imp (first.functions_trans hi) (Expr.functionsOfAll_trans hi rest)

theorem Expr.functionsOfEntries_trans (hi : inner ∈ literal.functions) :
    (entries : List (String × Expr)) → literal ∈ Expr.functionsOfEntries entries →
      inner ∈ Expr.functionsOfEntries entries
  | [], h => by cases h
  | (_, value) :: rest, h => by
    simp only [Expr.functionsOfEntries, List.mem_append] at h ⊢
    exact h.imp (value.functions_trans hi) (Expr.functionsOfEntries_trans hi rest)

theorem Expr.functionsOfOption_trans (hi : inner ∈ literal.functions) :
    (value : Option Expr) → literal ∈ Expr.functionsOfOption value →
      inner ∈ Expr.functionsOfOption value
  | none, h => by cases h
  | some value, h => value.functions_trans hi h

theorem Stmt.functions_trans (hi : inner ∈ literal.functions) :
    (item : Stmt) → literal ∈ item.functions → inner ∈ item.functions
  | .empty _, h | .breakLoop _, h | .continueLoop _, h => by cases h
  | .block _ body, h => Stmt.functionsOfAll_trans hi body h
  | .branch _ test yes no, h => by
    simp only [Stmt.functions, List.mem_append] at h ⊢
    exact h.imp (.imp (test.functions_trans hi) (yes.functions_trans hi))
      (Stmt.functionsOfOption_trans hi no)
  | .declare _ _ value, h | .giveBack _ value, h => Expr.functionsOfOption_trans hi value h
  | .loop _ initial test step body _, h => by
    simp only [Stmt.functions, List.mem_append] at h ⊢
    exact h.imp (.imp (.imp (Stmt.functionsOfOption_trans hi initial)
      (Expr.functionsOfOption_trans hi test)) (Expr.functionsOfOption_trans hi step))
      (body.functions_trans hi)
  | .expression value, h => value.functions_trans hi h

theorem Stmt.functionsOfOption_trans (hi : inner ∈ literal.functions) :
    (item : Option Stmt) → literal ∈ Stmt.functionsOfOption item →
      inner ∈ Stmt.functionsOfOption item
  | none, h => by cases h
  | some item, h => item.functions_trans hi h

theorem Stmt.functionsOfAll_trans (hi : inner ∈ literal.functions) :
    (items : List Stmt) → literal ∈ Stmt.functionsOfAll items → inner ∈ Stmt.functionsOfAll items
  | [], h => by cases h
  | first :: rest, h => by
    simp only [Stmt.functionsOfAll, List.mem_append] at h ⊢
    exact h.imp (first.functions_trans hi) (Stmt.functionsOfAll_trans hi rest)

theorem Function.functions_trans (hi : inner ∈ literal.functions) :
    (function : Function) → literal ∈ function.functions → inner ∈ function.functions
  | .mk name parameters offset body source, h => by
    simp only [Function.functions, List.mem_cons] at h ⊢
    obtain rfl | h := h
    · simpa only [Function.functions, List.mem_cons] using hi
    · exact .inr (Stmt.functionsOfAll_trans hi body h)

end

end Functions

-- No loop in a function nor in the functions inside of it.
def Function.LoopFree (function : Function) : Prop :=
  ∀ literal ∈ function.functions, Stmt.anyLoop literal.body = false

theorem Function.LoopFree.body {function : Function} (h : function.LoopFree) :
    Stmt.anyLoop function.body = false := by
  refine h function ?_
  cases function
  exact List.mem_cons_self

theorem Function.LoopFree.inside {function literal : Function} (h : function.LoopFree)
    (hm : literal ∈ Stmt.functionsOfAll function.body) : literal.LoopFree := by
  intro inner hi
  refine h inner ?_
  cases function
  exact List.mem_cons_of_mem _ (Stmt.functionsOfAll_trans hi _ hm)

instance (function : Function) : Decidable function.LoopFree :=
  inferInstanceAs (Decidable (∀ literal ∈ function.functions, _))

-- Whether a native function runs scripts itself.
def Native.runsScripts : Native → Bool
  | .global .exec | .global .eval => true
  | _ => false

-- All functions of the heap are free of loops, and none of its native functions runs scripts.
structure Heap.LoopFree (heap : Heap) : Prop where
  closure {ref : ObjectRef} {closure : Closure} :
    (heap.object ref).closure? = some closure → closure.function.LoopFree
  native {ref : NativeRef} {native : Native} :
    heap.native? ref = some native → native.runsScripts = false

theorem Heap.loopFree_of_forall {heap : Heap}
    (hc : ∀ object ∈ heap.objects.toList, ∀ closure ∈ object.closure?, closure.function.LoopFree)
    (hn : ∀ native ∈ heap.natives.toList, native.runsScripts = false) : heap.LoopFree where
  closure {ref closure} h := by
    unfold Heap.object at h
    cases ho : heap.objects[ref.index]? with
    | none =>
      rw [ho] at h
      cases h
    | some object =>
      rw [ho] at h
      exact hc object (Array.mem_toList_iff.mpr (Array.mem_of_getElem? ho)) closure h
  native h := hn _ (Array.mem_toList_iff.mpr (Array.mem_of_getElem? h))

-- The text of an entry has no loop.
def Entry.LoopFree : Entry → Prop
  | execute source => ∀ program, Program.read source = .ok program →
    Stmt.anyLoop program.body = false ∧
      ∀ literal ∈ program.functions, Stmt.anyLoop literal.body = false
  | evaluate source => ∀ value, Expr.read source = .ok value →
    ∀ literal ∈ value.functions, Stmt.anyLoop literal.body = false
  | callFunction _ _ | callWithin _ _ _ => True

-- A property of what is read, if anything is.
instance decidableForallOk {ε α : Type} (result : Except ε α) (holds : α → Prop)
    [DecidablePred holds] : Decidable (∀ value, result = .ok value → holds value) :=
  match result with
  | .ok value => decidable_of_iff (holds value) (by simp)
  | .error _ => isTrue nofun

instance : (entry : Entry) → Decidable entry.LoopFree
  | .execute source => inferInstanceAs (Decidable (∀ _, Program.read source = _ → _ ∧ _))
  | .evaluate source => inferInstanceAs (Decidable (∀ _, Expr.read source = _ → _))
  | .callFunction _ _ | .callWithin _ _ _ => inferInstanceAs (Decidable True)

-- The functions of the embedding program leave the depth alone and bring no loops.
structure Host.Calm (host : Host σ) : Prop where
  keeps (depth maxDepth : Nat) : host.Keeps fun machine =>
    machine.heap.LoopFree ∧ machine.depth = depth ∧ machine.maxDepth = maxDepth
  builds {machine : Machine σ} {handler name arguments object closure} :
    machine.heap.LoopFree → (host.construct handler name arguments machine).1 = .ok object →
      object.kind = .function closure → closure.function.LoopFree

section Run

variable {host : Host σ} {depth maxDepth : Nat}

-- Machines without loops at a depth. Their runs do not spend their fuel.
def Pairing.loopFree (depth maxDepth : Nat) : Pairing σ σ :=
  holding
    (fun machine => machine.heap.LoopFree ∧ machine.depth = depth ∧ machine.maxDepth = maxDepth)
    (fun closure => closure.function.LoopFree) (fun native => native.runsScripts = false) False

theorem Heap.LoopFree.change {heap after : Heap}
    (hc : heap.Change (fun closure => closure.function.LoopFree) after) (h : heap.LoopFree) :
    after.LoopFree where
  closure hclosure := (hc.closure hclosure).elim h.closure id
  native hnative := by
    unfold Heap.native? at hnative
    rw [hc.natives] at hnative
    exact h.native hnative

theorem Pairing.lawful_loopFree (hh : host.Calm) :
    (loopFree depth maxDepth).Lawful host host := by
  refine lawful_holding (hh.keeps depth maxDepth) (fun hc hm => ?_) (fun hm => hm.1.closure)
    (fun hm => hm.1.native) (fun hc hm => ⟨hm.1.change hc, hm.2⟩) (fun hm => hh.builds hm.1)
  rw [hc.heap, hc.depth, hc.maxDepth]
  exact hm

-- The fuel of two runs need not be the same if both have enough for the levels that are left.
theorem Pairing.covers_loopFree (hh : host.Calm) {fuel fuel' : Nat} (scope : Scope)
    (hd : depth ≤ maxDepth) (hf : maxDepth < depth + fuel) (hf' : maxDepth < depth + fuel') :
    (loopFree depth maxDepth).Covers (Below.ofFuel host fuel) (Below.ofFuel host fuel') scope := by
  induction fuel generalizing depth fuel' scope with
  | zero => omega
  | succ fuel ih =>
    obtain ⟨fuel', rfl⟩ : ∃ less, fuel' = less + 1 := ⟨fuel' - 1, by omega⟩
    rw [Below.ofFuel_succ, Below.ofFuel_succ]
    refine ⟨fun location closure receiver arguments ha => ?_, fun form text ha => ?_⟩
    · by_cases hlt : depth < maxDepth
      · have hp : (loopFree (depth + 1) maxDepth).Lawful host host := lawful_loopFree hh
        have hbody : Stmt.anyLoop closure.function.body ≠ true := by
          rw [Function.LoopFree.body ha]
          exact nofun
        refine closure.matches_enter hp
          (fun frame => ih (scope.child frame) hlt (by omega) (by omega))
          (fun hloop => absurd hloop hbody) (fun literal hm => Function.LoopFree.inside ha hm) id
          ?_ ?_
        · rintro machine _ ⟨rfl, hfree, hdepth, hmax⟩
          exact ⟨rfl, rfl, fun _ => ⟨rfl, hfree, congrArg (· + 1) hdepth, hmax⟩⟩
        · rintro machine _ ⟨rfl, hfree, hdepth, hmax⟩
          exact ⟨rfl, hfree, congrArg (· - 1) hdepth, hmax⟩
      · rintro machine _ ⟨rfl, hm⟩
        have hle : machine.maxDepth ≤ machine.depth := by omega
        dsimp only
        rw [Run.deeper_of_le hle, Run.deeper_of_le hle]
        exact ends_failed ⟨rfl, hm⟩
    · cases form <;> cases ha

end Run

instance Ending.decidableCrashed {ε α : Type} :
    (ending : Ending ε α) → Decidable (ending = .crashed)
  | crashed => isTrue rfl
  | done _ | failed _ | spent => isFalse nofun

def Ending.error? {ε α : Type} : Ending ε α → Option ε
  | failed error => some error
  | done _ | crashed | spent => none

namespace Entry

variable {host : Host σ} {engine : Engine σ} {entry : Entry}

theorem LoopFree.meets (h : entry.LoopFree) (loops : Prop) :
    entry.Meets loops fun closure => closure.function.LoopFree := by
  cases entry with
  | execute source =>
    intro program hr
    obtain ⟨hbody, hinside⟩ := h program hr
    refine ⟨fun hl => ?_, fun literal hm inner hi => ?_⟩
    · rw [hbody] at hl
      cases hl
    · exact hinside inner (Stmt.functionsOfAll_trans hi program.body hm)
  | evaluate source =>
    intro value hr literal hm inner hi
    exact h value hr inner (value.functions_trans hi hm)
  | callFunction _ _ | callWithin _ _ _ => trivial

-- Any two runs of an entry without loops end in the same way if both have fuel for the depth that
-- is allowed.
theorem LoopFree.ends_run (he : entry.LoopFree) (hh : host.Calm) (hf : engine.heap.LoopFree)
    {fuel fuel' : Nat} (hfuel : engine.machine.maxDepth < fuel)
    (hfuel' : engine.machine.maxDepth < fuel') :
    (loopFree 0 engine.machine.maxDepth).Ends
      (entry.run host (Below.ofFuel host fuel) fuel engine
        (engine.machine.restart host engine.timeout))
      (entry.run host (Below.ofFuel host fuel') fuel' engine
        (engine.machine.restart host engine.timeout)) := by
  refine matches_run (lawful_loopFree hh) (fun scope => ?_) engine entry (he.meets _) _ _
    ⟨rfl, hf, rfl, Machine.maxDepth_restart host _ _⟩
  exact covers_loopFree hh scope (Nat.zero_le _) (by omega) (by omega)

-- With fuel for the depth that is allowed an entry without loops ends, and leaves no loops behind.
-- Any fuel beyond makes no difference.
theorem LoopFree.exists_perform (he : entry.LoopFree) (hh : host.Calm)
    (hf : engine.heap.LoopFree) :
    ∃ ending after, ending ≠ .spent ∧ after.heap.LoopFree ∧
      ∀ fuel, engine.machine.maxDepth < fuel →
        entry.perform host fuel engine = (ending, after) := by
  have hself := Nat.lt_succ_self engine.machine.maxDepth
  obtain ⟨ending, machine, _, hrun, -, ⟨rfl, hfree, -⟩, hspent⟩ :=
    (he.ends_run hh hf hself hself).exists_eq
  refine ⟨ending, { engine with machine }, hspent, hfree, fun fuel hfuel => ?_⟩
  obtain ⟨ending', machine', _, hrun', hother, ⟨rfl, -⟩, -⟩ :=
    (he.ends_run hh hf hself hfuel).exists_eq
  rw [hrun] at hrun'
  obtain ⟨rfl, rfl⟩ := Prod.mk.inj hrun'
  rw [perform_eq_run, Engine.enter, hother]

-- With fuel for the depth that is allowed, an entry without loops ends in the same way with any fuel
-- beyond, and leaves no loops behind, so that this holds of the next entry too. It ends well or with
-- an error exactly if no subscript assignment writes an object that the text of its key leads to.
-- Otherwise the program crashes.
theorem ends_of_loopFree (hh : host.Calm) (hf : engine.heap.LoopFree) (he : entry.LoopFree) :
    ∃ ending after, ending ≠ .spent ∧ after.heap.LoopFree ∧
      ∀ fuel, engine.machine.maxDepth < fuel →
        entry.perform host fuel engine = (ending, after) ∧
        ((ending = .done () ∨ ∃ error, ending = .failed error) ↔
          ∀ write ∈ entry.writes host fuel engine, ¬write.Clashes) := by
  obtain ⟨ending, after, hspent, hfree, hperform⟩ := he.exists_perform hh hf
  refine ⟨ending, after, hspent, hfree, fun fuel hfuel => ⟨hperform fuel hfuel, ?_⟩⟩
  have hcrash : ending = .crashed ↔ ∃ write ∈ entry.writes host fuel engine, write.Clashes := by
    have hiff := crashes_iff host fuel engine entry
    rwa [hperform fuel hfuel] at hiff
  have hends : (ending = .done () ∨ ∃ error, ending = .failed error) ↔ ending ≠ .crashed := by
    cases ending with
    | done _ => exact iff_of_true (.inl rfl) nofun
    | failed error => exact iff_of_true (.inr ⟨error, rfl⟩) nofun
    | crashed => exact iff_of_false nofun (absurd rfl)
    | spent => exact absurd rfl hspent
  rw [hends, Ne, hcrash]
  simp only [not_exists, not_and]

section Sample

-- The functions of the probe add nothing but arrays and instances.
theorem calm_probe : Probe.host.Calm where
  keeps depth maxDepth :=
    Probe.keeps (P := fun heap _ d m => heap.LoopFree ∧ d = depth ∧ m = maxDepth)
      fun _ hm => ⟨hm.1.change (.addArray _), hm.2⟩
  builds {machine handler name arguments object closure} _ hbuilt hk := by
    change (Probe.construct handler name arguments machine).1 = _ at hbuilt
    unfold Probe.construct at hbuilt
    split at hbuilt <;> cases hbuilt <;> cases hk

-- Three levels of calls at most.
def shallow : Engine Probe.State :=
  let engine := Engine.create { installStandard := false, maxDepth := 3 } default
  Probe.registerFunction "depth" "depth" engine

-- Two functions that call each other without end, the one through a property that a third one sets.
def recursing : Entry :=
  .execute ("function f(x) \x7b return x.next(x); \x7d function g(x) \x7b return f(x); \x7d " ++
    "f(function () \x7b return \x7b next: g \x7d; \x7d());")

theorem ends_recursing : Probe.host.Calm ∧ shallow.heap.LoopFree ∧ recursing.LoopFree ∧
    (∃ ending after, ending ≠ .spent ∧ after.heap.LoopFree ∧
      ∀ fuel, 3 < fuel → recursing.perform Probe.host fuel shallow = (ending, after) ∧
        ((ending = .done () ∨ ∃ error, ending = .failed error) ↔
          ∀ write ∈ recursing.writes Probe.host fuel shallow, ¬write.Clashes)) ∧
    (recursing.perform Probe.host 4 shallow).1.error?.map Error.message =
      some "Maximum call stack size exceeded" := by
  have hheap : shallow.heap.LoopFree := Heap.loopFree_of_forall (by decide) (by decide)
  have hentry : recursing.LoopFree := by decide +kernel
  have hmessage : (recursing.perform Probe.host 4 shallow).1.error?.map Error.message =
      some "Maximum call stack size exceeded" := by decide +kernel
  exact ⟨calm_probe, hheap, hentry, ends_of_loopFree calm_probe hheap hentry, hmessage⟩

-- An object under its own text.
def clashing : Entry :=
  .execute "var o = \x7b\x7d; o[o] = 1;"

theorem crashes_clashing : Probe.host.Calm ∧ shallow.heap.LoopFree ∧ clashing.LoopFree ∧
    ∀ fuel, 3 < fuel → (clashing.perform Probe.host fuel shallow).1 = .crashed := by
  have hheap : shallow.heap.LoopFree := Heap.loopFree_of_forall (by decide) (by decide)
  have hentry : clashing.LoopFree := by decide +kernel
  obtain ⟨ending, after, -, -, hperform⟩ := hentry.exists_perform calm_probe hheap
  have hcrash : (clashing.perform Probe.host 4 shallow).1 = .crashed := by decide +kernel
  refine ⟨calm_probe, hheap, hentry, fun fuel hfuel => ?_⟩
  rw [hperform fuel hfuel, ← hperform 4 (by decide)]
  exact hcrash

end Sample

end Entry

end ScriptEngine
