import ScriptEngine.Proofs.Cancellation.Trace
import ScriptEngine.Proofs.Heap.Walks

-- Walks on a machine that has been stopped. They come to an end by the recursion on the tree alone:
-- the level below, the fuel of loops and the functions and classes of the host do not matter.

namespace ScriptEngine

open Logged

variable {σ ε α β : Type}

-- How a walk on a stopped machine ends: by itself, or at the first checkpoint.
structure Ended (result : List Event × Ending Error α × Machine σ) : Prop where
  stopped : result.2.2.deadline = .stopped
  finished : result.2.1 ≠ .spent
  refused : result.1 = [] ∨ result.1 = [.refused 0] ∧ ∃ error, result.2.1 = .failed error ∧
    error.kind = .timeoutError ∧ error.message = "Interrupted"

-- On a stopped machine, the computations do the same and come to an end.
def Logged.Stall (traced other : Traced σ Error α) : Prop :=
  ∀ machine : Machine σ, machine.deadline = .stopped →
    traced.run machine = other.run machine ∧ Ended (traced.run machine)

-- The deadline is not touched, and what is done is over at once.
def Manner.brief : Manner σ where
  changes before after := after.deadline = before.deadline
  crashes := True
  spends := False

instance Manner.free_brief : (Manner.brief : Manner σ).Free where
  refl _ := rfl
  trans h h' := h'.trans h
  update _ _ _ := rfl

abbrev Run.Brief (run : Run σ ε α) : Prop := run.KeepsTo .brief

namespace Logged

variable {host : Host σ} {location : Location}

theorem stall_lift {run : Run σ Error α} (h : run.Brief) : (lift run).Stall (lift run) := by
  intro machine hs
  exact ⟨rfl, (h machine).1.trans hs, h.ne_spent not_false machine, .inl rfl⟩

theorem stall_pure (value : α) : (pure value : Traced σ Error α).Stall (pure value) :=
  stall_lift (Run.keepsTo_pure value)

theorem Stall.bind {traced other : Traced σ Error α} {next next' : α → Traced σ Error β}
    (h : traced.Stall other) (hn : ∀ value, (next value).Stall (next' value)) :
    (traced >>= next).Stall (other >>= next') := by
  intro machine hs
  obtain ⟨he, hend⟩ := h machine hs
  rw [run_bind, run_bind, ← he]
  generalize traced.run machine = result at hend ⊢
  obtain ⟨events, ending, after⟩ := result
  cases ending with
  | done value =>
    obtain ⟨hnext, hlast⟩ := hn value after hend.stopped
    obtain rfl : events = [] := by
      obtain hnil | ⟨-, error, hfailed, -⟩ := hend.refused
      · exact hnil
      · cases hfailed
    exact ⟨congrArg (fun result => ([] ++ result.1, result.2)) hnext, hlast⟩
  | failed error =>
    refine ⟨rfl, hend.stopped, nofun, hend.refused.imp_right ?_⟩
    rintro ⟨hevents, found, hfailed, htext⟩
    cases hfailed
    exact ⟨hevents, error, rfl, htext⟩
  | crashed =>
    refine ⟨rfl, hend.stopped, nofun, hend.refused.imp_right ?_⟩
    rintro ⟨-, error, hfailed, -⟩
    cases hfailed
  | spent => exact absurd rfl hend.finished

-- A stopped machine does not come past a checkpoint.
theorem run_guarded_of_stopped {machine : Machine σ} (hs : machine.deadline = .stopped)
    (next : Nat → Traced σ Error α) :
    (Hooks.events.guarded host location next).run machine =
      ([.refused 0], .failed ⟨.interrupted, location⟩, machine.tick) := by
  have hhear : machine.hear host = machine := by
    unfold Machine.hear Machine.stop
    split
    · rw [← hs]
    · rfl
  have hcheck : Run.checkpoint host machine = (.failed .interrupted, machine.tick) := by
    unfold Run.checkpoint
    rw [hhear]
    simp [Deadline.check, hs]
  have hstops : Event.stopsBetween machine machine.tick = [] := if_neg fun h => h.1 hs
  rw [Traced.run_guarded, Run.locate, hcheck]
  dsimp only
  rw [hstops]
  rfl

theorem stall_guarded (next next' : Nat → Traced σ Error α) :
    (Hooks.events.guarded host location next).Stall
      (Hooks.events.guarded host location next') := by
  intro machine hs
  rw [run_guarded_of_stopped hs, run_guarded_of_stopped hs]
  exact ⟨rfl, hs, nofun, .inr ⟨rfl, _, rfl, rfl, rfl⟩⟩

-- A loop does not come to its first round.
theorem stall_repeatUntil (next next' : Nat → Traced σ Error (Option α)) (fuel fuel' : Nat) :
    ((Hooks.events.guarded host location next).repeatUntil (fuel + 1)).Stall
      ((Hooks.events.guarded host location next').repeatUntil (fuel' + 1)) := by
  intro machine hs
  rw [Logged.repeatUntil, Logged.repeatUntil, run_bind, run_bind, run_guarded_of_stopped hs,
    run_guarded_of_stopped hs]
  refine ⟨rfl, hs, ?_, .inr ⟨rfl, _, rfl, rfl, rfl⟩⟩
  rintro ⟨⟩

end Logged

section Walk

variable {host : Host σ} {context : Context} (below below' : TracedBelow σ)

mutual

theorem Expr.stall_traced (value : Expr) :
    (value.traced host below context).Stall (value.traced host below' context) := by
  cases value with
  | literal _ _ => exact stall_pure _
  | identifier _ _ => exact (stall_lift Run.keepsTo_getHeap).bind fun heap => stall_pure _
  | receiver _ => exact stall_lift (Run.keepsTo_getHeap.bind fun heap => Run.keepsTo_pure _)
  | dot _ target _ =>
    refine (target.stall_traced).bind fun value => ?_
    exact (stall_lift Run.keepsTo_getHeap).bind fun heap => stall_pure _
  | subscript _ target index =>
    refine (target.stall_traced).bind fun value => ?_
    refine (index.stall_traced).bind fun key => ?_
    exact (stall_lift Run.keepsTo_getHeap).bind fun heap => stall_pure _
  | unary _ operator operand =>
    refine (operand.stall_traced).bind fun value => ?_
    refine (stall_lift Run.keepsTo_getHeap).bind fun heap => ?_
    cases operator <;> exact stall_pure _
  | binary _ _ left right =>
    refine (left.stall_traced).bind fun a => ?_
    refine (right.stall_traced).bind fun b => ?_
    refine (stall_lift Run.keepsTo_getHeap).bind fun heap => ?_
    exact stall_lift ((Run.keepsTo_ofExcept _).locate _)
  | logical _ operator left right =>
    refine (left.stall_traced).bind fun a => ?_
    have hright := (right.stall_traced).bind fun b => stall_pure (Value.boolean b.isTruthy)
    cases operator with
    | and =>
      cases a.isTruthy
      · exact stall_pure _
      · exact hright
    | or =>
      cases a.isTruthy
      · exact hright
      · exact stall_pure _
  | ternary _ test yes no =>
    refine (test.stall_traced).bind fun value => ?_
    cases value.isTruthy
    · exact no.stall_traced
    · exact yes.stall_traced
  | assign _ target value =>
    refine (value.stall_traced).bind fun value => ?_
    exact (target.stall_observedStore value).bind fun _ => stall_pure _
  | update _ _ target value _ =>
    refine (target.stall_traced).bind fun old => ?_
    refine (value.stall_traced).bind fun other => ?_
    refine (stall_lift Run.keepsTo_getHeap).bind fun heap => ?_
    refine (stall_lift ((Run.keepsTo_ofExcept _).locate _)).bind fun new => ?_
    exact (target.stall_observedStore new).bind fun _ => stall_pure _
  | call offset callee arguments =>
    by_cases hplain : callee.isPlain
    · rw [Expr.traced, Expr.traced, Expr.observed_call _ _ _ _ hplain,
        Expr.observed_call _ _ _ _ hplain]
      exact (callee.stall_traced).bind fun function => stall_guarded _ _
    · cases callee with
      | dot _ target name =>
        rw [Expr.traced, Expr.traced, Expr.observed, Expr.observed]
        refine (target.stall_traced).bind fun receiver => ?_
        refine (stall_lift Run.keepsTo_get).bind fun machine => ?_
        refine (stall_lift ((Run.keepsTo_ofExcept _).locate _)).bind fun function => ?_
        exact stall_guarded _ _
      | _ => exact absurd rfl hplain
  | construct offset path arguments =>
    refine (stall_lift Run.keepsTo_getHeap).bind fun heap => ?_
    cases context.path heap path with
    | object class_ =>
      dsimp only
      cases (heap.object class_).closure? with
      | some closure =>
        refine (stall_lift (Run.keepsTo_onHeap _)).bind fun instance_ => ?_
        exact stall_guarded _ _
      | none => exact stall_guarded _ _
    | _ => exact stall_pure _
  | object _ entries =>
    refine (Expr.stall_observedEntries entries).bind fun entries => ?_
    exact stall_lift (Run.keepsTo_onHeap _)
  | array _ elements =>
    refine (Expr.stall_observedAll elements).bind fun elements => ?_
    exact stall_lift (Run.keepsTo_onHeap _)
  | function _ _ => exact stall_lift (Run.keepsTo_onHeap _)

theorem Expr.stall_observedStore (target : Expr) (value : Value) :
    (target.observedStore Hooks.events host below context value).Stall
      (target.observedStore Hooks.events host below' context value) := by
  cases target with
  | identifier _ _ => exact stall_lift (Run.keepsTo_modifyHeap _)
  | dot _ target _ =>
    refine (target.stall_traced).bind fun container => ?_
    exact stall_lift ((Run.keepsTo_changeHeap _).locate _)
  | subscript _ target index =>
    refine (target.stall_traced).bind fun container => ?_
    refine (index.stall_traced).bind fun key => ?_
    refine stall_lift ((Run.keepsTo_hold trivial _ _).bind fun _ => ?_)
    exact (Run.keepsTo_changeHeap _).locate _
  | _ => exact stall_lift (Run.keepsTo_fail _)

theorem Expr.stall_observedAll (values : List Expr) :
    (Expr.observedAll Hooks.events host below context values).Stall
      (Expr.observedAll Hooks.events host below' context values) := by
  cases values with
  | nil => exact stall_pure _
  | cons first rest =>
    refine (first.stall_traced).bind fun value => ?_
    exact (Expr.stall_observedAll rest).bind fun values => stall_pure _

theorem Expr.stall_observedEntries (entries : List (String × Expr)) :
    (Expr.observedEntries Hooks.events host below context entries).Stall
      (Expr.observedEntries Hooks.events host below' context entries) := by
  cases entries with
  | nil => exact stall_pure _
  | cons entry rest =>
    obtain ⟨key, first⟩ := entry
    refine (first.stall_traced).bind fun value => ?_
    exact (Expr.stall_observedEntries rest).bind fun values => stall_pure _

end

variable (fuel fuel' : Nat)

mutual

-- A loop runs its initial statement and ends at its first checkpoint.
theorem Stmt.stall_traced (item : Stmt) :
    (item.traced host below (fuel + 1) context).Stall
      (item.traced host below' (fuel' + 1) context) := by
  have hvalue (value : Expr) := @Expr.stall_traced σ host context below below' value
  cases item with
  | empty _ | breakLoop _ | continueLoop _ => exact stall_pure _
  | block _ body => exact Stmt.stall_observedAll body
  | branch _ test yes no =>
    cases no with
    | none =>
      refine (hvalue test).bind fun value => ?_
      cases value.isTruthy
      · exact stall_pure _
      · exact yes.stall_traced
    | some no =>
      refine (hvalue test).bind fun value => ?_
      cases value.isTruthy
      · exact no.stall_traced
      · exact yes.stall_traced
  | declare _ name initial =>
    have hdeclare (value : Value) : (lift (Run.modifyHeap (context.scope.declare name value)) >>=
        fun _ => pure Completion.normal : Traced σ Error Completion).Stall
          (lift (Run.modifyHeap (context.scope.declare name value)) >>=
            fun _ => pure Completion.normal) :=
      (stall_lift (Run.keepsTo_modifyHeap _)).bind fun _ => stall_pure _
    cases initial with
    | none => exact (stall_pure _).bind hdeclare
    | some value => exact (hvalue value).bind hdeclare
  | loop offset initial test step body testLast =>
    cases initial with
    | none => exact (stall_pure _).bind fun _ => stall_repeatUntil _ _ _ _
    | some initial => exact (initial.stall_traced).bind fun _ => stall_repeatUntil _ _ _ _
  | giveBack _ value =>
    cases value with
    | none => exact stall_pure _
    | some value => exact (hvalue value).bind fun value => stall_pure _
  | expression value => exact (hvalue value).bind fun _ => stall_pure _

theorem Stmt.stall_observedAll (body : List Stmt) :
    (Stmt.observedAll Hooks.events host below context (fuel + 1) body).Stall
      (Stmt.observedAll Hooks.events host below' context (fuel' + 1) body) := by
  cases body with
  | nil => exact stall_pure _
  | cons first rest =>
    refine (first.stall_traced).bind fun completion => ?_
    cases completion with
    | normal => exact Stmt.stall_observedAll rest
    | _ => exact stall_pure _

end

end Walk

-- A level below that records which functions are entered.
def TracedBelow.plain (below : Below σ) : TracedBelow σ where
  enter reading call location closure arguments scope :=
    noting (.began .function reading)
      (lift (below.enter location closure call.receiver arguments scope))
  script form text := lift (below.script form text)

theorem TracedBelow.erases_plain (below : Below σ) :
    ObservedBelow.Erases (TracedBelow.plain below) below :=
  ⟨fun _ _ _ _ _ _ => rfl, fun _ _ => rfl⟩

-- On a stopped machine, expressions and statements begin no work and come to the same end whatever
-- the level below is and whatever fuel their loops have. The heap does not keep them busy either:
-- look-ups along prototypes and texts of arrays end before their steps are used up.
theorem walks_end_of_stopped {host : Host σ} {machine : Machine σ}
    (hs : machine.deadline = .stopped) (context : Context) :
    (∀ (value : Expr) (below below' : Below σ),
      Ended ((value.traced host (.plain below) context).run machine) ∧
      ((value.traced host (.plain below) context).run machine).2 =
        value.eval host below' context machine) ∧
    (∀ (item : Stmt) (below below' : Below σ) (fuel fuel' : Nat),
      Ended ((item.traced host (.plain below) (fuel + 1) context).run machine) ∧
      ((item.traced host (.plain below) (fuel + 1) context).run machine).2 =
        item.exec host below' (fuel' + 1) context machine) ∧
    (∀ (heap : Heap) (ref : ObjectRef) (name : String) (steps : Nat),
      heap.objects.size ≤ steps → heap.findAlong name steps ref = heap.find? ref name) ∧
    (∀ (heap : Heap) (value : Value) (depth : Nat),
      heap.arrays.size < depth → heap.textWithin depth [] value = heap.toText value) := by
  refine ⟨fun value below below' => ?_, fun item below below' fuel fuel' => ?_,
    fun heap ref name steps h => Heap.findAlong_eq_find? h ref,
    fun heap value depth h => Heap.textWithin_eq_toText h value⟩
  · obtain ⟨he, hend⟩ := Expr.stall_traced (.plain below) (.plain below') value machine hs
    refine ⟨hend, ?_⟩
    rw [he, ← Expr.erase_observed (TracedBelow.erases_plain below')]
    rfl
  · obtain ⟨he, hend⟩ :=
      Stmt.stall_traced (.plain below) (.plain below') fuel fuel' item machine hs
    refine ⟨hend, ?_⟩
    rw [he, ← Stmt.erase_observed (TracedBelow.erases_plain below')]
    rfl

section Sample

-- The global object is its own prototype and has an array that holds itself.
def tangled : Machine Unit where
  heap :=
    { objects := #[(Object.empty.set "prototype" (.object ⟨0⟩)).set "a" (.array ⟨0⟩)]
      arrays := #[#[.array ⟨0⟩]]
      natives := #[] }
  root := ⟨0⟩
  deadline := .stopped
  readings := 0
  depth := 0
  maxDepth := 0
  transcript := default
  host := ()

-- this.m()
def strayCall : Expr :=
  .call 0 (.dot 0 (.receiver 0) "m") []

-- this[a]; while (true) ;
def strayLoop : Stmt :=
  .block 0 [.expression (.subscript 0 (.receiver 0) (.identifier 0 "a")),
    .loop 0 none none none (.empty 0) false]

-- The call does not find its method, and the loop is interrupted.
theorem walks_end_tangled : tangled.deadline = .stopped ∧
    Ended ((strayCall.traced Host.bare (.plain (Below.ofFuel Host.bare 0)) ⟨"", .ofRoot ⟨0⟩⟩).run
      tangled) ∧
    ∃ error after, strayLoop.exec Host.bare (Below.ofFuel Host.bare 0) 1 ⟨"", .ofRoot ⟨0⟩⟩ tangled =
      (.failed error, after) ∧ error.message = "Interrupted" := by
  obtain ⟨hcall, hloop, -, -⟩ := @walks_end_of_stopped _ Host.bare tangled rfl ⟨"", .ofRoot ⟨0⟩⟩
  obtain ⟨hend, hexec⟩ := hloop strayLoop (Below.ofFuel Host.bare 0) (Below.ofFuel Host.bare 0) 0 0
  refine ⟨rfl, (hcall strayCall _ (Below.ofFuel Host.bare 0)).1, ?_⟩
  obtain hnone | ⟨-, error, hfailed, -, hmessage⟩ := hend.refused
  · exact absurd hnone (by decide +kernel)
  · exact ⟨error, _, by rw [← hexec, ← hfailed], hmessage⟩

end Sample

end ScriptEngine
