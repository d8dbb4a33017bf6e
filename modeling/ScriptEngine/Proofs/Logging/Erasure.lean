import ScriptEngine.Proofs.Logging.Hooks
import ScriptEngine.Proofs.Runs.Manner

-- The walk with a log beside the walk without one. What relates the two step by step relates them
-- as a whole. So without its log the walk is the walk, whatever is logged.

namespace ScriptEngine

variable {σ A ε α β : Type}

-- Whatever happens, the program does not crash.
def Manner.safe : Manner σ where
  changes _ _ := True
  crashes := False
  spends := True

instance Manner.free_safe : (Manner.safe : Manner σ).Free where
  refl _ := trivial
  trans _ _ := trivial
  update _ _ _ := trivial

theorem Manner.suits_safe (host : Host σ) : Manner.safe.Suits host where
  call _ _ _ _ := trivial
  construct _ _ _ _ := trivial
  invoke _ _ _ _ _ _ := trivial

abbrev Run.Safe (run : Run σ ε α) : Prop := run.KeepsTo .safe

theorem Run.safe_checkpoint (host : Host σ) : (Run.checkpoint host).Safe := by
  intro machine
  refine ⟨trivial, ?_⟩
  unfold Run.checkpoint
  dsimp only
  split <;> exact trivial

variable {host : Host σ}

open Logged (lift watch noted)

-- A relation between computations with a log and computations that every step of a walk respects.
structure Hooks.Respects (hooks : Hooks σ A) (host : Host σ)
    (R : (ε α : Type) → Logged A σ ε α → Run σ ε α → Prop) : Prop where
  lift {ε α : Type} {run : Run σ ε α} : run.Safe → R ε α (lift run) run
  asking {α : Type} {run : Run σ Fault α} : run.Safe → R Fault α (hooks.asking run) run
  checkpoint (location : Location) : R Error Unit
    (watch (fun machine =>
        hooks.checkpoint machine (Run.locate location (Run.checkpoint host) machine))
      (Run.locate location (Run.checkpoint host)))
    (Run.locate location (Run.checkpoint host))
  receiver (scope : Scope) : R Error Value
    (watch (fun machine => hooks.received scope machine.heap) do
      let heap ← Run.getHeap
      return scope.receiver heap)
    (do
      let heap ← Run.getHeap
      return scope.receiver heap)
  store (location : Location) (container key value : Value) : R Error Unit
    (watch (fun machine => hooks.stored machine.heap container key value) do
      Run.hold container key
      Run.locate location (Run.changeHeap (·.setSubscript container key value)))
    (do
      Run.hold container key
      Run.locate location (Run.changeHeap (·.setSubscript container key value)))
  bind {ε α β : Type} {logged : Logged A σ ε α} {run : Run σ ε α} {next : α → Logged A σ ε β}
    {next' : α → Run σ ε β} : R ε α logged run → (∀ value, R ε β (next value) (next' value)) →
      R ε β (logged >>= next) (run >>= next')
  began (work : Work) (reading : Option Nat) {α : Type} {logged : Logged A σ Error α}
    {run : Run σ Error α} : R Error α logged run →
      R Error α (noted (hooks.began work reading) logged) run
  entered (frame : ObjectRef) (call : Call) {α : Type} {logged : Logged A σ Error α}
    {run : Run σ Error α} : R Error α logged run →
      R Error α (noted (hooks.entered frame call) logged) run
  locate (location : Location) {α : Type} {logged : Logged A σ Fault α} {run : Run σ Fault α} :
    R Fault α logged run → R Error α (logged.locate location) (Run.locate location run)
  embed {α : Type} {logged : Logged A σ Error α} {run : Run σ Error α} :
    R Error α logged run → R Fault α (hooks.embed logged) (Run.embed run)
  deeper (location : Location) {α : Type} {logged : Logged A σ Error α} {run : Run σ Error α} :
    R Error α logged run → R Error α (logged.deeper location) (Run.deeper location run)

-- The levels below are related.
structure ObservedBelow.Respects (below : ObservedBelow σ A)
    (R : (ε α : Type) → Logged A σ ε α → Run σ ε α → Prop) (plain : Below σ) : Prop where
  enter (reading : Option Nat) (call : Call) (location : Location) (closure : Closure)
    (arguments : List Value) (scope : Scope) : R Error Value
      (below.enter reading call location closure arguments scope)
      (plain.enter location closure call.receiver arguments scope)
  script (form : ScriptForm) (text : String) :
    R Fault Value (below.script form text) (plain.script form text)

section Walk

variable {hooks : Hooks σ A} {R : (ε α : Type) → Logged A σ ε α → Run σ ε α → Prop}
  {below : ObservedBelow σ A} {plain : Below σ} {context : Context}

namespace Hooks.Respects

variable (hr : hooks.Respects host R)
include hr

theorem done {ε α : Type} (value : α) : R ε α (pure value) (pure value) :=
  hr.lift (Run.keepsTo_pure value)

theorem getHeap_bind {ε α : Type} {next : Heap → Logged A σ ε α} {next' : Heap → Run σ ε α}
    (h : ∀ heap, R ε α (next heap) (next' heap)) :
    R ε α (Logged.lift Run.getHeap >>= next) (Run.getHeap >>= next') :=
  hr.bind (hr.lift Run.keepsTo_getHeap) h

theorem ofExcept {α : Type} (location : Location) (result : Except Fault α) :
    R Error α (Logged.lift (Run.locate location (Run.ofExcept result)))
      (Run.locate location (Run.ofExcept result)) :=
  hr.lift ((Run.keepsTo_ofExcept result).locate location)

-- The reading of the clock is known to the log alone.
theorem guarded (location : Location) {α : Type} {next : Nat → Logged A σ Error α}
    {run : Run σ Error α} (h : ∀ reading, R Error α (next reading) run) :
    R Error α (hooks.guarded host location next)
      (Run.locate location (Run.checkpoint host) >>= fun _ => run) := by
  have hget : (Run.get >>= fun _ : Machine σ =>
      Run.locate location (Run.checkpoint host) >>= fun _ => run) =
        (Run.locate location (Run.checkpoint host) >>= fun _ => run) := rfl
  rw [← hget]
  refine hr.bind (hr.lift Run.keepsTo_get) fun machine => ?_
  exact hr.bind (hr.checkpoint location) fun _ => h machine.readings

theorem repeatUntil {ε α : Type} {step : Logged A σ ε (Option α)} {run : Run σ ε (Option α)}
    (h : R ε (Option α) step run) (fuel : Nat) :
    R ε α (step.repeatUntil fuel) (Run.repeatUntil run fuel) := by
  induction fuel with
  | zero => exact hr.lift (Run.keepsTo_spent trivial)
  | succ fuel ih =>
    rw [Run.repeatUntil_succ]
    refine hr.bind h fun value => ?_
    cases value with
    | none => exact ih
    | some value => exact hr.done value

end Hooks.Respects

theorem Native.respects_observed (hr : hooks.Respects host R) (hb : below.Respects R plain)
    (native : Native) (receiver : Value) (arguments : List Value) :
    R Fault Value (native.observed hooks host below receiver arguments)
      (native.apply host plain receiver arguments) := by
  have hquiet (h : native.apply host plain receiver arguments =
      native.apply host (Below.ofFuel host 0) receiver arguments) :
      R Fault Value (hooks.asking (native.apply host (Below.ofFuel host 0) receiver arguments))
        (native.apply host plain receiver arguments) := by
    rw [h]
    exact hr.asking (native.keepsTo_apply (Manner.suits_safe host) trivial receiver arguments)
  cases native with
  | global function =>
    cases function with
    | exec => exact hr.getHeap_bind fun heap => hb.script .statements _
    | eval => exact hr.getHeap_bind fun heap => hb.script .expression _
    | _ => exact hquiet rfl
  | _ => exact hquiet rfl

theorem respects_observedCall (hr : hooks.Respects host R) (hb : below.Respects R plain)
    (reading : Option Nat) (call : Call) (location : Location) (function : Value)
    (arguments : List Value) (method : Option String) (scope : Scope) :
    R Error Value
      (observedCall hooks host below reading call location function arguments method scope)
      (callValue host plain location function call.receiver arguments method scope) := by
  refine hr.getHeap_bind fun heap => ?_
  have hfail : R Error Value (Logged.lift (Run.fail ⟨.notAFunction, location⟩))
      (Run.fail ⟨.notAFunction, location⟩) := hr.lift (Run.keepsTo_fail _)
  cases heap.nativeOf? function with
  | some native =>
    exact hr.began _ _ (hr.locate location (native.respects_observed hr hb _ _))
  | none =>
    cases heap.closureOf? function with
    | some closure => exact hb.enter reading call location closure arguments scope
    | none =>
      cases method with
      | none => exact hfail
      | some name =>
        cases heap.instanceOf? call.receiver with
        | none => exact hfail
        | some content =>
          dsimp only
          split
          · have hinvoke := content.keepsTo_invoke (Manner.suits_safe host) heap name arguments
            exact hr.began _ _ (hr.locate location (hr.asking hinvoke))
          · exact hfail

mutual

theorem Expr.respects_observed (hr : hooks.Respects host R) (hb : below.Respects R plain)
    (value : Expr) : R Error Value (value.observed hooks host below context)
      (value.eval host plain context) := by
  cases value with
  | literal _ _ =>
    rw [Expr.observed, Expr.eval]
    exact hr.done _
  | identifier _ _ =>
    rw [Expr.observed, Expr.eval]
    exact hr.getHeap_bind fun heap => hr.done _
  | receiver _ =>
    rw [Expr.observed, Expr.eval]
    exact hr.receiver context.scope
  | dot _ target _ =>
    rw [Expr.observed, Expr.eval]
    refine hr.bind (target.respects_observed hr hb) fun value => ?_
    exact hr.getHeap_bind fun heap => hr.done _
  | subscript _ target index =>
    rw [Expr.observed, Expr.eval]
    refine hr.bind (target.respects_observed hr hb) fun value => ?_
    refine hr.bind (index.respects_observed hr hb) fun key => ?_
    exact hr.getHeap_bind fun heap => hr.done _
  | unary _ operator operand =>
    rw [Expr.observed, Expr.eval]
    refine hr.bind (operand.respects_observed hr hb) fun value => ?_
    refine hr.getHeap_bind fun heap => ?_
    cases operator <;> exact hr.done _
  | binary _ operator left right =>
    rw [Expr.observed, Expr.eval]
    refine hr.bind (left.respects_observed hr hb) fun a => ?_
    refine hr.bind (right.respects_observed hr hb) fun b => ?_
    exact hr.getHeap_bind fun heap => hr.ofExcept _ _
  | logical _ operator left right =>
    rw [Expr.observed, Expr.eval]
    refine hr.bind (left.respects_observed hr hb) fun a => ?_
    have hright := hr.bind (right.respects_observed hr hb) fun b =>
      hr.done (Value.boolean b.isTruthy)
    cases operator with
    | and =>
      cases a.isTruthy
      · exact hr.done _
      · exact hright
    | or =>
      cases a.isTruthy
      · exact hright
      · exact hr.done _
  | ternary _ test yes no =>
    rw [Expr.observed, Expr.eval]
    refine hr.bind (test.respects_observed hr hb) fun value => ?_
    cases value.isTruthy
    · exact no.respects_observed hr hb
    · exact yes.respects_observed hr hb
  | assign _ target value =>
    rw [Expr.observed, Expr.eval]
    refine hr.bind (value.respects_observed hr hb) fun value => ?_
    exact hr.bind (target.respects_observedStore hr hb value) fun _ => hr.done _
  | update _ operator target value _ =>
    rw [Expr.observed, Expr.eval]
    refine hr.bind (target.respects_observed hr hb) fun old => ?_
    refine hr.bind (value.respects_observed hr hb) fun other => ?_
    refine hr.getHeap_bind fun heap => ?_
    refine hr.bind (hr.ofExcept _ _) fun new => ?_
    exact hr.bind (target.respects_observedStore hr hb new) fun _ => hr.done _
  | call offset callee arguments =>
    have htail (call : Call) (function : Value) (method : Option String) :=
      hr.guarded (context.at offset) fun reading =>
        hr.bind (hr.began .arguments reading (Expr.respects_observedAll hr hb arguments))
          fun arguments => respects_observedCall hr hb reading call (context.at offset) function
            arguments method context.scope
    by_cases hplain : callee.isPlain
    · rw [Expr.observed_call hooks host below context hplain, Expr.eval_call hplain]
      exact hr.bind (callee.respects_observed hr hb) fun function => htail (.plain _) function none
    · cases callee with
      | dot _ target name =>
        rw [Expr.observed, Expr.eval]
        refine hr.bind (target.respects_observed hr hb) fun receiver => ?_
        refine hr.bind (hr.lift Run.keepsTo_get) fun machine => ?_
        refine hr.bind (hr.ofExcept _ _) fun function => ?_
        exact htail (.method receiver) function (some name)
      | _ => exact absurd rfl hplain
  | construct offset path arguments =>
    rw [Expr.observed, Expr.eval]
    refine hr.getHeap_bind fun heap => ?_
    have harguments (reading : Nat) :=
      hr.began .arguments reading (Expr.respects_observedAll hr hb arguments)
    cases context.path heap path with
    | object class_ =>
      dsimp only
      cases (heap.object class_).closure? with
      | some closure =>
        refine hr.bind (hr.lift (Run.keepsTo_onHeap _)) fun fresh => ?_
        refine hr.guarded _ fun reading => hr.bind (harguments reading) fun arguments => ?_
        exact hr.bind (hb.enter reading (.construction fresh) _ closure arguments _)
          fun _ => hr.done _
      | none =>
        refine hr.guarded _ fun reading => hr.bind (harguments reading) fun arguments => ?_
        refine hr.began _ _ (hr.locate _ (hr.asking ?_))
        exact keepsTo_construct (Manner.suits_safe host) _ class_ _
    | _ => exact hr.done _
  | object _ entries =>
    rw [Expr.observed, Expr.eval]
    refine hr.bind (Expr.respects_observedEntries hr hb entries) fun entries => ?_
    exact hr.lift (Run.keepsTo_onHeap _)
  | array _ elements =>
    rw [Expr.observed, Expr.eval]
    refine hr.bind (Expr.respects_observedAll hr hb elements) fun elements => ?_
    exact hr.lift (Run.keepsTo_onHeap _)
  | function _ _ =>
    rw [Expr.observed, Expr.eval]
    exact hr.lift (Run.keepsTo_onHeap _)

theorem Expr.respects_observedStore (hr : hooks.Respects host R) (hb : below.Respects R plain)
    (target : Expr) (value : Value) :
    R Error Unit (target.observedStore hooks host below context value)
      (target.store host plain context value) := by
  cases target with
  | identifier _ _ =>
    rw [Expr.observedStore, Expr.store]
    exact hr.lift (Run.keepsTo_modifyHeap _)
  | dot _ target _ =>
    rw [Expr.observedStore, Expr.store]
    refine hr.bind (target.respects_observed hr hb) fun container => ?_
    exact hr.lift ((Run.keepsTo_changeHeap _).locate _)
  | subscript _ target index =>
    rw [Expr.observedStore, Expr.store]
    refine hr.bind (target.respects_observed hr hb) fun container => ?_
    refine hr.bind (index.respects_observed hr hb) fun key => ?_
    exact hr.store _ container key value
  | _ =>
    simp only [Expr.observedStore, Expr.store]
    exact hr.lift (Run.keepsTo_fail _)

theorem Expr.respects_observedAll (hr : hooks.Respects host R) (hb : below.Respects R plain)
    (values : List Expr) :
    R Error (List Value) (Expr.observedAll hooks host below context values)
      (Expr.evalAll host plain context values) := by
  cases values with
  | nil => exact hr.done _
  | cons first rest =>
    rw [Expr.observedAll, Expr.evalAll]
    refine hr.bind (first.respects_observed hr hb) fun value => ?_
    exact hr.bind (Expr.respects_observedAll hr hb rest) fun values => hr.done _

theorem Expr.respects_observedEntries (hr : hooks.Respects host R) (hb : below.Respects R plain)
    (entries : List (String × Expr)) :
    R Error (List (String × Value)) (Expr.observedEntries hooks host below context entries)
      (Expr.evalEntries host plain context entries) := by
  cases entries with
  | nil => exact hr.done _
  | cons entry rest =>
    obtain ⟨key, first⟩ := entry
    rw [Expr.observedEntries, Expr.evalEntries]
    refine hr.bind (first.respects_observed hr hb) fun value => ?_
    exact hr.bind (Expr.respects_observedEntries hr hb rest) fun values => hr.done _

end

theorem Expr.respects_observedHolds (hr : hooks.Respects host R) (hb : below.Respects R plain)
    (test : Option Expr) : R Error Bool (Expr.observedHolds hooks host below context test)
      (Expr.holds host plain context test) := by
  cases test with
  | none => exact hr.done _
  | some test => exact hr.bind (test.respects_observed hr hb) fun value => hr.done _

theorem Loop.respects_observed (hr : hooks.Respects host R) (location : Location)
    {test : Logged A σ Error Bool} {body : Logged A σ Error Completion}
    {step : Logged A σ Error Unit} {test' : Run σ Error Bool} {body' : Run σ Error Completion}
    {step' : Run σ Error Unit} (ht : R Error Bool test test')
    (hb : R Error Completion body body') (hs : R Error Unit step step') (testLast : Bool) :
    R Error (Option Completion) (Loop.observed hooks host location test body step testLast)
      (Loop.round (Run.locate location (Run.checkpoint host)) test' body' step' testLast) := by
  refine hr.guarded location fun reading => ?_
  have htest := hr.began .test reading ht
  have hbody := hr.began .body reading hb
  cases testLast with
  | false =>
    refine hr.bind htest fun enters => ?_
    cases enters with
    | false => exact hr.done _
    | true =>
      refine hr.bind hbody fun completion => ?_
      cases completion with
      | returned _ | broke => exact hr.done _
      | continued => exact hr.bind hs fun _ => hr.done _
      | normal => exact hr.bind hs fun _ => hr.bind (hr.done true) fun again => hr.done _
  | true =>
    refine hr.bind (hr.done true) fun enters => ?_
    cases enters with
    | false => exact hr.done _
    | true =>
      refine hr.bind hbody fun completion => ?_
      cases completion with
      | returned _ | broke => exact hr.done _
      | continued => exact hr.bind hs fun _ => hr.done _
      | normal => exact hr.bind hs fun _ => hr.bind htest fun again => hr.done _

mutual

theorem Stmt.respects_observed (hr : hooks.Respects host R) (hb : below.Respects R plain)
    {fuel : Nat} (item : Stmt) : R Error Completion (item.observed hooks host below context fuel)
      (item.exec host plain fuel context) := by
  cases item with
  | empty _ | breakLoop _ | continueLoop _ =>
    rw [Stmt.observed, Stmt.exec]
    exact hr.done _
  | block _ body =>
    rw [Stmt.observed, Stmt.exec]
    exact Stmt.respects_observedAll hr hb body
  | branch _ test yes no =>
    cases no with
    | none =>
      rw [Stmt.observed, Stmt.exec]
      refine hr.bind (test.respects_observed hr hb) fun value => ?_
      cases value.isTruthy
      · exact hr.done _
      · exact yes.respects_observed hr hb
    | some no =>
      rw [Stmt.observed, Stmt.exec]
      refine hr.bind (test.respects_observed hr hb) fun value => ?_
      cases value.isTruthy
      · exact no.respects_observed hr hb
      · exact yes.respects_observed hr hb
  | declare _ name initial =>
    have hmodify (value : Value) : R Error Unit _ _ :=
      hr.lift (Run.keepsTo_modifyHeap (context.scope.declare name value))
    cases initial with
    | none =>
      rw [Stmt.observed, Stmt.exec]
      exact hr.bind (hr.done _) fun value => hr.bind (hmodify value) fun _ => hr.done _
    | some initial =>
      rw [Stmt.observed, Stmt.exec]
      refine hr.bind (initial.respects_observed hr hb) fun value => ?_
      exact hr.bind (hmodify value) fun _ => hr.done _
  | loop offset initial test step body _ =>
    have hstep : R Error Unit (Expr.observedStep hooks host below context step)
        (match step with
          | some step => do
            let _ ← step.eval host plain context
            return ()
          | none => return ()) := by
      cases step with
      | none => exact hr.done _
      | some step => exact hr.bind (step.respects_observed hr hb) fun _ => hr.done _
    have htest : R Error Bool (Expr.observedHolds hooks host below context test) _ :=
      Expr.respects_observedHolds hr hb test
    have hbody : R Error Completion (Stmt.observed hooks host below context fuel body) _ :=
      body.respects_observed hr hb
    have hround := Loop.respects_observed hr (context.at offset) htest hbody hstep
    cases initial with
    | none =>
      exact hr.bind (hr.done _) fun _ => hr.repeatUntil (hround _) fuel
    | some initial =>
      have hinitial : R Error Completion (Stmt.observed hooks host below context fuel initial) _ :=
        initial.respects_observed hr hb
      exact hr.bind hinitial fun _ => hr.repeatUntil (hround _) fuel
  | giveBack _ value =>
    cases value with
    | none =>
      rw [Stmt.observed, Stmt.exec]
      exact hr.bind (hr.done _) fun _ => hr.done _
    | some value =>
      rw [Stmt.observed, Stmt.exec]
      exact hr.bind (value.respects_observed hr hb) fun value => hr.done _
  | expression value =>
    rw [Stmt.observed, Stmt.exec]
    exact hr.bind (value.respects_observed hr hb) fun _ => hr.done _

theorem Stmt.respects_observedAll (hr : hooks.Respects host R) (hb : below.Respects R plain)
    {fuel : Nat} (items : List Stmt) :
    R Error Completion (Stmt.observedAll hooks host below context fuel items)
      (Stmt.execAll host plain fuel context items) := by
  cases items with
  | nil => exact hr.done _
  | cons first rest =>
    rw [Stmt.observedAll, Stmt.execAll]
    refine hr.bind (first.respects_observed hr hb) fun completion => ?_
    cases completion with
    | normal => exact Stmt.respects_observedAll hr hb rest
    | _ => exact hr.done _

end

theorem Closure.respects_observed (hr : hooks.Respects host R) (hb : below.Respects R plain)
    {fuel : Nat} (closure : Closure) (call : Call) (arguments : List Value) (scope : Scope) :
    R Error Value (closure.observed hooks host below fuel call arguments scope)
      (closure.run host plain fuel call.receiver arguments scope) := by
  refine hr.bind (hr.lift (Run.keepsTo_onHeap _)) fun frame => ?_
  refine hr.bind (hr.entered frame call (Stmt.respects_observedAll hr hb _)) fun completion => ?_
  cases completion <;> exact hr.done _

theorem ScriptForm.respects_observed (hr : hooks.Respects host R) (hb : below.Respects R plain)
    {fuel : Nat} (form : ScriptForm) (text : String) :
    R Fault Value (form.observed hooks host below fuel text)
      (form.run host plain fuel text) := by
  refine hr.bind (hr.lift Run.keepsTo_get) fun machine => ?_
  cases form with
  | expression =>
    cases Expr.read text with
    | ok value => exact hr.embed (value.respects_observed hr hb)
    | error error => exact hr.lift (Run.keepsTo_fail _)
  | statements =>
    cases Program.read text with
    | ok program =>
      exact hr.bind (hr.embed (Stmt.respects_observedAll hr hb program.body)) fun _ => hr.done _
    | error error => exact hr.lift (Run.keepsTo_fail _)

theorem ObservedBelow.respects_ofFuel (hr : hooks.Respects host R) (fuel : Nat) :
    (ObservedBelow.ofFuel hooks host fuel).Respects R (Below.ofFuel host fuel) := by
  induction fuel with
  | zero =>
    exact ⟨fun _ _ _ _ _ _ => hr.lift (Run.keepsTo_spent trivial),
      fun _ _ => hr.lift (Run.keepsTo_spent trivial)⟩
  | succ fuel ih =>
    rw [Below.ofFuel_succ, ObservedBelow.ofFuel]
    refine ⟨fun reading call location closure arguments scope => ?_, fun form text => ?_⟩
    · exact hr.deeper location
        (hr.began _ _ (closure.respects_observed hr ih call arguments scope))
    · exact form.respects_observed hr ih text

theorem Entry.respects_observed (hr : hooks.Respects host R) (hb : below.Respects R plain)
    {fuel : Nat} {engine : Engine σ} (entry : Entry) :
    R Error Unit (entry.observed hooks host below fuel engine)
      (entry.run host plain fuel engine) := by
  cases entry with
  | execute source =>
    simp only [Entry.observed, Entry.run]
    cases Program.read source with
    | ok program =>
      exact hr.bind (Stmt.respects_observedAll hr hb program.body) fun _ => hr.done _
    | error error => exact hr.lift (Run.keepsTo_fail _)
  | evaluate source =>
    simp only [Entry.observed, Entry.run]
    cases Expr.read source with
    | ok value => exact hr.bind (value.respects_observed hr hb) fun _ => hr.done _
    | error error => exact hr.lift (Run.keepsTo_fail _)
  | callFunction name arguments =>
    simp only [Entry.observed, Entry.run]
    cases (engine.heap.get? engine.root name).filter engine.heap.isFunction with
    | some function =>
      exact hr.bind (respects_observedCall hr hb none (.host _) _ function _ _ _)
        fun _ => hr.done _
    | none => exact hr.lift (Run.keepsTo_fail _)
  | callWithin frame function arguments =>
    exact hr.bind (respects_observedCall hr hb none (.host frame) _ function _ _ _)
      fun _ => hr.done _

end Walk

-- Without their logs, the levels are the same.
def ObservedBelow.Erases (below : ObservedBelow σ A) (plain : Below σ) : Prop :=
  below.Respects (fun _ _ logged run => logged.erase = run) plain

section Erase

variable {hooks : Hooks σ A}

-- Leaving the log out is respected by every step, whatever is logged.
theorem Hooks.respects_erase (hooks : Hooks σ A) (host : Host σ) :
    hooks.Respects host fun _ _ logged run => logged.erase = run where
  lift _ := rfl
  asking _ := rfl
  checkpoint _ := rfl
  receiver _ := rfl
  store _ _ _ _ := rfl
  bind h hn := by
    rw [Logged.erase_bind, h]
    exact congrArg _ (funext hn)
  began _ _ _ _ _ h := h
  entered _ _ _ _ _ h := h
  locate location _ _ _ h := by rw [Logged.erase_locate, h]
  embed h := by rw [Hooks.embed, Logged.erase_embed, Logged.erase_mapActs, h]
  deeper location _ _ _ h := by rw [Logged.erase_deeper, h]

theorem ObservedBelow.erases_ofFuel (hooks : Hooks σ A) (host : Host σ) (fuel : Nat) :
    (ObservedBelow.ofFuel hooks host fuel).Erases (Below.ofFuel host fuel) :=
  ObservedBelow.respects_ofFuel (hooks.respects_erase host) fuel

variable {below : ObservedBelow σ A} {plain : Below σ} {context : Context}

theorem Expr.erase_observed (h : below.Erases plain) (value : Expr) :
    (value.observed hooks host below context).erase = value.eval host plain context :=
  value.respects_observed (hooks.respects_erase host) h

theorem Stmt.erase_observed (h : below.Erases plain) {fuel : Nat} (item : Stmt) :
    (item.observed hooks host below context fuel).erase = item.exec host plain fuel context :=
  item.respects_observed (hooks.respects_erase host) h

-- Without its log, an entry is performed.
theorem Entry.perform_eq_observed (hooks : Hooks σ A) (host : Host σ) (fuel : Nat)
    (engine : Engine σ) (entry : Entry) : entry.perform host fuel engine =
      engine.enter host
        (entry.observed hooks host (.ofFuel hooks host fuel) fuel engine).erase := by
  have hb : (ObservedBelow.ofFuel hooks host fuel).Erases (Below.ofFuel host fuel) :=
    ObservedBelow.erases_ofFuel hooks host fuel
  rw [perform_eq_run, ← entry.respects_observed (hooks.respects_erase host) hb]

end Erase

end ScriptEngine
