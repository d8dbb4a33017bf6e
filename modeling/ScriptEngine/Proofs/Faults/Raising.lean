import ScriptEngine.Proofs.Pairing.Walk

-- The faults that a run can fail with. What a walk raises itself is never a syntax error, so its
-- faults are among those that the embedding program and the level below are allowed, as long as all
-- the other kinds are allowed.

namespace ScriptEngine

variable {σ ε α β : Type}

-- Whatever the run fails with is allowed.
def Run.Raises (allowed : ε → Prop) (run : Run σ ε α) : Prop :=
  ∀ machine error, (run machine).1 = .failed error → allowed error

-- The functions of the embedding program fail with nothing but allowed faults.
structure Host.Raises (host : Host σ) (allowed : Fault → Prop) : Prop where
  call {handler receiver arguments machine fault} :
    (host.call handler receiver arguments machine).1 = .error fault → allowed fault
  construct {handler name arguments machine fault} :
    (host.construct handler name arguments machine).1 = .error fault → allowed fault
  invoke {handler className primitive name arguments machine fault} :
    (host.invoke handler className primitive name arguments machine).1 = .error fault →
      allowed fault

structure Below.Raises (below : Below σ) (allowed : Fault → Prop) : Prop where
  enter (location : Location) (closure : Closure) (receiver : Value) (arguments : List Value)
    (scope : Scope) :
    (below.enter location closure receiver arguments scope).Raises fun error => allowed error.fault
  script (form : ScriptForm) (text : String) : (below.script form text).Raises allowed

-- All faults are allowed but some syntax errors.
def Fault.AllowsOthers (allowed : Fault → Prop) : Prop :=
  ∀ fault : Fault, fault.kind ≠ .syntaxError → allowed fault

namespace Run

section Combine

variable {allowed : ε → Prop}

theorem raises_pure (value : α) : (pure value : Run σ ε α).Raises allowed :=
  fun _ _ => nofun

theorem raises_fail {error : ε} (h : allowed error) : (fail error : Run σ ε α).Raises allowed := by
  rintro machine _ ⟨⟩
  exact h

theorem raises_spent : (spent : Run σ ε α).Raises allowed :=
  fun _ _ => nofun

theorem raises_get : (get : Run σ ε (Machine σ)).Raises allowed :=
  fun _ _ => nofun

theorem raises_getHeap : (getHeap : Run σ ε Heap).Raises allowed :=
  fun _ _ => nofun

theorem raises_onHeap (operation : Heap → α × Heap) :
    (onHeap operation : Run σ ε α).Raises allowed :=
  fun _ _ => nofun

theorem raises_modifyHeap (change : Heap → Heap) :
    (modifyHeap change : Run σ ε Unit).Raises allowed :=
  fun _ _ => nofun

theorem raises_hold (container key : Value) :
    (hold container key : Run σ ε Unit).Raises allowed := by
  intro machine error hf
  rw [hold_apply] at hf
  dsimp only at hf
  split at hf <;> cases hf

theorem raises_ofExcept {result : Except ε α} (h : ∀ error, result = .error error → allowed error) :
    (ofExcept result : Run σ ε α).Raises allowed := by
  cases result with
  | ok value => exact raises_pure value
  | error error => exact raises_fail (h error rfl)

theorem raises_ofStep {step : Machine σ → Except ε α × Machine σ}
    (h : ∀ {machine error}, (step machine).1 = .error error → allowed error) :
    (ofStep step).Raises allowed := by
  intro machine error hf
  unfold ofStep at hf
  rcases hs : step machine with ⟨_ | _, after⟩
  · rw [hs] at hf
    cases hf
    exact h (congrArg Prod.fst hs)
  · rw [hs] at hf
    cases hf

theorem Raises.bind {run : Run σ ε α} {next : α → Run σ ε β} (h : run.Raises allowed)
    (hn : ∀ value, (next value).Raises allowed) : (run >>= next).Raises allowed := by
  intro machine error hf
  have hrun := h machine
  rw [bind_apply] at hf
  rcases hr : run machine with ⟨ending, after⟩
  rw [hr] at hf hrun
  cases ending with
  | done value => exact hn value after error hf
  | failed found =>
    cases hf
    exact hrun _ rfl
  | crashed | spent => cases hf

theorem Raises.mapError {ε' : Type} {allowed' : ε' → Prop} {run : Run σ ε α} {f : ε → ε'}
    (h : run.Raises allowed) (hf : ∀ error, allowed error → allowed' (f error)) :
    (run.mapError f).Raises allowed' := by
  intro machine error he
  have hrun := h machine
  unfold Run.mapError at he
  rcases hr : run machine with ⟨ending, after⟩
  rw [hr] at he hrun
  cases ending with
  | failed found =>
    cases he
    exact hf _ (hrun _ rfl)
  | done _ | crashed | spent => cases he

theorem Raises.repeatUntil {step : Run σ ε (Option α)} (h : step.Raises allowed) (fuel : Nat) :
    (Run.repeatUntil step fuel).Raises allowed := by
  induction fuel with
  | zero => exact raises_spent
  | succ fuel ih =>
    rw [Run.repeatUntil_succ]
    refine h.bind fun value => ?_
    cases value with
    | none => exact ih
    | some value => exact raises_pure value

end Combine

variable {allowed : Fault → Prop}

theorem Raises.locate {run : Run σ Fault α} (h : run.Raises allowed) (location : Location) :
    (Run.locate location run).Raises fun error => allowed error.fault := by
  rw [locate_eq_mapError]
  exact h.mapError fun _ hf => hf

theorem Raises.deeper {run : Run σ Error α} (hall : Fault.AllowsOthers allowed)
    (h : run.Raises fun error => allowed error.fault) (location : Location) :
    (Run.deeper location run).Raises fun error => allowed error.fault := by
  intro machine error hf
  unfold Run.deeper at hf
  split at hf
  · cases hf
    exact hall _ nofun
  · exact h _ error hf

theorem raises_changeHeap {change : Heap → Except Fault Heap}
    (h : ∀ heap fault, change heap = .error fault → allowed fault) :
    (changeHeap change : Run σ Fault Unit).Raises allowed := by
  intro machine fault hf
  unfold changeHeap at hf
  cases hc : change machine.heap with
  | ok heap =>
    rw [hc] at hf
    cases hf
  | error error =>
    rw [hc] at hf
    cases hf
    exact h _ _ hc

theorem raises_checkpoint (hall : Fault.AllowsOthers allowed) (host : Host σ) :
    (checkpoint host).Raises allowed := by
  intro machine fault hf
  unfold checkpoint Deadline.check at hf
  dsimp only at hf
  split at hf
  · cases hf
  · next hc =>
    cases hf
    split at hc
    · cases hc
      exact hall _ nofun
    · split at hc
      · cases hc
        exact hall _ nofun
      · cases hc

end Run

section Operations

variable {heap : Heap} {fault : Fault}

-- What an operation on values or on the heap fails with, if it fails.

theorem Heap.fault_applyBinary {host : Host σ} {operator : BinaryOp} {a b : Value}
    (h : heap.applyBinary host operator a b = .error fault) :
    ∃ operand, fault = .notAllowed operator operand := by
  unfold applyBinary Ladder.onDoubles Ladder.onInts Ladder.onReferences Ladder.onTexts at h
  grind

theorem Heap.fault_method {host : Host σ} {root : ObjectRef} {target : Value} {name : String}
    (h : heap.method host root target name = .error fault) : fault = .unknownFunction name := by
  unfold method at h
  grind

theorem Heap.fault_setProperty {container value : Value} {name : String}
    (h : heap.setProperty container name value = .error fault) : fault = .notAssignable := by
  unfold setProperty at h
  grind

theorem Heap.fault_setSubscript {container key value : Value}
    (h : heap.setSubscript container key value = .error fault) :
    fault = .notAssignable ∨ ∃ index, fault = .invalidIndex index := by
  unfold setSubscript setElement at h
  grind

end Operations

section Walk

variable {host : Host σ} {below : Below σ} {allowed : Fault → Prop} {context : Context} {fuel : Nat}

theorem Native.raises_apply (hall : Fault.AllowsOthers allowed) (hh : host.Raises allowed)
    (hb : below.Raises allowed) (native : Native) (receiver : Value) (arguments : List Value) :
    (native.apply host below receiver arguments).Raises allowed := by
  cases native with
  | global function =>
    refine Run.raises_getHeap.bind fun heap => ?_
    cases function with
    | exec => exact hb.script .statements _
    | eval => exact hb.script .expression _
    | parseInt =>
      dsimp only
      split <;> exact Run.raises_pure _
    | _ => exact Run.raises_pure _
  | object function => exact Run.raises_onHeap _
  | array function =>
    change (function.apply host receiver arguments).Raises allowed
    unfold ArrayFunction.apply
    split
    · exact Run.raises_pure _
    · exact Run.raises_onHeap _
    · exact Run.raises_fail (hall _ nofun)
  | string function => exact Run.raises_onHeap _
  | number function => exact Run.raises_pure _
  | math function => exact Run.raises_getHeap.bind fun _ => Run.raises_pure _
  | console function =>
    intro machine fault hf
    cases function <;> cases hf
  | host handler => exact Run.raises_ofStep hh.call

theorem Instance.raises_invoke (hall : Fault.AllowsOthers allowed) (hh : host.Raises allowed)
    (content : Instance) (heap : Heap) (name : String) (arguments : List Value) :
    (content.invoke host heap name arguments).Raises allowed := by
  unfold Instance.invoke
  split
  · exact Run.raises_ofStep hh.invoke
  · split
    · exact Run.raises_pure _
    · split
      · exact Run.raises_pure _
      · exact Run.raises_fail (hall _ nofun)

theorem raises_construct (hall : Fault.AllowsOthers allowed) (hh : host.Raises allowed)
    (name : String) (class_ : ObjectRef) (arguments : List Value) :
    (construct host name class_ arguments).Raises allowed := by
  refine Run.raises_getHeap.bind fun heap => ?_
  have hbuild (maker : Maker) (className : String) :
      (maker.build host className arguments).Raises allowed := by
    cases maker with
    | plain => exact Run.raises_pure _
    | number => exact Run.raises_getHeap.bind fun _ => Run.raises_pure _
    | boolean => exact Run.raises_pure _
    | host handler => exact Run.raises_ofStep hh.construct
  dsimp only
  split
  · split
    · exact (hbuild _ _).bind fun _ => Run.raises_onHeap _
    · exact (Run.raises_fail (hall (.notConstructable name) nofun)).bind fun _ => Run.raises_onHeap _
  · exact (Run.raises_pure _).bind fun _ => Run.raises_onHeap _

theorem raises_callValue (hall : Fault.AllowsOthers allowed) (hh : host.Raises allowed)
    (hb : below.Raises allowed) (location : Location) (function receiver : Value)
    (arguments : List Value) (method : Option String) (scope : Scope) :
    (callValue host below location function receiver arguments method scope).Raises
      fun error => allowed error.fault := by
  have hnot : (Run.fail ⟨.notAFunction, location⟩ : Run σ Error Value).Raises
      fun error => allowed error.fault :=
    Run.raises_fail (hall _ nofun)
  refine Run.raises_getHeap.bind fun heap => ?_
  split
  · exact (Native.raises_apply hall hh hb _ _ _).locate _
  · exact hb.enter _ _ _ _ _
  · split
    · exact (Instance.raises_invoke hall hh _ _ _ _).locate _
    · exact hnot
  · exact hnot

theorem raises_applyBinary (hall : Fault.AllowsOthers allowed) (heap : Heap) (operator : BinaryOp)
    (a b : Value) (location : Location) :
    (Run.locate location (Run.ofExcept (heap.applyBinary host operator a b)) :
      Run σ Error Value).Raises fun error => allowed error.fault := by
  refine (Run.raises_ofExcept fun fault hf => hall fault ?_).locate location
  obtain ⟨operand, rfl⟩ := Heap.fault_applyBinary hf
  exact nofun

theorem raises_pause (hall : Fault.AllowsOthers allowed) (location : Location) :
    (Run.locate location (Run.checkpoint host)).Raises fun error => allowed error.fault :=
  (Run.raises_checkpoint hall host).locate location

mutual

theorem Expr.raises_eval (hall : Fault.AllowsOthers allowed) (hh : host.Raises allowed)
    (hb : below.Raises allowed) (value : Expr) :
    (value.eval host below context).Raises fun error => allowed error.fault := by
  cases value with
  | literal _ _ =>
    rw [Expr.eval]
    exact Run.raises_pure _
  | identifier _ _ | receiver _ =>
    rw [Expr.eval]
    exact Run.raises_getHeap.bind fun _ => Run.raises_pure _
  | dot _ target _ =>
    rw [Expr.eval]
    refine (target.raises_eval hall hh hb).bind fun _ => ?_
    exact Run.raises_getHeap.bind fun _ => Run.raises_pure _
  | subscript _ target index =>
    rw [Expr.eval]
    refine (target.raises_eval hall hh hb).bind fun _ => ?_
    refine (index.raises_eval hall hh hb).bind fun _ => ?_
    exact Run.raises_getHeap.bind fun _ => Run.raises_pure _
  | unary _ operator operand =>
    rw [Expr.eval]
    refine (operand.raises_eval hall hh hb).bind fun _ => ?_
    refine Run.raises_getHeap.bind fun _ => ?_
    cases operator <;> exact Run.raises_pure _
  | binary _ operator left right =>
    rw [Expr.eval]
    refine (left.raises_eval hall hh hb).bind fun _ => ?_
    refine (right.raises_eval hall hh hb).bind fun _ => ?_
    exact Run.raises_getHeap.bind fun heap => raises_applyBinary hall heap _ _ _ _
  | logical _ operator left right =>
    rw [Expr.eval]
    refine (left.raises_eval hall hh hb).bind fun _ => ?_
    have hright := (right.raises_eval hall hh hb).bind fun b =>
      Run.raises_pure (Value.boolean b.isTruthy)
    split
    · exact Run.raises_pure _
    · exact Run.raises_pure _
    · exact hright
  | ternary _ test yes no =>
    rw [Expr.eval]
    refine (test.raises_eval hall hh hb).bind fun test => ?_
    cases test.isTruthy
    · exact no.raises_eval hall hh hb
    · exact yes.raises_eval hall hh hb
  | assign _ target value =>
    rw [Expr.eval]
    refine (value.raises_eval hall hh hb).bind fun _ => ?_
    exact (target.raises_store hall hh hb _).bind fun _ => Run.raises_pure _
  | update _ operator target value givesOld =>
    rw [Expr.eval]
    refine (target.raises_eval hall hh hb).bind fun _ => ?_
    refine (value.raises_eval hall hh hb).bind fun _ => ?_
    refine Run.raises_getHeap.bind fun heap => ?_
    refine (raises_applyBinary hall heap _ _ _ _).bind fun _ => ?_
    exact (target.raises_store hall hh hb _).bind fun _ => Run.raises_pure _
  | call offset callee arguments =>
    have hcall (function receiver : Value) (method : Option String) :
        (do
          Run.locate (context.at offset) (Run.checkpoint host)
          let arguments ← Expr.evalAll host below context arguments
          callValue host below (context.at offset) function receiver arguments method
            context.scope : Run σ Error Value).Raises fun error => allowed error.fault := by
      refine (raises_pause hall _).bind fun _ => ?_
      refine (Expr.raises_evalAll hall hh hb arguments).bind fun _ => ?_
      exact raises_callValue hall hh hb _ _ _ _ _ _
    by_cases hplain : callee.isPlain
    · rw [Expr.eval_call hplain]
      exact (callee.raises_eval hall hh hb).bind fun function => hcall _ _ _
    · cases callee with
      | dot _ target name =>
        rw [Expr.eval]
        refine (target.raises_eval hall hh hb).bind fun receiver => ?_
        refine Run.raises_get.bind fun machine => ?_
        have hmethod : (Run.ofExcept (machine.heap.method host machine.root receiver name) :
            Run σ Fault Value).Raises allowed := by
          refine Run.raises_ofExcept fun fault hf => hall fault ?_
          rw [Heap.fault_method hf]
          exact nofun
        exact (hmethod.locate _).bind fun function => hcall _ _ _
      | _ => exact absurd rfl hplain
  | construct offset path arguments =>
    rw [Expr.eval]
    refine Run.raises_getHeap.bind fun heap => ?_
    have harguments := Expr.raises_evalAll hall hh hb arguments
    split
    · split
      · refine (Run.raises_onHeap _).bind fun _ => ?_
        refine (raises_pause hall _).bind fun _ => ?_
        refine harguments.bind fun _ => ?_
        exact (hb.enter _ _ _ _ _).bind fun _ => Run.raises_pure _
      · refine (raises_pause hall _).bind fun _ => ?_
        refine harguments.bind fun _ => ?_
        exact (raises_construct hall hh _ _ _).locate _
    · exact Run.raises_pure _
  | object _ entries =>
    rw [Expr.eval]
    exact (Expr.raises_evalEntries hall hh hb entries).bind fun _ => Run.raises_onHeap _
  | array _ elements =>
    rw [Expr.eval]
    exact (Expr.raises_evalAll hall hh hb elements).bind fun _ => Run.raises_onHeap _
  | function _ literal =>
    rw [Expr.eval]
    exact Run.raises_onHeap _

theorem Expr.raises_store (hall : Fault.AllowsOthers allowed) (hh : host.Raises allowed)
    (hb : below.Raises allowed) (target : Expr) (value : Value) :
    (target.store host below context value).Raises fun error => allowed error.fault := by
  cases target with
  | identifier _ _ =>
    rw [Expr.store]
    exact Run.raises_modifyHeap _
  | dot _ target name =>
    rw [Expr.store]
    refine (target.raises_eval hall hh hb).bind fun container => ?_
    refine (Run.raises_changeHeap fun heap fault hf => hall fault ?_).locate _
    rw [Heap.fault_setProperty hf]
    exact nofun
  | subscript _ target index =>
    rw [Expr.store]
    refine (target.raises_eval hall hh hb).bind fun container => ?_
    refine (index.raises_eval hall hh hb).bind fun key => ?_
    refine (Run.raises_hold container key).bind fun _ => ?_
    refine (Run.raises_changeHeap fun heap fault hf => hall fault ?_).locate _
    obtain rfl | ⟨index, rfl⟩ := Heap.fault_setSubscript hf <;> exact nofun
  | _ =>
    rw [Expr.store]
    all_goals first | exact Run.raises_fail (hall _ nofun) | nofun

theorem Expr.raises_evalAll (hall : Fault.AllowsOthers allowed) (hh : host.Raises allowed)
    (hb : below.Raises allowed) (values : List Expr) :
    (Expr.evalAll host below context values).Raises fun error => allowed error.fault := by
  cases values with
  | nil =>
    rw [Expr.evalAll]
    exact Run.raises_pure _
  | cons first rest =>
    rw [Expr.evalAll]
    refine (first.raises_eval hall hh hb).bind fun _ => ?_
    exact (Expr.raises_evalAll hall hh hb rest).bind fun _ => Run.raises_pure _

theorem Expr.raises_evalEntries (hall : Fault.AllowsOthers allowed) (hh : host.Raises allowed)
    (hb : below.Raises allowed) (entries : List (String × Expr)) :
    (Expr.evalEntries host below context entries).Raises fun error => allowed error.fault := by
  cases entries with
  | nil =>
    rw [Expr.evalEntries]
    exact Run.raises_pure _
  | cons entry rest =>
    obtain ⟨key, first⟩ := entry
    rw [Expr.evalEntries]
    refine (first.raises_eval hall hh hb).bind fun _ => ?_
    exact (Expr.raises_evalEntries hall hh hb rest).bind fun _ => Run.raises_pure _

end

theorem Expr.raises_holds (hall : Fault.AllowsOthers allowed) (hh : host.Raises allowed)
    (hb : below.Raises allowed) (test : Option Expr) :
    (Expr.holds host below context test).Raises fun error => allowed error.fault := by
  cases test with
  | none => exact Run.raises_pure _
  | some test => exact (test.raises_eval hall hh hb).bind fun _ => Run.raises_pure _

theorem Loop.raises_round {checkpoint step : Run σ Error Unit} {test : Run σ Error Bool}
    {body : Run σ Error Completion} {testLast : Bool} {allowed : Error → Prop}
    (hcheckpoint : checkpoint.Raises allowed) (htest : test.Raises allowed)
    (hbody : body.Raises allowed) (hstep : step.Raises allowed) :
    (Loop.round checkpoint test body step testLast).Raises allowed := by
  refine hcheckpoint.bind fun _ => ?_
  cases testLast with
  | false =>
    refine htest.bind fun enters => ?_
    cases enters with
    | false => exact Run.raises_pure _
    | true =>
      refine hbody.bind fun completion => ?_
      cases completion with
      | returned _ | broke => exact Run.raises_pure _
      | continued | normal => exact hstep.bind fun _ => Run.raises_pure _
  | true =>
    refine hbody.bind fun completion => ?_
    cases completion with
    | returned _ | broke => exact Run.raises_pure _
    | continued => exact hstep.bind fun _ => Run.raises_pure _
    | normal => exact hstep.bind fun _ => htest.bind fun _ => Run.raises_pure _

mutual

theorem Stmt.raises_exec (hall : Fault.AllowsOthers allowed) (hh : host.Raises allowed)
    (hb : below.Raises allowed) (item : Stmt) :
    (item.exec host below fuel context).Raises fun error => allowed error.fault := by
  cases item with
  | empty _ | breakLoop _ | continueLoop _ =>
    rw [Stmt.exec]
    exact Run.raises_pure _
  | block _ body =>
    rw [Stmt.exec]
    exact Stmt.raises_execAll hall hh hb body
  | branch _ test yes no =>
    cases no with
    | none =>
      rw [Stmt.exec]
      refine (test.raises_eval hall hh hb).bind fun test => ?_
      cases test.isTruthy
      · exact Run.raises_pure _
      · exact yes.raises_exec hall hh hb
    | some no =>
      rw [Stmt.exec]
      refine (test.raises_eval hall hh hb).bind fun test => ?_
      cases test.isTruthy
      · exact no.raises_exec hall hh hb
      · exact yes.raises_exec hall hh hb
  | declare _ name initial =>
    cases initial with
    | none =>
      rw [Stmt.exec]
      refine (Run.raises_pure _).bind fun _ => ?_
      exact (Run.raises_modifyHeap _).bind fun _ => Run.raises_pure _
    | some value =>
      rw [Stmt.exec]
      refine (value.raises_eval hall hh hb).bind fun _ => ?_
      exact (Run.raises_modifyHeap _).bind fun _ => Run.raises_pure _
  | loop _ initial test step body _ =>
    have htest : (Expr.holds host below context test).Raises fun error => allowed error.fault :=
      Expr.raises_holds hall hh hb test
    have hbody := body.raises_exec hall hh hb
    have hstep : (match step with
        | some step => do
          let _ ← step.eval host below context
          return ()
        | none => return () : Run σ Error Unit).Raises fun error => allowed error.fault := by
      cases step with
      | none => exact Run.raises_pure _
      | some step => exact (step.raises_eval hall hh hb).bind fun _ => Run.raises_pure _
    cases initial with
    | none =>
      refine (Run.raises_pure _).bind fun _ => ?_
      exact (Loop.raises_round (raises_pause hall _) htest hbody hstep).repeatUntil _
    | some initial =>
      have hinitial := initial.raises_exec hall hh hb
      refine hinitial.bind fun _ => ?_
      exact (Loop.raises_round (raises_pause hall _) htest hbody hstep).repeatUntil _
  | giveBack _ value =>
    cases value with
    | none =>
      rw [Stmt.exec]
      exact Run.raises_pure _
    | some value =>
      rw [Stmt.exec]
      exact (value.raises_eval hall hh hb).bind fun _ => Run.raises_pure _
  | expression value =>
    rw [Stmt.exec]
    exact (value.raises_eval hall hh hb).bind fun _ => Run.raises_pure _

theorem Stmt.raises_execAll (hall : Fault.AllowsOthers allowed) (hh : host.Raises allowed)
    (hb : below.Raises allowed) (items : List Stmt) :
    (Stmt.execAll host below fuel context items).Raises fun error => allowed error.fault := by
  cases items with
  | nil =>
    rw [Stmt.execAll]
    exact Run.raises_pure _
  | cons first rest =>
    rw [Stmt.execAll]
    refine (first.raises_exec hall hh hb).bind fun completion => ?_
    cases completion with
    | normal => exact Stmt.raises_execAll hall hh hb rest
    | _ => exact Run.raises_pure _

end

theorem Closure.raises_run (hall : Fault.AllowsOthers allowed) (hh : host.Raises allowed)
    (hb : below.Raises allowed) (closure : Closure) (receiver : Value) (arguments : List Value)
    (scope : Scope) :
    (closure.run host below fuel receiver arguments scope).Raises
      fun error => allowed error.fault := by
  refine (Run.raises_onHeap _).bind fun frame => ?_
  refine (Stmt.raises_execAll hall hh hb _).bind fun completion => ?_
  cases completion <;> exact Run.raises_pure _

end Walk

end ScriptEngine
