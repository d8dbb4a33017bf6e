import ScriptEngine.Proofs.Loops.WhileForm
import ScriptEngine.Proofs.Untimed.Lasting

-- A walk lasts: the same tree, walked without a clock, does what the tree does. So it is for every
-- level of a run.

namespace ScriptEngine

variable {σ α : Type}

-- The levels below with a clock and without one.
structure Below.Lasts (below untimed : Below σ) : Prop where
  enter (location : Location) (closure : Closure) (receiver : Value) (arguments : List Value)
    (scope : Scope) :
    (below.enter location closure receiver arguments scope).Lasts
      (untimed.enter location closure receiver arguments scope)
  script (form : ScriptForm) (text : String) :
    (below.script form text).Lasts (untimed.script form text)

section Walk

variable {host : Host σ} {below untimed : Below σ} {context : Context} {fuel : Nat}

theorem ArrayFunction.onArray_untimed (function : ArrayFunction) (ref : ArrayRef)
    (arguments : List Value) :
    function.onArray host.untimed ref arguments = function.onArray host ref arguments := by
  have hsame (heap : Heap) (a b : Value) :
      heap.strictlyEqual host.untimed a b = heap.strictlyEqual host a b :=
    heap.strictlyEqual_congr rfl a b
  funext heap
  cases function <;> simp [onArray, position?, hsame]

theorem Native.lasts_apply (hh : host.Timeless) (hb : below.Lasts untimed) (native : Native)
    (receiver : Value) (arguments : List Value) :
    (native.apply host below receiver arguments).Lasts
      (native.apply host.untimed untimed receiver arguments) := by
  cases native with
  | global function =>
    refine Run.lasts_getHeap.bind fun heap => ?_
    cases function with
    | exec => exact hb.script .statements _
    | eval => exact hb.script .expression _
    | parseInt =>
      dsimp only
      split <;> exact Run.lasts_pure _
    | _ => exact Run.lasts_pure _
  | object function => exact Run.lasts_onHeap _
  | array function =>
    change (function.apply host receiver arguments).Lasts
      (function.apply host.untimed receiver arguments)
    unfold ArrayFunction.apply
    split
    · exact Run.lasts_pure _
    · rw [ArrayFunction.onArray_untimed]
      exact Run.lasts_onHeap _
    · exact Run.lasts_fail _
  | string function => exact Run.lasts_onHeap _
  | number function => exact Run.lasts_pure _
  | math function => exact Run.lasts_getHeap.bind fun heap => Run.lasts_pure _
  | console function =>
    intro machine readings
    refine .inr ⟨readings, ?_⟩
    cases function <;> rfl
  | host handler => exact Run.lasts_ofStep (hh.call handler receiver arguments)

theorem Instance.lasts_invoke (hh : host.Timeless) (content : Instance) (heap : Heap)
    (name : String) (arguments : List Value) :
    (content.invoke host heap name arguments).Lasts
      (content.invoke host.untimed heap name arguments) := by
  unfold Instance.invoke
  split
  · exact Run.lasts_ofStep (hh.invoke _ _ _ _ _)
  · split
    · exact Run.lasts_pure _
    · split
      · exact Run.lasts_pure _
      · exact Run.lasts_fail _

theorem Maker.lasts_build (hh : host.Timeless) (maker : Maker) (className : String)
    (arguments : List Value) :
    (maker.build host className arguments).Lasts (maker.build host.untimed className arguments) := by
  cases maker with
  | plain => exact Run.lasts_pure _
  | number => exact Run.lasts_getHeap.bind fun heap => Run.lasts_pure _
  | boolean => exact Run.lasts_pure _
  | host handler => exact Run.lasts_ofStep (hh.construct handler className arguments)

theorem lasts_construct (hh : host.Timeless) (name : String) (class_ : ObjectRef)
    (arguments : List Value) :
    (construct host name class_ arguments).Lasts
      (construct host.untimed name class_ arguments) := by
  refine Run.lasts_getHeap.bind fun heap => ?_
  dsimp only
  split
  · split
    · exact (Maker.lasts_build hh _ _ _).bind fun _ => Run.lasts_onHeap _
    · exact (Run.lasts_fail _).bind fun _ => Run.lasts_onHeap _
  · exact (Run.lasts_pure _).bind fun _ => Run.lasts_onHeap _

theorem lasts_callValue (hh : host.Timeless) (hb : below.Lasts untimed) (location : Location)
    (function receiver : Value) (arguments : List Value) (method : Option String)
    (scope : Scope) :
    (callValue host below location function receiver arguments method scope).Lasts
      (callValue host.untimed untimed location function receiver arguments method scope) := by
  refine Run.lasts_getHeap.bind fun heap => ?_
  cases heap.nativeOf? function with
  | some native => exact (native.lasts_apply hh hb receiver arguments).locate location
  | none =>
    cases heap.closureOf? function with
    | some closure => exact hb.enter location closure receiver arguments scope
    | none =>
      cases method with
      | none => exact Run.lasts_fail _
      | some name =>
        cases heap.instanceOf? receiver with
        | none => exact Run.lasts_fail _
        | some content =>
          dsimp only
          rw [content.hasMethod_congr (show host.untimed.hasMethod = host.hasMethod from rfl)]
          split
          · exact (content.lasts_invoke hh heap name arguments).locate location
          · exact Run.lasts_fail _

theorem lasts_applyBinary (heap : Heap) (operator : BinaryOp) (a b : Value)
    (location : Location) :
    (Run.locate location (Run.ofExcept (heap.applyBinary host operator a b)) :
      Run σ Error Value).Lasts
      (Run.locate location (Run.ofExcept (heap.applyBinary host.untimed operator a b))) := by
  rw [heap.applyBinary_congr (show host.untimed.sameValue = host.sameValue from rfl)]
  exact (Run.lasts_ofExcept _).locate location

mutual

theorem Expr.lasts_eval (hh : host.Timeless) (hb : below.Lasts untimed) (value : Expr) :
    (value.eval host below context).Lasts (value.eval host.untimed untimed context) := by
  cases value with
  | literal _ _ =>
    rw [Expr.eval, Expr.eval]
    exact Run.lasts_pure _
  | identifier _ _ | receiver _ =>
    rw [Expr.eval, Expr.eval]
    exact Run.lasts_getHeap.bind fun heap => Run.lasts_pure _
  | dot _ target name =>
    rw [Expr.eval, Expr.eval]
    refine (target.lasts_eval hh hb).bind fun value => ?_
    exact Run.lasts_getHeap.bind fun heap => Run.lasts_pure _
  | subscript _ target index =>
    rw [Expr.eval, Expr.eval]
    refine (target.lasts_eval hh hb).bind fun value => ?_
    refine (index.lasts_eval hh hb).bind fun key => ?_
    exact Run.lasts_getHeap.bind fun heap => Run.lasts_pure _
  | unary _ operator operand =>
    rw [Expr.eval, Expr.eval]
    refine (operand.lasts_eval hh hb).bind fun value => ?_
    refine Run.lasts_getHeap.bind fun heap => ?_
    cases operator <;> exact Run.lasts_pure _
  | binary _ operator left right =>
    rw [Expr.eval, Expr.eval]
    refine (left.lasts_eval hh hb).bind fun a => ?_
    refine (right.lasts_eval hh hb).bind fun b => ?_
    exact Run.lasts_getHeap.bind fun heap => lasts_applyBinary heap operator a b _
  | logical _ operator left right =>
    rw [Expr.eval, Expr.eval]
    refine (left.lasts_eval hh hb).bind fun a => ?_
    split
    · exact Run.lasts_pure _
    · exact Run.lasts_pure _
    · exact (right.lasts_eval hh hb).bind fun b => Run.lasts_pure _
  | ternary _ test yes no =>
    rw [Expr.eval, Expr.eval]
    refine (test.lasts_eval hh hb).bind fun test => ?_
    cases test.isTruthy
    · exact no.lasts_eval hh hb
    · exact yes.lasts_eval hh hb
  | assign _ target value =>
    rw [Expr.eval, Expr.eval]
    refine (value.lasts_eval hh hb).bind fun value => ?_
    exact (target.lasts_store hh hb value).bind fun _ => Run.lasts_pure value
  | update _ operator target value givesOld =>
    rw [Expr.eval, Expr.eval]
    refine (target.lasts_eval hh hb).bind fun old => ?_
    refine (value.lasts_eval hh hb).bind fun other => ?_
    refine Run.lasts_getHeap.bind fun heap => ?_
    refine (lasts_applyBinary heap operator old other _).bind fun new => ?_
    exact (target.lasts_store hh hb new).bind fun _ => Run.lasts_pure _
  | call offset callee arguments =>
    have htail (function receiver : Value) (method : Option String) :
        (do
          Run.locate (context.at offset) (Run.checkpoint host)
          let arguments ← Expr.evalAll host below context arguments
          callValue host below (context.at offset) function receiver arguments method
            context.scope : Run σ Error Value).Lasts
        (do
          Run.locate (context.at offset) (Run.checkpoint host.untimed)
          let arguments ← Expr.evalAll host.untimed untimed context arguments
          callValue host.untimed untimed (context.at offset) function receiver arguments method
            context.scope) := by
      refine ((Run.lasts_checkpoint host).locate _).bind fun _ => ?_
      refine (Expr.lasts_evalAll hh hb arguments).bind fun arguments => ?_
      exact lasts_callValue hh hb _ function receiver arguments method context.scope
    by_cases hplain : callee.isPlain
    · rw [Expr.eval_call hplain, Expr.eval_call hplain]
      exact (callee.lasts_eval hh hb).bind fun function => htail _ _ _
    · cases callee with
      | dot _ target name =>
        rw [Expr.eval, Expr.eval]
        refine (target.lasts_eval hh hb).bind fun receiver => ?_
        refine Run.lasts_get_bind fun machine readings => ?_
        have hmethod : (Run.ofExcept (machine.heap.method host machine.root receiver name) :
            Run σ Fault Value).Lasts
            (Run.ofExcept (machine.heap.method host.untimed machine.root receiver name)) := by
          rw [Heap.method_congr (show host.untimed.hasMethod = host.hasMethod from rfl)]
          exact Run.lasts_ofExcept _
        exact (hmethod.locate _).bind fun function => htail _ _ _
      | _ => exact absurd rfl hplain
  | construct offset path arguments =>
    rw [Expr.eval, Expr.eval]
    refine Run.lasts_getHeap.bind fun heap => ?_
    have harguments : (Expr.evalAll host below context arguments).Lasts
        (Expr.evalAll host.untimed untimed context arguments) :=
      Expr.lasts_evalAll hh hb arguments
    have hpause := (Run.lasts_checkpoint host).locate (context.at offset)
    cases context.path heap path with
    | object class_ =>
      dsimp only
      cases (heap.object class_).closure? with
      | some closure =>
        refine (Run.lasts_onHeap _).bind fun instance_ => ?_
        refine hpause.bind fun _ => ?_
        refine harguments.bind fun arguments => ?_
        refine (hb.enter _ closure _ arguments _).bind fun _ => ?_
        exact Run.lasts_pure instance_
      | none =>
        refine hpause.bind fun _ => ?_
        refine harguments.bind fun arguments => ?_
        exact (lasts_construct hh _ class_ arguments).locate _
    | _ => exact Run.lasts_pure _
  | object _ entries =>
    rw [Expr.eval, Expr.eval]
    exact (Expr.lasts_evalEntries hh hb entries).bind fun entries => Run.lasts_onHeap _
  | array _ elements =>
    rw [Expr.eval, Expr.eval]
    exact (Expr.lasts_evalAll hh hb elements).bind fun elements => Run.lasts_onHeap _
  | function _ literal =>
    rw [Expr.eval, Expr.eval]
    exact Run.lasts_onHeap _

theorem Expr.lasts_store (hh : host.Timeless) (hb : below.Lasts untimed) (target : Expr)
    (value : Value) :
    (target.store host below context value).Lasts
      (target.store host.untimed untimed context value) := by
  cases target with
  | identifier _ name =>
    rw [Expr.store, Expr.store]
    exact Run.lasts_modifyHeap _
  | dot _ target name =>
    rw [Expr.store, Expr.store]
    refine (target.lasts_eval hh hb).bind fun container => ?_
    exact (Run.lasts_changeHeap _).locate _
  | subscript _ target index =>
    rw [Expr.store, Expr.store]
    refine (target.lasts_eval hh hb).bind fun container => ?_
    refine (index.lasts_eval hh hb).bind fun key => ?_
    exact (Run.lasts_hold container key).bind fun _ => (Run.lasts_changeHeap _).locate _
  | _ =>
    rw [Expr.store, Expr.store]
    all_goals first | exact Run.lasts_fail _ | nofun

theorem Expr.lasts_evalAll (hh : host.Timeless) (hb : below.Lasts untimed) (values : List Expr) :
    (Expr.evalAll host below context values).Lasts
      (Expr.evalAll host.untimed untimed context values) := by
  cases values with
  | nil =>
    rw [Expr.evalAll, Expr.evalAll]
    exact Run.lasts_pure _
  | cons first rest =>
    rw [Expr.evalAll, Expr.evalAll]
    refine (first.lasts_eval hh hb).bind fun value => ?_
    exact (Expr.lasts_evalAll hh hb rest).bind fun values => Run.lasts_pure _

theorem Expr.lasts_evalEntries (hh : host.Timeless) (hb : below.Lasts untimed)
    (entries : List (String × Expr)) :
    (Expr.evalEntries host below context entries).Lasts
      (Expr.evalEntries host.untimed untimed context entries) := by
  cases entries with
  | nil =>
    rw [Expr.evalEntries, Expr.evalEntries]
    exact Run.lasts_pure _
  | cons entry rest =>
    obtain ⟨key, first⟩ := entry
    rw [Expr.evalEntries, Expr.evalEntries]
    refine (first.lasts_eval hh hb).bind fun value => ?_
    exact (Expr.lasts_evalEntries hh hb rest).bind fun values => Run.lasts_pure _

end

theorem Expr.lasts_holds (hh : host.Timeless) (hb : below.Lasts untimed) (test : Option Expr) :
    (Expr.holds host below context test).Lasts (Expr.holds host.untimed untimed context test) := by
  cases test with
  | none => exact Run.lasts_pure true
  | some test => exact (test.lasts_eval hh hb).bind fun value => Run.lasts_pure _

theorem Loop.lasts_round {checkpoint checkpoint' step step' : Run σ Error Unit}
    {test test' : Run σ Error Bool} {body body' : Run σ Error Completion} {testLast : Bool}
    (hcheckpoint : checkpoint.Lasts checkpoint') (htest : test.Lasts test')
    (hbody : body.Lasts body') (hstep : step.Lasts step') :
    (Loop.round checkpoint test body step testLast).Lasts
      (Loop.round checkpoint' test' body' step' testLast) := by
  refine hcheckpoint.bind fun _ => ?_
  cases testLast with
  | false =>
    refine htest.bind fun enters => ?_
    cases enters with
    | false => exact Run.lasts_pure _
    | true =>
      refine hbody.bind fun completion => ?_
      cases completion with
      | returned _ | broke => exact Run.lasts_pure _
      | continued | normal => exact hstep.bind fun _ => Run.lasts_pure _
  | true =>
    refine hbody.bind fun completion => ?_
    cases completion with
    | returned _ | broke => exact Run.lasts_pure _
    | continued => exact hstep.bind fun _ => Run.lasts_pure _
    | normal => exact hstep.bind fun _ => htest.bind fun again => Run.lasts_pure _

mutual

theorem Stmt.lasts_exec (hh : host.Timeless) (hb : below.Lasts untimed) (item : Stmt) :
    (item.exec host below fuel context).Lasts (item.exec host.untimed untimed fuel context) := by
  cases item with
  | empty _ | breakLoop _ | continueLoop _ =>
    rw [Stmt.exec, Stmt.exec]
    exact Run.lasts_pure _
  | block _ body =>
    rw [Stmt.exec, Stmt.exec]
    exact Stmt.lasts_execAll hh hb body
  | branch _ test yes no =>
    cases no with
    | none =>
      simp only [Stmt.exec]
      refine (test.lasts_eval hh hb).bind fun test => ?_
      cases test.isTruthy
      · exact Run.lasts_pure _
      · exact yes.lasts_exec hh hb
    | some no =>
      simp only [Stmt.exec]
      refine (test.lasts_eval hh hb).bind fun test => ?_
      cases test.isTruthy
      · exact no.lasts_exec hh hb
      · exact yes.lasts_exec hh hb
  | declare _ name initial =>
    cases initial with
    | none =>
      simp only [Stmt.exec]
      refine (Run.lasts_pure Value.undefined).bind fun value => ?_
      exact (Run.lasts_modifyHeap _).bind fun _ => Run.lasts_pure _
    | some value =>
      simp only [Stmt.exec]
      refine (value.lasts_eval hh hb).bind fun value => ?_
      exact (Run.lasts_modifyHeap _).bind fun _ => Run.lasts_pure _
  | loop offset initial test step body testLast =>
    have hstep : (Expr.evalStep host below context step).Lasts
        (Expr.evalStep host.untimed untimed context step) := by
      cases step with
      | none => exact Run.lasts_pure ()
      | some step => exact (step.lasts_eval hh hb).bind fun _ => Run.lasts_pure ()
    have hinitial : (Stmt.execInitial host below fuel context initial).Lasts
        (Stmt.execInitial host.untimed untimed fuel context initial) := by
      cases initial with
      | none => exact Run.lasts_pure _
      | some initial => exact initial.lasts_exec hh hb
    rw [Stmt.exec_loop, Stmt.exec_loop]
    refine hinitial.bind fun _ => Run.Lasts.repeatUntil ?_ fuel
    exact Loop.lasts_round ((Run.lasts_checkpoint host).locate _) (Expr.lasts_holds hh hb test)
      (body.lasts_exec hh hb) hstep
  | giveBack _ value =>
    cases value with
    | none =>
      simp only [Stmt.exec]
      exact Run.lasts_pure _
    | some value =>
      simp only [Stmt.exec]
      exact (value.lasts_eval hh hb).bind fun value => Run.lasts_pure _
  | expression value =>
    rw [Stmt.exec, Stmt.exec]
    exact (value.lasts_eval hh hb).bind fun _ => Run.lasts_pure _

theorem Stmt.lasts_execAll (hh : host.Timeless) (hb : below.Lasts untimed) (items : List Stmt) :
    (Stmt.execAll host below fuel context items).Lasts
      (Stmt.execAll host.untimed untimed fuel context items) := by
  cases items with
  | nil =>
    rw [Stmt.execAll, Stmt.execAll]
    exact Run.lasts_pure _
  | cons first rest =>
    rw [Stmt.execAll, Stmt.execAll]
    refine (first.lasts_exec hh hb).bind fun completion => ?_
    cases completion with
    | normal => exact Stmt.lasts_execAll hh hb rest
    | _ => exact Run.lasts_pure _

end

theorem Closure.lasts_run (hh : host.Timeless) (hb : below.Lasts untimed) (closure : Closure)
    (receiver : Value) (arguments : List Value) (scope : Scope) :
    (closure.run host below fuel receiver arguments scope).Lasts
      (closure.run host.untimed untimed fuel receiver arguments scope) := by
  refine (Run.lasts_onHeap _).bind fun frame => ?_
  refine (Stmt.lasts_execAll hh hb _).bind fun completion => ?_
  cases completion <;> exact Run.lasts_pure _

theorem ScriptForm.lasts_run (hh : host.Timeless) (hb : below.Lasts untimed) (form : ScriptForm)
    (text : String) :
    (form.run host below fuel text).Lasts (form.run host.untimed untimed fuel text) := by
  refine Run.lasts_get_bind fun machine readings => ?_
  cases form with
  | expression =>
    dsimp only
    cases Expr.read text with
    | ok value => exact (value.lasts_eval hh hb).embed
    | error error => exact Run.lasts_fail _
  | statements =>
    dsimp only
    cases Program.read text with
    | ok program => exact (Stmt.lasts_execAll hh hb program.body).embed.bind fun _ => Run.lasts_pure _
    | error error => exact Run.lasts_fail _

-- All levels of a run.
theorem Below.lasts_ofFuel (hh : host.Timeless) (fuel : Nat) :
    (Below.ofFuel host fuel).Lasts (Below.ofFuel host.untimed fuel) := by
  induction fuel with
  | zero => exact ⟨fun _ _ _ _ _ => Run.lasts_spent, fun _ _ => Run.lasts_spent⟩
  | succ fuel ih =>
    rw [Below.ofFuel_succ, Below.ofFuel_succ]
    exact {
      enter := fun location closure receiver arguments scope =>
        (closure.lasts_run hh ih receiver arguments scope).deeper location
      script := fun form text => form.lasts_run hh ih text }

end Walk

end ScriptEngine
