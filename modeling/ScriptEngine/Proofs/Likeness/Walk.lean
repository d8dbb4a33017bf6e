import ScriptEngine.Proofs.Faults.Raising
import ScriptEngine.Proofs.Likeness.Idle

-- A walk follows on an idle machine: the tree without its places, walked without a clock, does what
-- the tree does. So it is for every level of a run.

namespace ScriptEngine

variable {σ α : Type}

def Context.unplaced (context : Context) : Context :=
  ⟨"", context.scope⟩

-- A script without places, run against the global object of an idle machine.
def ScriptForm.runIdle (host : Host σ) (below : Below σ) (fuel : Nat) (form : ScriptForm)
    (text : String) : Run σ Fault Value := do
  let machine ← Run.get
  let context : Context := ⟨"", .ofRoot machine.root⟩
  match form with
  | .expression =>
    match Expr.read text with
    | .ok value => Run.embed ((value.relabel .nowhere).eval host.idle below context)
    | .error error => Run.fail (.nested .nowhere (.malformed error.fault))
  | .statements =>
    match Program.read text with
    | .ok program => do
      let _ ← Run.embed
        (Stmt.execAll host.idle below fuel context (Stmt.relabelAll .nowhere program.body))
      return .undefined
    | .error error => Run.fail (.nested .nowhere (.malformed error.fault))

-- The levels of an idle run.
def Below.idle (host : Host σ) : Nat → Below σ
  | 0 => { enter := fun _ _ _ _ _ => Run.spent, script := fun _ _ => Run.spent }
  | fuel + 1 =>
    { enter := fun _ closure receiver arguments scope => Run.deeper .nowhere
        (closure.run host.idle (Below.idle host fuel) fuel receiver arguments scope)
      script := fun form text => form.runIdle host (Below.idle host fuel) fuel text }

structure Below.Follows (below idle : Below σ) : Prop where
  enter (location : Location) (closure : Closure) (receiver : Value) (arguments : List Value)
    (scope : Scope) :
    (below.enter location closure receiver arguments scope).Follows id
      (idle.enter .nowhere closure.unplaced receiver arguments scope)
  script (form : ScriptForm) (text : String) :
    (below.script form text).Follows id (idle.script form text)

section Walk

variable {host : Host σ} {below idle : Below σ} {context : Context} {fuel : Nat}

theorem Native.follows_apply (hh : host.Indifferent) (hb : below.Follows idle) (native : Native)
    (receiver : Value) (arguments : List Value) :
    (native.apply host below receiver arguments).Follows id
      (native.apply host.idle idle receiver arguments) := by
  cases native with
  | global function =>
    refine Run.follows_getHeap.bind fun heap => ?_
    cases function with
    | exec =>
      simp only [Heap.toText_unplaced]
      exact hb.script .statements _
    | eval =>
      simp only [Heap.toText_unplaced]
      exact hb.script .expression _
    | parseInt =>
      simp only [Heap.toText_unplaced]
      split <;> exact Run.follows_pure id _
    | _ =>
      simp only [Heap.typeOf_unplaced, Heap.toNumber_unplaced]
      exact Run.follows_pure id _
  | object function =>
    exact Run.follows_onHeap (f := id) (function.apply_unplaced receiver arguments)
  | array function =>
    change (function.apply host receiver arguments).Follows id
      (function.apply host.idle receiver arguments)
    unfold ArrayFunction.apply
    split
    · exact Run.follows_pure id _
    · exact Run.follows_onHeap (function.onArray_unplaced hh.sameValue _ arguments)
    · exact Run.follows_fail id rfl
  | string function =>
    exact Run.follows_onHeap (f := id) (function.apply_unplaced receiver arguments)
  | number function => exact Run.follows_pure id _
  | math function =>
    refine Run.follows_getHeap.bind fun heap => ?_
    rw [function.apply_unplaced]
    exact Run.follows_pure id _
  | console function =>
    intro machine readings
    have htext : machine.heap.unplaced.toText = machine.heap.toText := by
      funext value
      exact machine.heap.toText_unplaced value
    refine .inr ⟨readings, ?_⟩
    change function.apply arguments (machine.idle readings) = _
    unfold ConsoleFunction.apply
    dsimp only [Machine.idle]
    rw [htext]
    cases function <;> rfl
  | host handler => exact Run.follows_ofStep (hh.call handler receiver arguments)

theorem Instance.follows_invoke (hh : host.Indifferent) (content : Instance) (heap : Heap)
    (name : String) (arguments : List Value) :
    (content.invoke host heap name arguments).Follows id
      (content.invoke host.idle heap.unplaced name arguments) := by
  unfold Instance.invoke
  split
  · exact Run.follows_ofStep (hh.invoke _ _ _ _ _)
  · simp only [Heap.toText_unplaced]
    split
    · exact Run.follows_pure id _
    · split
      · exact Run.follows_pure id _
      · exact Run.follows_fail id rfl

theorem Maker.follows_build (hh : host.Indifferent) (maker : Maker) (className : String)
    (arguments : List Value) :
    (maker.build host className arguments).Follows Object.unplaced
      (maker.build host.idle className arguments) := by
  cases maker with
  | plain => exact Run.follows_pure Object.unplaced _
  | number =>
    refine Run.follows_getHeap.bind fun heap => ?_
    rw [Maker.wrappedNumber_unplaced]
    exact Run.follows_pure Object.unplaced _
  | boolean => exact Run.follows_pure Object.unplaced _
  | host handler => exact Run.follows_ofStep (hh.construct handler className arguments)

theorem follows_construct (hh : host.Indifferent) (name : String) (class_ : ObjectRef)
    (arguments : List Value) :
    (construct host name class_ arguments).Follows id
      (construct host.idle name class_ arguments) := by
  have hadd (object : Object) :
      (Run.onHeap fun heap => heap.addObjectValue (object.set "prototype" (.object class_)) :
        Run σ Fault Value).Follows id
        (Run.onHeap fun heap =>
          heap.addObjectValue (object.unplaced.set "prototype" (.object class_))) :=
    Run.follows_onHeap fun heap => by
      simp [Heap.addObjectValue, ← Object.set_unplaced]
  refine Run.follows_getHeap.bind fun heap => ?_
  simp only [Heap.object_unplaced, Object.nativeClass?_unplaced]
  split
  · split
    · exact (Maker.follows_build hh _ _ _).bind hadd
    · exact (Run.follows_fail Object.unplaced rfl).bind hadd
  · exact (Run.follows_pure Object.unplaced _).bind hadd

theorem follows_callValue (hh : host.Indifferent) (hb : below.Follows idle) (location : Location)
    (function receiver : Value) (arguments : List Value) (method : Option String)
    (scope : Scope) :
    (callValue host below location function receiver arguments method scope).Follows id
      (callValue host.idle idle .nowhere function receiver arguments method scope) := by
  have hnot : (Run.fail ⟨.notAFunction, location⟩ : Run σ Error Value).Follows id
      (Run.fail ⟨.notAFunction, .nowhere⟩) :=
    Run.follows_fail id rfl
  refine Run.follows_getHeap.bind fun heap => ?_
  rw [heap.nativeOf?_unplaced, heap.closureOf?_unplaced, heap.instanceOf?_unplaced]
  cases heap.nativeOf? function with
  | some native => exact (native.follows_apply hh hb receiver arguments).locate location
  | none =>
    cases heap.closureOf? function with
    | some closure => exact hb.enter location closure receiver arguments scope
    | none =>
      cases method with
      | none => exact hnot
      | some name =>
        cases heap.instanceOf? receiver with
        | none => exact hnot
        | some content =>
          have hmethod : content.hasMethod host.idle name = content.hasMethod host name :=
            content.hasMethod_congr rfl name
          dsimp only [Option.map_none]
          rw [hmethod]
          split
          · exact (content.follows_invoke hh heap name arguments).locate location
          · exact hnot

theorem follows_applyBinary (hh : host.Indifferent) (heap : Heap) (operator : BinaryOp)
    (a b : Value) (location : Location) :
    (Run.locate location (Run.ofExcept (heap.applyBinary host operator a b)) :
      Run σ Error Value).Follows id
      (Run.locate .nowhere (Run.ofExcept (heap.unplaced.applyBinary host.idle operator a b))) := by
  have hidle : heap.unplaced.applyBinary host.idle operator a b =
      heap.applyBinary host operator a b :=
    (Heap.applyBinary_congr rfl heap.unplaced operator a b).trans
      (heap.applyBinary_unplaced hh.sameValue operator a b)
  rw [hidle]
  refine (Run.follows_ofExcept fun fault hf => ?_).locate location
  obtain ⟨operand, rfl⟩ := Heap.fault_applyBinary hf
  rfl

mutual

theorem Expr.follows_eval (hh : host.Indifferent) (hb : below.Follows idle) (value : Expr) :
    (value.eval host below context).Follows id
      ((value.relabel .nowhere).eval host.idle idle context.unplaced) := by
  cases value with
  | literal _ _ =>
    rw [Expr.relabel, Expr.eval, Expr.eval]
    exact Run.follows_pure id _
  | identifier _ name =>
    rw [Expr.relabel, Expr.eval, Expr.eval]
    refine Run.follows_getHeap.bind fun heap => ?_
    rw [Scope.find?_unplaced]
    exact Run.follows_pure id _
  | receiver _ =>
    rw [Expr.relabel, Expr.eval, Expr.eval]
    refine Run.follows_getHeap.bind fun heap => ?_
    rw [Scope.receiver_unplaced]
    exact Run.follows_pure id _
  | dot _ target name =>
    rw [Expr.relabel, Expr.eval, Expr.eval]
    refine (target.follows_eval hh hb).bind fun value => ?_
    refine Run.follows_getHeap.bind fun heap => ?_
    rw [Heap.property_unplaced]
    exact Run.follows_pure id _
  | subscript _ target index =>
    rw [Expr.relabel, Expr.eval, Expr.eval]
    refine (target.follows_eval hh hb).bind fun value => ?_
    refine (index.follows_eval hh hb).bind fun key => ?_
    refine Run.follows_getHeap.bind fun heap => ?_
    rw [Heap.subscript_unplaced]
    exact Run.follows_pure id _
  | unary _ operator operand =>
    rw [Expr.relabel, Expr.eval, Expr.eval]
    refine (operand.follows_eval hh hb).bind fun value => ?_
    refine Run.follows_getHeap.bind fun heap => ?_
    rw [Heap.typeOf_unplaced]
    cases operator <;> exact Run.follows_pure id _
  | binary _ operator left right =>
    rw [Expr.relabel, Expr.eval, Expr.eval]
    refine (left.follows_eval hh hb).bind fun a => ?_
    refine (right.follows_eval hh hb).bind fun b => ?_
    exact Run.follows_getHeap.bind fun heap => follows_applyBinary hh heap operator a b _
  | logical _ operator left right =>
    rw [Expr.relabel, Expr.eval, Expr.eval]
    refine (left.follows_eval hh hb).bind fun a => ?_
    rw [id_eq]
    split
    · exact Run.follows_pure id _
    · exact Run.follows_pure id _
    · exact (right.follows_eval hh hb).bind fun b => Run.follows_pure id _
  | ternary _ test yes no =>
    rw [Expr.relabel, Expr.eval, Expr.eval]
    refine (test.follows_eval hh hb).bind fun test => ?_
    rw [id_eq]
    cases test.isTruthy
    · exact no.follows_eval hh hb
    · exact yes.follows_eval hh hb
  | assign _ target value =>
    rw [Expr.relabel, Expr.eval, Expr.eval]
    refine (value.follows_eval hh hb).bind fun value => ?_
    exact (target.follows_store hh hb value).bind fun _ => Run.follows_pure id value
  | update _ operator target value givesOld =>
    rw [Expr.relabel, Expr.eval, Expr.eval]
    refine (target.follows_eval hh hb).bind fun old => ?_
    refine (value.follows_eval hh hb).bind fun other => ?_
    refine Run.follows_getHeap.bind fun heap => ?_
    refine (follows_applyBinary hh heap operator old other _).bind fun new => ?_
    exact (target.follows_store hh hb new).bind fun _ => Run.follows_pure id _
  | call offset callee arguments =>
    have htail (function receiver : Value) (method : Option String) :
        (do
          Run.locate (context.at offset) (Run.checkpoint host)
          let arguments ← Expr.evalAll host below context arguments
          callValue host below (context.at offset) function receiver arguments method
            context.scope : Run σ Error Value).Follows id
        (do
          Run.locate .nowhere (Run.checkpoint host.idle)
          let arguments ← Expr.evalAll host.idle idle context.unplaced
            (Expr.relabelAll .nowhere arguments)
          callValue host.idle idle .nowhere function receiver arguments method
            context.scope) := by
      refine ((Run.follows_checkpoint host).locate _).bind fun _ => ?_
      refine (Expr.follows_evalAll hh hb arguments).bind fun arguments => ?_
      exact follows_callValue hh hb _ function receiver arguments method context.scope
    by_cases hplain : callee.isPlain
    · have hidle : (callee.relabel .nowhere).isPlain := by
        cases callee <;> first | rfl | cases hplain
      rw [Expr.relabel, Expr.eval_call hplain, Expr.eval_call hidle]
      exact (callee.follows_eval hh hb).bind fun function => htail _ _ _
    · cases callee with
      | dot _ target name =>
        rw [Expr.relabel, Expr.relabel, Expr.eval, Expr.eval]
        refine (target.follows_eval hh hb).bind fun receiver => ?_
        refine Run.Follows.get_bind fun machine readings => ?_
        have hidle : machine.heap.unplaced.method host.idle machine.root receiver name =
            machine.heap.method host machine.root receiver name :=
          (Heap.method_congr rfl machine.heap.unplaced machine.root receiver name).trans
            (machine.heap.method_unplaced host machine.root receiver name)
        have hmethod : (Run.ofExcept (machine.heap.method host machine.root receiver name) :
            Run σ Fault Value).Follows id
            (Run.ofExcept (machine.heap.unplaced.method host.idle machine.root receiver name)) := by
          rw [hidle]
          refine Run.follows_ofExcept fun fault hf => ?_
          rw [Heap.fault_method hf]
          rfl
        exact (hmethod.locate _).bind fun function => htail _ _ _
      | _ => exact absurd rfl hplain
  | construct offset path arguments =>
    rw [Expr.relabel, Expr.eval, Expr.eval]
    refine Run.follows_getHeap.bind fun heap => ?_
    have hpath : context.unplaced.path heap.unplaced path = context.path heap path :=
      context.path_unplaced heap path
    have harguments : (Expr.evalAll host below context arguments).Follows id
        (Expr.evalAll host.idle idle context.unplaced (Expr.relabelAll .nowhere arguments)) :=
      Expr.follows_evalAll hh hb arguments
    have hpause := (Run.follows_checkpoint host).locate (context.at offset)
    rw [hpath]
    cases context.path heap path with
    | object class_ =>
      dsimp only
      rw [Heap.object_unplaced, Object.closure?_unplaced, Object.forFunction_unplaced]
      cases (heap.object class_).closure? with
      | some closure =>
        have hfresh : (Run.onHeap (·.addObjectValue (heap.object class_).forFunction) :
            Run σ Error Value).Follows id
            (Run.onHeap (·.addObjectValue (heap.object class_).forFunction)) :=
          Run.follows_onHeap fun other => by
            have hadd := other.addObjectValue_unplaced (heap.object class_).forFunction
            rwa [Object.unplaced_forFunction] at hadd
        refine hfresh.bind fun instance_ => ?_
        refine hpause.bind fun _ => ?_
        refine harguments.bind fun arguments => ?_
        refine (hb.enter _ closure _ arguments _).bind fun _ => ?_
        exact Run.follows_pure id instance_
      | none =>
        refine hpause.bind fun _ => ?_
        refine harguments.bind fun arguments => ?_
        exact (follows_construct hh _ class_ arguments).locate _
    | _ => exact Run.follows_pure id _
  | object _ entries =>
    rw [Expr.relabel, Expr.eval, Expr.eval]
    refine (Expr.follows_evalEntries hh hb entries).bind fun entries => ?_
    exact Run.follows_onHeap fun heap =>
      heap.addObjectValue_unplaced ⟨.ordinary, Properties.empty.setAll entries⟩
  | array _ elements =>
    rw [Expr.relabel, Expr.eval, Expr.eval]
    refine (Expr.follows_evalAll hh hb elements).bind fun elements => ?_
    exact Run.follows_onHeap fun heap => heap.addArrayValue_unplaced elements
  | function _ literal =>
    rw [Expr.relabel, Expr.eval, Expr.eval]
    exact Run.follows_onHeap fun heap =>
      heap.addObjectValue_unplaced ⟨.function ⟨context.script, literal⟩, .empty⟩

theorem Expr.follows_store (hh : host.Indifferent) (hb : below.Follows idle) (target : Expr)
    (value : Value) :
    (target.store host below context value).Follows id
      ((target.relabel .nowhere).store host.idle idle context.unplaced value) := by
  cases target with
  | identifier _ name =>
    rw [Expr.relabel, Expr.store, Expr.store]
    exact Run.follows_modifyHeap (context.scope.assign_unplaced · name value)
  | dot _ target name =>
    rw [Expr.relabel, Expr.store, Expr.store]
    refine (target.follows_eval hh hb).bind fun container => ?_
    refine (Run.follows_changeHeap (·.setProperty_unplaced container name value)
      fun heap fault hf => ?_).locate _
    rw [Heap.fault_setProperty hf]
    rfl
  | subscript _ target index =>
    rw [Expr.relabel, Expr.store, Expr.store]
    refine (target.follows_eval hh hb).bind fun container => ?_
    refine (index.follows_eval hh hb).bind fun key => ?_
    refine (Run.follows_hold container key).bind fun _ => ?_
    refine (Run.follows_changeHeap (·.setSubscript_unplaced container key value)
      fun heap fault hf => ?_).locate _
    obtain rfl | ⟨index, rfl⟩ := Heap.fault_setSubscript hf <;> rfl
  | _ =>
    rw [Expr.relabel, Expr.store, Expr.store]
    all_goals first | exact Run.follows_fail id rfl | nofun

theorem Expr.follows_evalAll (hh : host.Indifferent) (hb : below.Follows idle)
    (values : List Expr) :
    (Expr.evalAll host below context values).Follows id
      (Expr.evalAll host.idle idle context.unplaced (Expr.relabelAll .nowhere values)) := by
  cases values with
  | nil =>
    rw [Expr.relabelAll, Expr.evalAll, Expr.evalAll]
    exact Run.follows_pure id _
  | cons first rest =>
    rw [Expr.relabelAll, Expr.evalAll, Expr.evalAll]
    refine (first.follows_eval hh hb).bind fun value => ?_
    exact (Expr.follows_evalAll hh hb rest).bind fun values => Run.follows_pure id _

theorem Expr.follows_evalEntries (hh : host.Indifferent) (hb : below.Follows idle)
    (entries : List (String × Expr)) :
    (Expr.evalEntries host below context entries).Follows id
      (Expr.evalEntries host.idle idle context.unplaced
        (Expr.relabelEntries .nowhere entries)) := by
  cases entries with
  | nil =>
    rw [Expr.relabelEntries, Expr.evalEntries, Expr.evalEntries]
    exact Run.follows_pure id _
  | cons entry rest =>
    obtain ⟨key, first⟩ := entry
    rw [Expr.relabelEntries, Expr.evalEntries, Expr.evalEntries]
    refine (first.follows_eval hh hb).bind fun value => ?_
    exact (Expr.follows_evalEntries hh hb rest).bind fun values => Run.follows_pure id _

end

theorem Expr.follows_holds (hh : host.Indifferent) (hb : below.Follows idle)
    (test : Option Expr) :
    (Expr.holds host below context test).Follows id
      (Expr.holds host.idle idle context.unplaced (test.map (Expr.relabel .nowhere))) := by
  cases test with
  | none => exact Run.follows_pure id true
  | some test => exact (test.follows_eval hh hb).bind fun value => Run.follows_pure id _

-- What a loop does between two rounds.
theorem Expr.follows_advance (hh : host.Indifferent) (hb : below.Follows idle)
    (context : Context) (step : Option Expr) :
    (match step with
      | some step => do
        let _ ← step.eval host below context
        return ()
      | none => return () : Run σ Error Unit).Follows id
      (match step.map (Expr.relabel .nowhere) with
        | some step => do
          let _ ← step.eval host.idle idle context.unplaced
          return ()
        | none => return ()) := by
  cases step with
  | none => exact Run.follows_pure id ()
  | some step => exact (step.follows_eval hh hb).bind fun _ => Run.follows_pure id ()

theorem Loop.follows_round {checkpoint checkpoint' step step' : Run σ Error Unit}
    {test test' : Run σ Error Bool} {body body' : Run σ Error Completion} {testLast : Bool}
    (hcheckpoint : checkpoint.Follows id checkpoint') (htest : test.Follows id test')
    (hbody : body.Follows id body') (hstep : step.Follows id step') :
    (Loop.round checkpoint test body step testLast).Follows id
      (Loop.round checkpoint' test' body' step' testLast) := by
  refine hcheckpoint.bind fun _ => ?_
  cases testLast with
  | false =>
    refine htest.bind fun enters => ?_
    cases enters with
    | false => exact Run.follows_pure id _
    | true =>
      refine hbody.bind fun completion => ?_
      cases completion with
      | returned _ | broke => exact Run.follows_pure id _
      | continued | normal => exact hstep.bind fun _ => Run.follows_pure id _
  | true =>
    refine hbody.bind fun completion => ?_
    cases completion with
    | returned _ | broke => exact Run.follows_pure id _
    | continued => exact hstep.bind fun _ => Run.follows_pure id _
    | normal => exact hstep.bind fun _ => htest.bind fun again => Run.follows_pure id _

mutual

theorem Stmt.follows_exec (hh : host.Indifferent) (hb : below.Follows idle) (item : Stmt) :
    (item.exec host below fuel context).Follows id
      ((item.relabel .nowhere).exec host.idle idle fuel context.unplaced) := by
  cases item with
  | empty _ | breakLoop _ | continueLoop _ =>
    rw [Stmt.relabel, Stmt.exec, Stmt.exec]
    exact Run.follows_pure id _
  | block _ body =>
    rw [Stmt.relabel, Stmt.exec, Stmt.exec]
    exact Stmt.follows_execAll hh hb body
  | branch _ test yes no =>
    cases no with
    | none =>
      rw [Stmt.relabel, Stmt.exec, Stmt.exec]
      refine (test.follows_eval hh hb).bind fun test => ?_
      rw [id_eq]
      cases test.isTruthy
      · exact Run.follows_pure id _
      · exact yes.follows_exec hh hb
    | some no =>
      rw [Stmt.relabel, Stmt.exec, Stmt.exec]
      refine (test.follows_eval hh hb).bind fun test => ?_
      rw [id_eq]
      cases test.isTruthy
      · exact no.follows_exec hh hb
      · exact yes.follows_exec hh hb
  | declare _ name initial =>
    have hdeclare (value : Value) :
        (Run.modifyHeap (context.scope.declare name value) : Run σ Error Unit).Follows id
          (Run.modifyHeap (context.unplaced.scope.declare name value)) :=
      Run.follows_modifyHeap (context.scope.declare_unplaced · name value)
    cases initial with
    | none =>
      rw [Stmt.relabel, Stmt.exec, Stmt.exec]
      refine (Run.follows_pure id Value.undefined).bind fun value => ?_
      exact (hdeclare value).bind fun _ => Run.follows_pure id _
    | some value =>
      rw [Stmt.relabel, Stmt.exec, Stmt.exec]
      refine (value.follows_eval hh hb).bind fun value => ?_
      exact (hdeclare value).bind fun _ => Run.follows_pure id _
  | loop offset initial test step body testLast =>
    have htest : (Expr.holds host below context test).Follows id _ :=
      Expr.follows_holds hh hb test
    have hbody : (body.exec host below fuel context).Follows id _ := body.follows_exec hh hb
    have hstep := Expr.follows_advance hh hb context step
    have hpause := (Run.follows_checkpoint host).locate (context.at offset)
    rw [Stmt.relabel_loop]
    cases initial with
    | none =>
      refine (Run.follows_pure id Completion.normal).bind fun _ => ?_
      exact (Loop.follows_round hpause htest hbody hstep).repeatUntil _
    | some initial =>
      refine (initial.follows_exec hh hb).bind fun _ => ?_
      exact (Loop.follows_round hpause htest hbody hstep).repeatUntil _
  | giveBack _ value =>
    cases value with
    | none =>
      rw [Stmt.relabel, Stmt.exec, Stmt.exec]
      exact Run.follows_pure id _
    | some value =>
      rw [Stmt.relabel, Stmt.exec, Stmt.exec]
      exact (value.follows_eval hh hb).bind fun value => Run.follows_pure id _
  | expression value =>
    rw [Stmt.relabel, Stmt.exec, Stmt.exec]
    exact (value.follows_eval hh hb).bind fun _ => Run.follows_pure id _

theorem Stmt.follows_execAll (hh : host.Indifferent) (hb : below.Follows idle)
    (items : List Stmt) :
    (Stmt.execAll host below fuel context items).Follows id
      (Stmt.execAll host.idle idle fuel context.unplaced (Stmt.relabelAll .nowhere items)) := by
  cases items with
  | nil =>
    rw [Stmt.relabelAll, Stmt.execAll, Stmt.execAll]
    exact Run.follows_pure id _
  | cons first rest =>
    rw [Stmt.relabelAll, Stmt.execAll, Stmt.execAll]
    refine (first.follows_exec hh hb).bind fun completion => ?_
    cases completion with
    | normal => exact Stmt.follows_execAll hh hb rest
    | _ => exact Run.follows_pure id _

end

-- The body of a function.
theorem Closure.follows_run (hh : host.Indifferent) (hb : below.Follows idle)
    (closure : Closure) (receiver : Value) (arguments : List Value) (scope : Scope) :
    (closure.run host below fuel receiver arguments scope).Follows id
      (closure.unplaced.run host.idle idle fuel receiver arguments scope) := by
  have hframe : (Run.onHeap (·.addObject (closure.frame receiver arguments)) :
      Run σ Error ObjectRef).Follows id
      (Run.onHeap (·.addObject (closure.unplaced.frame receiver arguments))) := by
    rw [closure.frame_unplaced]
    exact Run.follows_onHeap fun heap => heap.addObject_unplaced (closure.frame receiver arguments)
  have hbody (frame : ObjectRef) :
      (Stmt.execAll host below fuel ⟨closure.script, scope.child frame⟩
        closure.function.body).Follows id
      (Stmt.execAll host.idle idle fuel ⟨"", scope.child frame⟩ closure.unplaced.function.body) := by
    rw [Closure.unplaced, Function.relabel_body]
    exact Stmt.follows_execAll hh hb _
  refine hframe.bind fun frame => ?_
  refine (hbody frame).bind fun completion => ?_
  cases completion <;> exact Run.follows_pure id _

-- The text of a script.
theorem ScriptForm.follows_run (hh : host.Indifferent) (hb : below.Follows idle)
    (form : ScriptForm) (text : String) :
    (form.run host below fuel text).Follows id (form.runIdle host idle fuel text) := by
  refine Run.Follows.get_bind fun machine readings => ?_
  cases form with
  | expression =>
    dsimp only
    cases Expr.read text with
    | ok value => exact (value.follows_eval hh hb).embed
    | error error => exact Run.follows_fail id rfl
  | statements =>
    dsimp only
    cases Program.read text with
    | ok program =>
      refine (Stmt.follows_execAll hh hb program.body).embed.bind fun _ => ?_
      exact Run.follows_pure id _
    | error error => exact Run.follows_fail id rfl

-- All levels of a run.
theorem Below.follows_idle (hh : host.Indifferent) (fuel : Nat) :
    (Below.ofFuel host fuel).Follows (Below.idle host fuel) := by
  induction fuel with
  | zero => exact ⟨fun _ _ _ _ _ => Run.follows_spent id, fun _ _ => Run.follows_spent id⟩
  | succ fuel ih =>
    rw [Below.ofFuel_succ]
    exact {
      enter := fun location closure receiver arguments scope =>
        (closure.follows_run hh ih receiver arguments scope).deeper location
      script := fun form text => form.follows_run hh ih text }

end Walk

end ScriptEngine
