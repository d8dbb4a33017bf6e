import ScriptEngine.Proofs.Pairing.Matching
import ScriptEngine.Proofs.Runs.Entry
import ScriptEngine.Proofs.Source.Functions

-- Walks along the same tree match if the levels below them do. This is the one place where pairings
-- are carried through every form of expression and statement.

namespace ScriptEngine

open Pairing

variable {σ τ : Type}

-- The native function that runs scripts of a form.
def ScriptForm.native : ScriptForm → Native
  | expression => .global .eval
  | statements => .global .exec

-- The levels below match for calls from a scope.
structure Pairing.Covers (pairing : Pairing σ τ) (below : Below σ) (other : Below τ)
    (scope : Scope) : Prop where
  enter (location : Location) (closure : Closure) (receiver : Value) (arguments : List Value) :
    pairing.accepts closure → pairing.Matches
      (below.enter location closure receiver arguments scope)
      (other.enter location closure receiver arguments scope)
  script (form : ScriptForm) (text : String) : pairing.admits form.native →
    pairing.Matches (below.script form text) (other.script form text)

section Host

variable {host : Host σ} {other : Host τ}

-- Equality and methods ask a host for nothing but its answers about instances.
theorem Heap.strictlyEqual_congr (h : other.sameValue = host.sameValue) (heap : Heap)
    (a b : Value) : heap.strictlyEqual other a b = heap.strictlyEqual host a b := by
  have hinstance (content : Instance) (value : Value) :
      content.sameValue other heap value = content.sameValue host heap value := by
    cases content with
    | number _ => rfl
    | boolean _ => rfl
    | host handler className primitive => exact congrArg (· handler primitive heap value) h
  unfold strictlyEqual wrapperSame
  simp only [hinstance]

theorem Heap.applyBinary_congr (h : other.sameValue = host.sameValue) (heap : Heap)
    (operator : BinaryOp) (a b : Value) :
    heap.applyBinary other operator a b = heap.applyBinary host operator a b := by
  unfold applyBinary
  simp only [strictlyEqual_congr h]

theorem Instance.hasMethod_congr (h : other.hasMethod = host.hasMethod) (content : Instance)
    (name : String) : content.hasMethod other name = content.hasMethod host name := by
  cases content with
  | number _ => rfl
  | boolean _ => rfl
  | host handler className primitive => exact congrArg (· handler name) h

theorem Heap.method_congr (h : other.hasMethod = host.hasMethod) (heap : Heap) (root : ObjectRef)
    (target : Value) (name : String) :
    heap.method other root target name = heap.method host root target name := by
  unfold method
  simp only [Instance.hasMethod_congr h]

end Host

mutual

-- Whether a tree has a loop. Bodies of function literals are trees of their own.
def Stmt.hasLoop : Stmt → Bool
  | .loop _ _ _ _ _ _ => true
  | .block _ body => Stmt.anyLoop body
  | .branch _ _ yes no => yes.hasLoop || (match no with | some no => no.hasLoop | none => false)
  | .empty _ | .declare _ _ _ | .giveBack _ _ | .breakLoop _ | .continueLoop _
  | .expression _ => false

def Stmt.anyLoop : List Stmt → Bool
  | [] => false
  | first :: rest => first.hasLoop || Stmt.anyLoop rest

end

section Walk

variable {pairing : Pairing σ τ} {host : Host σ} {other : Host τ} {below : Below σ}
  {below' : Below τ} {context : Context} {fuel fuel' : Nat}

theorem Heap.change_setSubscript {accepts : Closure → Prop} {heap heap' : Heap}
    {container key value : Value} (h : heap.setSubscript container key value = .ok heap') :
    heap.Change accepts heap' := by
  unfold setSubscript setElement at h
  split at h
  · split at h
    · split at h
      · cases h
      · cases h
        exact .modifyArray _ _
    · cases h
  · cases h
    exact .set _ _ _
  · cases h

theorem Native.matches_apply (hp : pairing.Mild host other) {scope : Scope}
    (hb : pairing.Covers below below' scope) (native : Native) (hn : pairing.admits native)
    (receiver : Value) (arguments : List Value) :
    pairing.Matches (native.apply host below receiver arguments)
      (native.apply other below' receiver arguments) := by
  cases native with
  | global function =>
    refine hp.getHeap_bind fun heap _ _ => ?_
    cases function with
    | exec => exact hb.script .statements _ hn
    | eval => exact hb.script .expression _ hn
    | parseInt =>
      dsimp only
      split <;> exact matches_pure _
    | _ => exact matches_pure _
  | object function =>
    change pairing.Matches (Run.onHeap (function.apply receiver arguments))
      (Run.onHeap (function.apply receiver arguments))
    refine hp.onHeap fun heap => ?_
    cases function with
    | toString => exact .nothing
    | hasOwnProperty => cases receiver <;> exact .nothing
    | keys => exact .addArray _
  | array function =>
    change pairing.Matches (function.apply host receiver arguments)
      (function.apply other receiver arguments)
    have hon (ref : ArrayRef) : function.onArray other ref arguments =
        function.onArray host ref arguments := by
      funext heap
      cases function <;>
        simp [ArrayFunction.onArray, ArrayFunction.position?, Heap.strictlyEqual_congr hp.sameValue]
    have hchange (ref : ArrayRef) (heap : Heap) :
        heap.Growth pairing.accepts (function.onArray host ref arguments heap).2 := by
      cases function with
      | push => exact .modifyArray ref _
      | pop => exact .modifyArray ref _
      | indexOf =>
        unfold ArrayFunction.onArray
        dsimp only
        split <;> exact .nothing
      | _ => exact .nothing
    unfold ArrayFunction.apply
    split
    · exact matches_pure _
    · rw [hon]
      exact hp.onHeap (hchange _)
    · exact matches_fail _
  | string function =>
    change pairing.Matches (Run.onHeap (function.apply receiver arguments))
      (Run.onHeap (function.apply receiver arguments))
    refine hp.onHeap fun heap => ?_
    cases function with
    | split => exact .addArray _
    | charCodeAt =>
      unfold StringFunction.apply
      dsimp only
      split <;> exact .nothing
    | _ => exact .nothing
  | number function => exact matches_pure _
  | math function => exact hp.getHeap_bind fun heap _ _ => matches_pure _
  | console function =>
    intro machine machine' hm
    change pairing.Ends (function.apply arguments machine) (function.apply arguments machine')
    unfold ConsoleFunction.apply
    rw [hp.heap hm]
    cases function with
    | log => exact ends_done (hp.write hm (Transcript.write _))
    | warn => exact ends_done (hp.write hm (Transcript.writeError _))
    | error => exact ends_done (hp.write hm (Transcript.writeError _))
  | host handler => exact hp.call handler receiver arguments

theorem Instance.matches_invoke (hp : pairing.Mild host other) (content : Instance) (heap : Heap)
    (name : String) (arguments : List Value) :
    pairing.Matches (content.invoke host heap name arguments)
      (content.invoke other heap name arguments) := by
  unfold Instance.invoke
  split
  · exact hp.invoke _ _ _ _ _
  · split
    · exact matches_pure _
    · split
      · exact matches_pure _
      · exact matches_fail _

theorem Maker.matches_build (hp : pairing.Mild host other) (maker : Maker) (className : String)
    (arguments : List Value) :
    pairing.Matches (maker.build host className arguments)
      (maker.build other className arguments) := by
  cases maker with
  | plain => exact matches_pure _
  | number => exact hp.getHeap_bind fun heap _ _ => matches_pure _
  | boolean => exact matches_pure _
  | host handler => exact hp.construct handler className arguments

-- No class but those of the host builds functions.
theorem Maker.accepts_build (hp : pairing.Mild host other) (maker : Maker) (className : String)
    (arguments : List Value) {machine : Machine σ} {machine' : Machine τ}
    (hm : pairing.Pairs machine machine') {object : Object}
    (h : (maker.build host className arguments machine).1 = .done object) :
    ∀ closure, object.kind = .function closure → pairing.accepts closure := by
  intro closure hk
  cases maker with
  | plain =>
    cases h
    cases hk
  | number =>
    cases h
    cases hk
  | boolean =>
    cases h
    cases hk
  | host handler =>
    have hbuilt : (host.construct handler className arguments machine).1 = .ok object := by
      rcases hc : host.construct handler className arguments machine with ⟨result, after⟩
      simp only [Maker.build, Run.ofStep, hc] at h
      cases result with
      | ok built =>
        cases h
        rfl
      | error fault => cases h
    exact hp.builds hm hbuilt hk

theorem matches_construct (hp : pairing.Mild host other) (name : String) (class_ : ObjectRef)
    (arguments : List Value) :
    pairing.Matches (construct host name class_ arguments)
      (construct other name class_ arguments) := by
  refine hp.getHeap_bind fun heap _ _ => ?_
  have hadd (object : Object)
      (h : ∀ closure, object.kind = .function closure → pairing.accepts closure) :
      pairing.Matches (Run.onHeap fun heap => heap.addObjectValue
          (object.set "prototype" (.object class_)) : Run σ Fault Value)
        (Run.onHeap fun heap => heap.addObjectValue (object.set "prototype" (.object class_))) :=
    hp.onHeap fun heap => .addObject _ h
  dsimp only
  split
  · next nativeClass _ =>
    split
    · exact (nativeClass.maker.matches_build hp _ _).bind_of
        (fun _ _ hm _ h => nativeClass.maker.accepts_build hp _ _ hm h) hadd
    · exact matches_fail _
  · exact hadd .empty nofun

theorem matches_callValue (hp : pairing.Lawful host other) {scope : Scope}
    (hb : pairing.Covers below below' scope) (location : Location) (function receiver : Value)
    (arguments : List Value) (method : Option String) :
    pairing.Matches (callValue host below location function receiver arguments method scope)
      (callValue other below' location function receiver arguments method scope) := by
  refine hp.getHeap_bind fun heap hclosure hnative => ?_
  cases hn : heap.nativeOf? function with
  | some native =>
    have hadmits : pairing.admits native := by
      cases function with
      | native ref => exact hnative hn
      | _ => cases hn
    exact (native.matches_apply hp.mild hb hadmits receiver arguments).locate
  | none =>
    cases hc : heap.closureOf? function with
    | some closure =>
      have haccepts : pairing.accepts closure := by
        cases function with
        | object ref => exact hclosure hc
        | _ => cases hc
      exact hb.enter location closure receiver arguments haccepts
    | none =>
      cases method with
      | none => exact matches_fail _
      | some name =>
        cases heap.instanceOf? receiver with
        | none => exact matches_fail _
        | some content =>
          dsimp only
          rw [content.hasMethod_congr hp.hasMethod]
          split
          · exact (content.matches_invoke hp.mild heap name arguments).locate
          · exact matches_fail _

mutual

theorem Expr.matches_eval (hp : pairing.Lawful host other)
    (hb : pairing.Covers below below' context.scope) (value : Expr)
    (hf : ∀ literal ∈ value.functions, pairing.accepts ⟨context.script, literal⟩) :
    pairing.Matches (value.eval host below context) (value.eval other below' context) := by
  cases value with
  | literal _ _ =>
    rw [Expr.eval, Expr.eval]
    exact matches_pure _
  | identifier _ _ | receiver _ =>
    rw [Expr.eval, Expr.eval]
    exact hp.getHeap_bind fun heap _ _ => matches_pure _
  | dot _ target _ =>
    rw [Expr.eval, Expr.eval]
    refine (target.matches_eval hp hb hf).bind fun value => ?_
    exact hp.getHeap_bind fun heap _ _ => matches_pure _
  | subscript _ target index =>
    simp only [Expr.functions, List.forall_mem_append] at hf
    rw [Expr.eval, Expr.eval]
    refine (target.matches_eval hp hb hf.1).bind fun value => ?_
    refine (index.matches_eval hp hb hf.2).bind fun key => ?_
    exact hp.getHeap_bind fun heap _ _ => matches_pure _
  | unary _ operator operand =>
    rw [Expr.eval, Expr.eval]
    refine (operand.matches_eval hp hb hf).bind fun value => ?_
    refine hp.getHeap_bind fun heap _ _ => ?_
    cases operator <;> exact matches_pure _
  | binary _ operator left right =>
    simp only [Expr.functions, List.forall_mem_append] at hf
    rw [Expr.eval, Expr.eval]
    refine (left.matches_eval hp hb hf.1).bind fun a => ?_
    refine (right.matches_eval hp hb hf.2).bind fun b => ?_
    refine hp.getHeap_bind fun heap _ _ => ?_
    rw [heap.applyBinary_congr hp.sameValue]
    exact (matches_ofExcept _).locate
  | logical _ operator left right =>
    simp only [Expr.functions, List.forall_mem_append] at hf
    rw [Expr.eval, Expr.eval]
    refine (left.matches_eval hp hb hf.1).bind fun a => ?_
    have hright := (right.matches_eval hp hb hf.2).bind fun b =>
      matches_pure (Value.boolean b.isTruthy)
    cases operator with
    | and =>
      cases a.isTruthy
      · exact matches_pure _
      · exact hright
    | or =>
      cases a.isTruthy
      · exact hright
      · exact matches_pure _
  | ternary _ test yes no =>
    simp only [Expr.functions, List.forall_mem_append] at hf
    rw [Expr.eval, Expr.eval]
    refine (test.matches_eval hp hb hf.1.1).bind fun value => ?_
    cases value.isTruthy
    · exact no.matches_eval hp hb hf.2
    · exact yes.matches_eval hp hb hf.1.2
  | assign _ target value =>
    simp only [Expr.functions, List.forall_mem_append] at hf
    rw [Expr.eval, Expr.eval]
    refine (value.matches_eval hp hb hf.2).bind fun value => ?_
    exact (target.matches_store hp hb value hf.1).bind fun _ => matches_pure _
  | update _ operator target value _ =>
    simp only [Expr.functions, List.forall_mem_append] at hf
    rw [Expr.eval, Expr.eval]
    refine (target.matches_eval hp hb hf.1).bind fun old => ?_
    refine (value.matches_eval hp hb hf.2).bind fun operand => ?_
    refine hp.getHeap_bind fun heap _ _ => ?_
    rw [heap.applyBinary_congr hp.sameValue]
    refine (matches_ofExcept _).locate.bind fun new => ?_
    exact (target.matches_store hp hb new hf.1).bind fun _ => matches_pure _
  | call offset callee arguments =>
    simp only [Expr.functions, List.forall_mem_append] at hf
    have htail (function receiver : Value) (method : Option String) :
        pairing.Matches
          (Run.locate (context.at offset) (Run.checkpoint host) >>= fun _ =>
            Expr.evalAll host below context arguments >>= fun arguments =>
              callValue host below (context.at offset) function receiver arguments method
                context.scope)
          (Run.locate (context.at offset) (Run.checkpoint other) >>= fun _ =>
            Expr.evalAll other below' context arguments >>= fun arguments =>
              callValue other below' (context.at offset) function receiver arguments method
                context.scope) := by
      refine hp.checkpoint.locate.bind fun _ => ?_
      refine (Expr.matches_evalAll hp hb arguments hf.2).bind fun arguments => ?_
      exact matches_callValue hp hb _ _ _ _ _
    by_cases hplain : callee.isPlain
    · rw [Expr.eval_call hplain, Expr.eval_call hplain]
      exact (callee.matches_eval hp hb hf.1).bind fun function => htail _ _ _
    · cases callee with
      | dot _ target name =>
        rw [Expr.eval, Expr.eval]
        refine (target.matches_eval hp hb hf.1).bind fun receiver => ?_
        refine hp.get_bind fun machine machine' hheap hroot => ?_
        rw [hheap, hroot, machine.heap.method_congr hp.hasMethod]
        exact (matches_ofExcept _).locate.bind fun function => htail _ _ _
      | _ => exact absurd rfl hplain
  | construct offset path arguments =>
    rw [Expr.eval, Expr.eval]
    refine hp.getHeap_bind fun heap hclosure _ => ?_
    have harguments := Expr.matches_evalAll hp hb arguments hf
    cases context.path heap path with
    | object class_ =>
      dsimp only
      cases hc : (heap.object class_).closure? with
      | some closure =>
        have hplain (closure : Closure) :
            (heap.object class_).forFunction.kind ≠ .function closure := by
          unfold Object.forFunction
          split <;> exact nofun
        have hfresh : pairing.Matches
            (Run.onHeap (·.addObjectValue (heap.object class_).forFunction) : Run σ Error Value)
            (Run.onHeap (·.addObjectValue (heap.object class_).forFunction)) :=
          hp.onHeap fun _ => .addObject _ fun closure hk => absurd hk (hplain closure)
        refine hfresh.bind fun instance_ => ?_
        refine hp.checkpoint.locate.bind fun _ => ?_
        refine harguments.bind fun arguments => ?_
        exact (hb.enter _ closure _ _ (hclosure hc)).bind fun _ => matches_pure _
      | none =>
        refine hp.checkpoint.locate.bind fun _ => ?_
        refine harguments.bind fun arguments => ?_
        exact (matches_construct hp.mild _ _ _).locate
    | _ => exact matches_pure _
  | object _ entries =>
    rw [Expr.eval, Expr.eval]
    refine (Expr.matches_evalEntries hp hb entries hf).bind fun entries => ?_
    exact hp.onHeap fun heap => .addObject _ nofun
  | array _ elements =>
    rw [Expr.eval, Expr.eval]
    refine (Expr.matches_evalAll hp hb elements hf).bind fun elements => ?_
    exact hp.onHeap fun heap => .addArray _
  | function _ literal =>
    have hliteral : pairing.accepts ⟨context.script, literal⟩ := by
      refine hf literal ?_
      cases literal
      exact List.mem_cons_self
    rw [Expr.eval, Expr.eval]
    refine hp.onHeap fun heap => .addObject _ fun closure hk => ?_
    cases hk
    exact hliteral

theorem Expr.matches_store (hp : pairing.Lawful host other)
    (hb : pairing.Covers below below' context.scope) (target : Expr) (value : Value)
    (hf : ∀ literal ∈ target.functions, pairing.accepts ⟨context.script, literal⟩) :
    pairing.Matches (target.store host below context value)
      (target.store other below' context value) := by
  cases target with
  | identifier _ name =>
    rw [Expr.store, Expr.store]
    refine hp.modifyHeap fun heap => ?_
    unfold Scope.assign
    split <;> exact .set _ _ _
  | dot _ target name =>
    rw [Expr.store, Expr.store]
    refine (target.matches_eval hp hb hf).bind fun container => ?_
    refine (hp.changeHeap fun heap heap' h => ?_).locate
    unfold Heap.setProperty at h
    split at h
    · cases h
      exact .set _ _ _
    · cases h
  | subscript _ target index =>
    simp only [Expr.functions, List.forall_mem_append] at hf
    rw [Expr.store, Expr.store]
    refine (target.matches_eval hp hb hf.1).bind fun container => ?_
    refine (index.matches_eval hp hb hf.2).bind fun key => ?_
    refine (hp.hold container key).bind fun _ => ?_
    exact (hp.changeHeap fun heap heap' h => Heap.change_setSubscript h).locate
  | _ =>
    rw [Expr.store, Expr.store]
    all_goals first | exact matches_fail _ | nofun

theorem Expr.matches_evalAll (hp : pairing.Lawful host other)
    (hb : pairing.Covers below below' context.scope) (values : List Expr)
    (hf : ∀ literal ∈ Expr.functionsOfAll values, pairing.accepts ⟨context.script, literal⟩) :
    pairing.Matches (Expr.evalAll host below context values)
      (Expr.evalAll other below' context values) := by
  cases values with
  | nil =>
    rw [Expr.evalAll, Expr.evalAll]
    exact matches_pure _
  | cons first rest =>
    simp only [Expr.functionsOfAll, List.forall_mem_append] at hf
    rw [Expr.evalAll, Expr.evalAll]
    refine (first.matches_eval hp hb hf.1).bind fun value => ?_
    exact (Expr.matches_evalAll hp hb rest hf.2).bind fun values => matches_pure _

theorem Expr.matches_evalEntries (hp : pairing.Lawful host other)
    (hb : pairing.Covers below below' context.scope) (entries : List (String × Expr))
    (hf : ∀ literal ∈ Expr.functionsOfEntries entries,
      pairing.accepts ⟨context.script, literal⟩) :
    pairing.Matches (Expr.evalEntries host below context entries)
      (Expr.evalEntries other below' context entries) := by
  cases entries with
  | nil =>
    rw [Expr.evalEntries, Expr.evalEntries]
    exact matches_pure _
  | cons entry rest =>
    obtain ⟨key, first⟩ := entry
    simp only [Expr.functionsOfEntries, List.forall_mem_append] at hf
    rw [Expr.evalEntries, Expr.evalEntries]
    refine (first.matches_eval hp hb hf.1).bind fun value => ?_
    exact (Expr.matches_evalEntries hp hb rest hf.2).bind fun values => matches_pure _

end

theorem Expr.matches_holds (hp : pairing.Lawful host other)
    (hb : pairing.Covers below below' context.scope) (test : Option Expr)
    (hf : ∀ literal ∈ Expr.functionsOfOption test, pairing.accepts ⟨context.script, literal⟩) :
    pairing.Matches (Expr.holds host below context test)
      (Expr.holds other below' context test) := by
  cases test with
  | none => exact matches_pure _
  | some test => exact (test.matches_eval hp hb hf).bind fun value => matches_pure _

-- What a loop does between two rounds.
theorem Expr.matches_advance (hp : pairing.Lawful host other)
    (hb : pairing.Covers below below' context.scope) (step : Option Expr) :
    (∀ literal ∈ Expr.functionsOfOption step, pairing.accepts ⟨context.script, literal⟩) →
    pairing.Matches
      (match step with
        | some step => do
          let _ ← step.eval host below context
          return ()
        | none => return ())
      (match step with
        | some step => do
          let _ ← step.eval other below' context
          return ()
        | none => return ()) := by
  intro hf
  cases step with
  | none => exact matches_pure _
  | some step => exact (step.matches_eval hp hb hf).bind fun _ => matches_pure _

theorem Loop.matches_round {checkpoint step : Run σ Error Unit}
    {checkpoint' step' : Run τ Error Unit} {test : Run σ Error Bool} {test' : Run τ Error Bool}
    {body : Run σ Error Completion} {body' : Run τ Error Completion} {testLast : Bool}
    (hcheckpoint : pairing.Matches checkpoint checkpoint') (htest : pairing.Matches test test')
    (hbody : pairing.Matches body body') (hstep : pairing.Matches step step') :
    pairing.Matches (Loop.round checkpoint test body step testLast)
      (Loop.round checkpoint' test' body' step' testLast) := by
  refine hcheckpoint.bind fun _ => ?_
  cases testLast with
  | false =>
    refine htest.bind fun enters => ?_
    cases enters with
    | false => exact matches_pure _
    | true =>
      refine hbody.bind fun completion => ?_
      cases completion with
      | returned _ | broke => exact matches_pure _
      | continued | normal => exact hstep.bind fun _ => matches_pure _
  | true =>
    refine hbody.bind fun completion => ?_
    cases completion with
    | returned _ | broke => exact matches_pure _
    | continued => exact hstep.bind fun _ => matches_pure _
    | normal => exact hstep.bind fun _ => htest.bind fun again => matches_pure _

mutual

-- Only a loop looks at the fuel, and so the fuel of the two walks must agree only where there is one.
theorem Stmt.matches_exec (hp : pairing.Lawful host other)
    (hb : pairing.Covers below below' context.scope) (item : Stmt)
    (hl : item.hasLoop = true → fuel' = fuel ∧ pairing.spends)
    (hf : ∀ literal ∈ item.functions, pairing.accepts ⟨context.script, literal⟩) :
    pairing.Matches (item.exec host below fuel context) (item.exec other below' fuel' context) := by
  cases item with
  | empty _ | breakLoop _ | continueLoop _ =>
    rw [Stmt.exec, Stmt.exec]
    exact matches_pure _
  | block _ body =>
    rw [Stmt.exec, Stmt.exec]
    exact Stmt.matches_execAll hp hb body hl hf
  | branch _ test yes no =>
    simp only [Stmt.functions, List.forall_mem_append] at hf
    cases no with
    | none =>
      simp only [Stmt.hasLoop, Bool.or_false] at hl
      rw [Stmt.exec, Stmt.exec]
      refine (test.matches_eval hp hb hf.1.1).bind fun value => ?_
      cases value.isTruthy with
      | true => exact yes.matches_exec hp hb hl hf.1.2
      | false => exact matches_pure _
    | some no =>
      simp only [Stmt.hasLoop, Bool.or_eq_true] at hl
      rw [Stmt.exec, Stmt.exec]
      refine (test.matches_eval hp hb hf.1.1).bind fun value => ?_
      cases value.isTruthy with
      | true => exact yes.matches_exec hp hb (fun h => hl (.inl h)) hf.1.2
      | false => exact no.matches_exec hp hb (fun h => hl (.inr h)) hf.2
  | declare _ name initial =>
    have hdeclare (value : Value) :
        pairing.Matches (Run.modifyHeap (context.scope.declare name value) : Run σ Error Unit)
          (Run.modifyHeap (context.scope.declare name value)) :=
      hp.modifyHeap fun heap => .set _ _ _
    cases initial with
    | none =>
      rw [Stmt.exec, Stmt.exec]
      exact (matches_pure _).bind fun value => (hdeclare value).bind fun _ => matches_pure _
    | some value =>
      rw [Stmt.exec, Stmt.exec]
      refine (value.matches_eval hp hb hf).bind fun value => ?_
      exact (hdeclare value).bind fun _ => matches_pure _
  | loop _ initial test step body _ =>
    obtain ⟨hfuel, hs⟩ := hl rfl
    simp only [Stmt.functions, List.forall_mem_append] at hf
    have htest := Expr.matches_holds hp hb test hf.1.1.2
    have hbody := body.matches_exec hp hb (fun _ => ⟨hfuel, hs⟩) hf.2
    have hstep := Expr.matches_advance hp hb step hf.1.2
    cases initial with
    | none =>
      subst hfuel
      refine (matches_pure _).bind fun _ => ?_
      exact (Loop.matches_round hp.checkpoint.locate htest hbody hstep).repeatUntil hs _
    | some initial =>
      have hinitial := initial.matches_exec hp hb (fun _ => ⟨hfuel, hs⟩) hf.1.1.1
      subst hfuel
      refine hinitial.bind fun _ => ?_
      exact (Loop.matches_round hp.checkpoint.locate htest hbody hstep).repeatUntil hs _
  | giveBack _ value =>
    cases value with
    | none =>
      rw [Stmt.exec, Stmt.exec]
      exact matches_pure _
    | some value =>
      rw [Stmt.exec, Stmt.exec]
      exact (value.matches_eval hp hb hf).bind fun value => matches_pure _
  | expression value =>
    rw [Stmt.exec, Stmt.exec]
    exact (value.matches_eval hp hb hf).bind fun _ => matches_pure _

theorem Stmt.matches_execAll (hp : pairing.Lawful host other)
    (hb : pairing.Covers below below' context.scope) (items : List Stmt)
    (hl : Stmt.anyLoop items = true → fuel' = fuel ∧ pairing.spends)
    (hf : ∀ literal ∈ Stmt.functionsOfAll items, pairing.accepts ⟨context.script, literal⟩) :
    pairing.Matches (Stmt.execAll host below fuel context items)
      (Stmt.execAll other below' fuel' context items) := by
  cases items with
  | nil =>
    rw [Stmt.execAll, Stmt.execAll]
    exact matches_pure _
  | cons first rest =>
    simp only [Stmt.functionsOfAll, List.forall_mem_append] at hf
    simp only [Stmt.anyLoop, Bool.or_eq_true] at hl
    rw [Stmt.execAll, Stmt.execAll]
    refine (first.matches_exec hp hb (fun h => hl (.inl h)) hf.1).bind fun completion => ?_
    cases completion with
    | normal => exact Stmt.matches_execAll hp hb rest (fun h => hl (.inr h)) hf.2
    | _ => exact matches_pure _

end

-- What is asked of a function before its body is walked: its loops and the functions inside.
theorem Closure.matches_run (hp : pairing.Lawful host other) {closure : Closure}
    {receiver : Value} {arguments : List Value} {scope : Scope}
    (hb : ∀ frame, pairing.Covers below below' (scope.child frame))
    (hl : Stmt.anyLoop closure.function.body = true → fuel' = fuel ∧ pairing.spends)
    (hf : ∀ literal ∈ Stmt.functionsOfAll closure.function.body,
      pairing.accepts ⟨closure.script, literal⟩) :
    pairing.Matches (closure.run host below fuel receiver arguments scope)
      (closure.run other below' fuel' receiver arguments scope) := by
  have hframe : pairing.Matches
      (Run.onHeap (·.addObject (closure.frame receiver arguments)) : Run σ Error ObjectRef)
      (Run.onHeap (·.addObject (closure.frame receiver arguments))) :=
    hp.onHeap fun heap => .addObject _ nofun
  refine hframe.bind fun frame => ?_
  have hbody : pairing.Matches
      (Stmt.execAll host below fuel ⟨closure.script, scope.child frame⟩ closure.function.body)
      (Stmt.execAll other below' fuel' ⟨closure.script, scope.child frame⟩
        closure.function.body) :=
    Stmt.matches_execAll hp (hb frame) _ hl hf
  refine hbody.bind fun completion => ?_
  cases completion <;> exact matches_pure _

-- The call of a function, whose body runs one level deeper.
theorem Closure.matches_enter {inner : Pairing σ τ} (hp : inner.Lawful host other)
    {closure : Closure} {location : Location} {receiver : Value} {arguments : List Value}
    {scope : Scope} (hb : ∀ frame, inner.Covers below below' (scope.child frame))
    (hl : Stmt.anyLoop closure.function.body = true → fuel' = fuel ∧ inner.spends)
    (hf : ∀ literal ∈ Stmt.functionsOfAll closure.function.body,
      inner.accepts ⟨closure.script, literal⟩)
    (hs : inner.spends → pairing.spends)
    (hin : ∀ {machine machine'}, pairing.Pairs machine machine' →
      machine'.depth = machine.depth ∧ machine'.maxDepth = machine.maxDepth ∧
      (machine.depth < machine.maxDepth → inner.Pairs { machine with depth := machine.depth + 1 }
        { machine' with depth := machine'.depth + 1 }))
    (hout : ∀ {machine machine'}, inner.Pairs machine machine' →
      pairing.Pairs { machine with depth := machine.depth - 1 }
        { machine' with depth := machine'.depth - 1 }) :
    pairing.Matches (Run.deeper location (closure.run host below fuel receiver arguments scope))
      (Run.deeper location (closure.run other below' fuel' receiver arguments scope)) :=
  (closure.matches_run hp hb hl hf).deeper hs hin hout

theorem ScriptForm.matches_run (hp : pairing.Lawful host other)
    (hb : ∀ root, pairing.Covers below below' (.ofRoot root)) (form : ScriptForm) (text : String)
    (hl : fuel' = fuel ∧ pairing.spends)
    (hf : ∀ literal, pairing.accepts ⟨text, literal⟩) :
    pairing.Matches (form.run host below fuel text) (form.run other below' fuel' text) := by
  refine hp.get_bind fun machine machine' _ hroot => ?_
  dsimp only
  rw [hroot]
  cases form with
  | expression =>
    cases Expr.read text with
    | error error => exact matches_fail _
    | ok value => exact (value.matches_eval hp (hb _) fun literal _ => hf literal).embed
  | statements =>
    cases Program.read text with
    | error error => exact matches_fail _
    | ok program =>
      have hbody : pairing.Matches
          (Stmt.execAll host below fuel ⟨text, .ofRoot machine.root⟩ program.body)
          (Stmt.execAll other below' fuel' ⟨text, .ofRoot machine.root⟩ program.body) :=
        Stmt.matches_execAll hp (hb _) _ (fun _ => hl) fun literal _ => hf literal
      exact hbody.embed.bind fun _ => matches_pure _

end Walk

end ScriptEngine
