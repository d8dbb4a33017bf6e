import ScriptEngine.Proofs.Receivers.Keeping

-- The walk along a tree that names no receiver keeps the heap in agreement with its reports.

namespace ScriptEngine

open Logged
open Scope (receiverName)

variable {σ : Type} {host : Host σ} {below : ReportedBelow σ} {global : ObjectRef}

-- What `this` gives is explained by the reports so far.
theorem Sound.explained_receiver {history : List Report} {machine : Machine σ} {scope : Scope}
    (h : Sound global history machine) (hr : scope.root = global) (ha : scope.Announced history) :
    (Report.received scope.inner.head? (scope.receiver machine.heap)).Explained global history := by
  obtain ⟨root, inner⟩ := scope
  cases hr
  cases inner with
  | nil => exact h.outside
  | cons frame rest =>
    obtain ⟨call, hm⟩ := ha frame rfl
    obtain ⟨-, since, hi, hget⟩ := h.frame hm
    refine ⟨call, since, hi, ?_⟩
    simp [Scope.receiver, Scope.find?, hget]

theorem Logged.keeps_receiver {scope : Scope} (hr : scope.root = global) :
    (watch (fun machine => [.received scope.inner.head? (scope.receiver machine.heap)]) (do
      let heap ← Run.getHeap
      return scope.receiver heap) : Logged Report σ Error Value).Keeps global scope :=
  fun _ _ hs ha => hs.receive (hs.explained_receiver hr ha)

-- A subscript assignment to anything but an object sets an element at most.
theorem Heap.spares_setSubscript {heap after : Heap} {container key value : Value}
    (hc : ∀ ref, container ≠ .object ref) (h : heap.setSubscript container key value = .ok after) :
    heap.Spares after := by
  unfold setSubscript setElement at h
  split at h
  · split at h
    · split at h
      · cases h
      · cases h
        exact ⟨Nat.le_refl _, fun _ _ => rfl⟩
    · cases h
  · exact absurd rfl (hc _)
  · cases h

theorem Logged.keeps_subscript {scope : Scope} (location : Location) (container key value : Value) :
    (watch (fun machine => Report.ofSubscript machine.heap container key value) (do
      Run.hold container key
      Run.locate location (Run.changeHeap (·.setSubscript container key value))) :
      Logged Report σ Error Unit).Keeps global scope := by
  intro history machine hs ha
  cases container with
  | object ref =>
    dsimp only [watch, Report.ofSubscript]
    rw [Run.hold_bind_apply, Heap.clashes]
    split
    · -- The key is not written, and nothing is reported.
      rw [List.append_nil]
      exact hs
    · exact hs.store ref (machine.heap.toText key) value
  | _ =>
    -- No property is set, and so nothing is reported.
    refine keeps_lift (.bind (Run.sparing_hold _ key) fun _ => ?_) history machine hs ha
    refine Run.Sparing.locate (fun machine hp => ?_) location
    unfold Run.changeHeap
    split
    · rename_i heap hset
      have hchange : machine.heap.Change Closure.Parsed heap := Heap.change_setSubscript hset
      refine ⟨⟨?_, rfl⟩, hp.change hchange⟩
      exact Heap.spares_setSubscript (by rintro ref ⟨⟩) hset
    · exact ⟨⟨.refl _, rfl⟩, hp⟩

-- The embedding program and the levels below keep the agreement, wherever they are called from.
structure ObservedBelow.Keeps (host : Host σ) (global : ObjectRef) (below : ReportedBelow σ) :
    Prop where
  spares : host.SparesReceivers
  parsed : host.KeepsParsed
  enter (reading : Option Nat) (call : Call) (location : Location) {closure : Closure}
      (arguments : List Value) {scope : Scope} (place : Scope) :
    closure.Parsed → scope.root = global →
      (below.enter reading call location closure arguments scope).Keeps global place
  script (form : ScriptForm) (text : String) (scope : Scope) :
    (below.script form text).Keeps global scope

section Walk

variable {context : Context}

theorem Native.keeps_observed (hb : below.Keeps host global) {scope : Scope} (native : Native)
    (receiver : Value) (arguments : List Value) :
    (native.observed Hooks.reports host below receiver arguments).Keeps global scope := by
  cases native with
  | global function =>
    cases function with
    | exec => exact keeps_getHeap_bind fun heap _ => hb.script .statements _ scope
    | eval => exact keeps_getHeap_bind fun heap _ => hb.script .expression _ scope
    | _ => exact keeps_lift (Run.sparing_native hb.spares hb.parsed _ receiver arguments)
  | _ => exact keeps_lift (Run.sparing_native hb.spares hb.parsed _ receiver arguments)

theorem keeps_observedCall (hb : below.Keeps host global) {scope place : Scope}
    (hr : scope.root = global) (reading : Option Nat) (call : Call) (location : Location)
    (function : Value) (arguments : List Value) (method : Option String) :
    (observedCall Hooks.reports host below reading call location function arguments method
      scope).Keeps global place := by
  refine keeps_getHeap_bind fun heap hp => ?_
  cases hn : heap.nativeOf? function with
  | some native => exact (native.keeps_observed hb call.receiver arguments).mapError _
  | none =>
    cases hc : heap.closureOf? function with
    | some closure =>
      have hparsed : closure.Parsed := by
        cases function with
        | object ref => exact hp ref closure hc
        | _ => cases hc
      exact hb.enter reading call location arguments place hparsed hr
    | none =>
      cases method with
      | none => exact keeps_fail _
      | some name =>
        cases heap.instanceOf? call.receiver with
        | none => exact keeps_fail _
        | some content =>
          have hinvoke := Run.sparing_invoke hb.spares hb.parsed content heap name arguments
          dsimp only
          split
          · exact (keeps_lift hinvoke).mapError _
          · exact keeps_fail _

mutual

theorem Expr.keeps_observed (hb : below.Keeps host global)
    (hr : context.scope.root = global) (value : Expr)
    (hf : ∀ literal ∈ value.functions, Closure.Parsed ⟨context.script, literal⟩)
    (hn : ∀ name ∈ value.names, IsName name) :
    (value.observed Hooks.reports host below context).Keeps global context.scope := by
  cases value with
  | literal _ _ =>
    rw [Expr.observed]
    exact keeps_pure _
  | identifier _ _ =>
    rw [Expr.observed]
    exact keeps_getHeap_bind fun heap _ => keeps_pure _
  | receiver _ =>
    rw [Expr.observed]
    exact keeps_receiver hr
  | dot _ target _ =>
    simp only [Expr.names, List.forall_mem_append] at hn
    rw [Expr.observed]
    refine (target.keeps_observed hb hr hf hn.1).bind fun value => ?_
    exact keeps_getHeap_bind fun heap _ => keeps_pure _
  | subscript _ target index =>
    simp only [Expr.functions, Expr.names, List.forall_mem_append] at hf hn
    rw [Expr.observed]
    refine (target.keeps_observed hb hr hf.1 hn.1).bind fun value => ?_
    refine (index.keeps_observed hb hr hf.2 hn.2).bind fun key => ?_
    exact keeps_getHeap_bind fun heap _ => keeps_pure _
  | unary _ operator operand =>
    rw [Expr.observed]
    refine (operand.keeps_observed hb hr hf hn).bind fun value => ?_
    refine keeps_getHeap_bind fun heap _ => ?_
    cases operator <;> exact keeps_pure _
  | binary _ operator left right =>
    simp only [Expr.functions, Expr.names, List.forall_mem_append] at hf hn
    rw [Expr.observed]
    refine (left.keeps_observed hb hr hf.1 hn.1).bind fun a => ?_
    refine (right.keeps_observed hb hr hf.2 hn.2).bind fun b => ?_
    exact keeps_getHeap_bind fun heap _ => keeps_lift ((Run.sparing_ofExcept _).locate _)
  | logical _ operator left right =>
    simp only [Expr.functions, Expr.names, List.forall_mem_append] at hf hn
    rw [Expr.observed]
    refine (left.keeps_observed hb hr hf.1 hn.1).bind fun a => ?_
    have hright := (right.keeps_observed hb hr hf.2 hn.2).bind fun b =>
      keeps_pure (Value.boolean b.isTruthy)
    cases operator with
    | and =>
      cases a.isTruthy with
      | false => exact keeps_pure _
      | true => exact hright
    | or =>
      cases a.isTruthy with
      | false => exact hright
      | true => exact keeps_pure _
  | ternary _ test yes no =>
    simp only [Expr.functions, Expr.names, List.forall_mem_append] at hf hn
    rw [Expr.observed]
    refine (test.keeps_observed hb hr hf.1.1 hn.1.1).bind fun value => ?_
    cases value.isTruthy with
    | false => exact no.keeps_observed hb hr hf.2 hn.2
    | true => exact yes.keeps_observed hb hr hf.1.2 hn.1.2
  | assign _ target value =>
    simp only [Expr.functions, Expr.names, List.forall_mem_append] at hf hn
    rw [Expr.observed]
    refine (value.keeps_observed hb hr hf.2 hn.2).bind fun value => ?_
    exact (target.keeps_observedStore hb hr value hf.1 hn.1).bind fun _ => keeps_pure _
  | update _ operator target value _ =>
    simp only [Expr.functions, Expr.names, List.forall_mem_append] at hf hn
    rw [Expr.observed]
    refine (target.keeps_observed hb hr hf.1 hn.1).bind fun old => ?_
    refine (value.keeps_observed hb hr hf.2 hn.2).bind fun operand => ?_
    refine keeps_getHeap_bind fun heap _ => ?_
    refine (keeps_lift ((Run.sparing_ofExcept _).locate _)).bind fun new => ?_
    exact (target.keeps_observedStore hb hr new hf.1 hn.1).bind fun _ => keeps_pure _
  | call offset callee arguments =>
    simp only [Expr.functions, Expr.names, List.forall_mem_append] at hf hn
    have htail (call : Call) (function : Value) (method : Option String) :=
      keeps_guarded host (context.at offset) fun reading =>
        (Expr.keeps_observedAll hb hr arguments hf.2 hn.2).bind fun arguments =>
          keeps_observedCall hb hr (some reading) call (context.at offset) function arguments method
    by_cases hplain : callee.isPlain
    · rw [Expr.observed_call _ _ _ _ hplain]
      exact (callee.keeps_observed hb hr hf.1 hn.1).bind fun function => htail _ _ _
    · cases callee with
      | dot _ target name =>
        simp only [Expr.names, List.forall_mem_append] at hn
        rw [Expr.observed]
        refine (target.keeps_observed hb hr hf.1 hn.1.1).bind fun receiver => ?_
        refine keeps_get_bind fun machine _ => ?_
        refine (keeps_lift ((Run.sparing_ofExcept _).locate _)).bind fun function => ?_
        exact htail _ _ _
      | _ => exact absurd rfl hplain
  | construct offset path arguments =>
    simp only [Expr.names, List.forall_mem_append] at hn
    rw [Expr.observed]
    refine keeps_getHeap_bind fun heap hp => ?_
    have harguments := Expr.keeps_observedAll hb hr arguments hf hn.2
    cases context.path heap path with
    | object class_ =>
      dsimp only
      cases hc : (heap.object class_).closure? with
      | some closure =>
        have hplain (closure : Closure) :
            (heap.object class_).forFunction.kind ≠ .function closure := by
          unfold Object.forFunction
          split <;> rintro ⟨⟩
        have hfresh : (lift (Run.onHeap (·.addObjectValue (heap.object class_).forFunction)) :
            Logged Report σ Error Value).Keeps global context.scope :=
          keeps_lift (Run.sparing_onHeap fun _ =>
            .addObject _ fun closure hk => absurd hk (hplain closure))
        refine hfresh.bind fun fresh => keeps_guarded _ _ fun reading => ?_
        refine harguments.bind fun arguments => ?_
        exact (hb.enter _ _ _ arguments _ (hp class_ closure hc) hr).bind fun _ => keeps_pure _
      | none =>
        refine keeps_guarded _ _ fun reading => harguments.bind fun arguments => ?_
        exact (keeps_lift (Run.sparing_construct hb.spares hb.parsed _ _ _)).mapError _
    | _ => exact keeps_pure _
  | object _ entries =>
    rw [Expr.observed]
    refine (Expr.keeps_observedEntries hb hr entries hf hn).bind fun entries => ?_
    refine keeps_lift (Run.sparing_onHeap fun heap => .addObject _ ?_)
    rintro closure ⟨⟩
  | array _ elements =>
    rw [Expr.observed]
    refine (Expr.keeps_observedAll hb hr elements hf hn).bind fun elements => ?_
    exact keeps_lift (Run.sparing_onHeap fun heap => .addArray _)
  | function _ literal =>
    have hliteral : Closure.Parsed ⟨context.script, literal⟩ := by
      refine hf literal ?_
      cases literal
      exact List.mem_cons_self
    rw [Expr.observed]
    refine keeps_lift (Run.sparing_onHeap fun heap => .addObject _ ?_)
    rintro closure ⟨⟩
    exact hliteral

theorem Expr.keeps_observedStore (hb : below.Keeps host global)
    (hr : context.scope.root = global) (target : Expr) (value : Value)
    (hf : ∀ literal ∈ target.functions, Closure.Parsed ⟨context.script, literal⟩)
    (hn : ∀ name ∈ target.names, IsName name) :
    (target.observedStore Hooks.reports host below context value).Keeps global context.scope := by
  cases target with
  | identifier _ name =>
    rw [Expr.observedStore]
    exact keeps_lift (Run.sparing_assign (hn name List.mem_cons_self) value)
  | dot offset target name =>
    simp only [Expr.names, List.forall_mem_append] at hn
    rw [Expr.observedStore]
    refine (target.keeps_observed hb hr hf hn.1).bind fun container => ?_
    exact keeps_lift ((Run.sparing_setProperty (hn.2 name List.mem_cons_self)).locate _)
  | subscript offset target index =>
    simp only [Expr.functions, Expr.names, List.forall_mem_append] at hf hn
    rw [Expr.observedStore]
    refine (target.keeps_observed hb hr hf.1 hn.1).bind fun container => ?_
    refine (index.keeps_observed hb hr hf.2 hn.2).bind fun key => ?_
    exact keeps_subscript _ container key value
  | _ =>
    simp only [Expr.observedStore]
    exact keeps_fail _

theorem Expr.keeps_observedAll (hb : below.Keeps host global)
    (hr : context.scope.root = global) (values : List Expr)
    (hf : ∀ literal ∈ Expr.functionsOfAll values, Closure.Parsed ⟨context.script, literal⟩)
    (hn : ∀ name ∈ Expr.namesOfAll values, IsName name) :
    (Expr.observedAll Hooks.reports host below context values).Keeps global context.scope := by
  cases values with
  | nil => exact keeps_pure _
  | cons first rest =>
    simp only [Expr.functionsOfAll, Expr.namesOfAll, List.forall_mem_append] at hf hn
    rw [Expr.observedAll]
    refine (first.keeps_observed hb hr hf.1 hn.1).bind fun value => ?_
    exact (Expr.keeps_observedAll hb hr rest hf.2 hn.2).bind fun values => keeps_pure _

theorem Expr.keeps_observedEntries (hb : below.Keeps host global)
    (hr : context.scope.root = global) (entries : List (String × Expr))
    (hf : ∀ literal ∈ Expr.functionsOfEntries entries, Closure.Parsed ⟨context.script, literal⟩)
    (hn : ∀ name ∈ Expr.namesOfEntries entries, IsName name) :
    (Expr.observedEntries Hooks.reports host below context entries).Keeps global context.scope := by
  cases entries with
  | nil => exact keeps_pure _
  | cons entry rest =>
    obtain ⟨key, first⟩ := entry
    simp only [Expr.functionsOfEntries, Expr.namesOfEntries, List.forall_mem_append] at hf hn
    rw [Expr.observedEntries]
    refine (first.keeps_observed hb hr hf.1 hn.1).bind fun value => ?_
    exact (Expr.keeps_observedEntries hb hr rest hf.2 hn.2).bind fun entries => keeps_pure _

end

theorem Expr.keeps_observedOption (hb : below.Keeps host global)
    (hr : context.scope.root = global) (value : Option Expr)
    (hf : ∀ literal ∈ Expr.functionsOfOption value, Closure.Parsed ⟨context.script, literal⟩)
    (hn : ∀ name ∈ Expr.namesOfOption value, IsName name) :
    (Expr.observedOption Hooks.reports host below context value).Keeps global context.scope := by
  cases value with
  | none => exact keeps_pure _
  | some value => exact value.keeps_observed hb hr hf hn

theorem Expr.keeps_observedHolds (hb : below.Keeps host global)
    (hr : context.scope.root = global) (test : Option Expr)
    (hf : ∀ literal ∈ Expr.functionsOfOption test, Closure.Parsed ⟨context.script, literal⟩)
    (hn : ∀ name ∈ Expr.namesOfOption test, IsName name) :
    (Expr.observedHolds Hooks.reports host below context test).Keeps global context.scope := by
  cases test with
  | none => exact keeps_pure _
  | some test => exact (test.keeps_observed hb hr hf hn).bind fun value => keeps_pure _

theorem Expr.keeps_observedStep (hb : below.Keeps host global)
    (hr : context.scope.root = global) (step : Option Expr)
    (hf : ∀ literal ∈ Expr.functionsOfOption step, Closure.Parsed ⟨context.script, literal⟩)
    (hn : ∀ name ∈ Expr.namesOfOption step, IsName name) :
    (Expr.observedStep Hooks.reports host below context step).Keeps global context.scope := by
  cases step with
  | none => exact keeps_pure _
  | some step => exact (step.keeps_observed hb hr hf hn).bind fun _ => keeps_pure _

theorem Loop.keeps_observed {scope : Scope} {location : Location}
    {test : Logged Report σ Error Bool} {body : Logged Report σ Error Completion}
    {step : Logged Report σ Error Unit} {testLast : Bool} (htest : test.Keeps global scope)
    (hbody : body.Keeps global scope) (hstep : step.Keeps global scope) :
    (Loop.observed Hooks.reports host location test body step testLast).Keeps global scope := by
  have hmade (now : Bool) : (Loop.loggedTest now test).Keeps global scope := by
    cases now with
    | false => exact keeps_pure true
    | true => exact htest
  refine keeps_guarded _ _ fun reading => (hmade _).bind fun enters => ?_
  cases enters with
  | false => exact keeps_pure _
  | true =>
    refine hbody.bind fun completion => ?_
    cases completion with
    | returned _ | broke => exact keeps_pure _
    | continued => exact hstep.bind fun _ => keeps_pure _
    | normal => exact hstep.bind fun _ => (hmade _).bind fun again => keeps_pure _

mutual

theorem Stmt.keeps_observed (hb : below.Keeps host global)
    (hr : context.scope.root = global) {fuel : Nat} (item : Stmt)
    (hf : ∀ literal ∈ item.functions, Closure.Parsed ⟨context.script, literal⟩)
    (hn : ∀ name ∈ item.names, IsName name) :
    (item.observed Hooks.reports host below context fuel).Keeps global context.scope := by
  cases item with
  | empty _ | breakLoop _ | continueLoop _ =>
    rw [Stmt.observed]
    exact keeps_pure _
  | block _ body =>
    rw [Stmt.observed]
    exact Stmt.keeps_observedAll hb hr body hf hn
  | branch _ test yes no =>
    simp only [Stmt.functions, Stmt.names, List.forall_mem_append] at hf hn
    rw [Stmt.observed]
    refine (test.keeps_observed hb hr hf.1.1 hn.1.1).bind fun value => ?_
    cases value.isTruthy with
    | true => exact yes.keeps_observed hb hr hf.1.2 hn.1.2
    | false => exact Stmt.keeps_observedOption hb hr no hf.2 hn.2
  | declare _ name initial =>
    simp only [Stmt.names, List.forall_mem_cons] at hn
    rw [Stmt.observed]
    refine (Expr.keeps_observedOption hb hr initial hf hn.2).bind fun value => ?_
    exact (keeps_lift (Run.sparing_declare hn.1 value)).bind fun _ => keeps_pure _
  | loop _ initial test step body _ =>
    simp only [Stmt.functions, Stmt.names, List.forall_mem_append] at hf hn
    rw [Stmt.observed]
    refine (Stmt.keeps_observedOption hb hr initial hf.1.1.1 hn.1.1.1).bind fun _ => ?_
    have htest := Expr.keeps_observedHolds hb hr test hf.1.1.2 hn.1.1.2
    have hbody : (body.observed Hooks.reports host below context fuel).Keeps global context.scope :=
      body.keeps_observed hb hr hf.2 hn.2
    have hstep := Expr.keeps_observedStep hb hr step hf.1.2 hn.1.2
    exact (Loop.keeps_observed htest hbody hstep).repeatUntil fuel
  | giveBack _ value =>
    rw [Stmt.observed]
    exact (Expr.keeps_observedOption hb hr value hf hn).bind fun value => keeps_pure _
  | expression value =>
    rw [Stmt.observed]
    exact (value.keeps_observed hb hr hf hn).bind fun _ => keeps_pure _

theorem Stmt.keeps_observedOption (hb : below.Keeps host global)
    (hr : context.scope.root = global) {fuel : Nat} (item : Option Stmt)
    (hf : ∀ literal ∈ Stmt.functionsOfOption item, Closure.Parsed ⟨context.script, literal⟩)
    (hn : ∀ name ∈ Stmt.namesOfOption item, IsName name) :
    (Stmt.observedOption Hooks.reports host below context fuel item).Keeps global context.scope := by
  cases item with
  | none => exact keeps_pure _
  | some item =>
    rw [Stmt.observedOption]
    exact item.keeps_observed hb hr hf hn

theorem Stmt.keeps_observedAll (hb : below.Keeps host global)
    (hr : context.scope.root = global) {fuel : Nat} (items : List Stmt)
    (hf : ∀ literal ∈ Stmt.functionsOfAll items, Closure.Parsed ⟨context.script, literal⟩)
    (hn : ∀ name ∈ Stmt.namesOfAll items, IsName name) :
    (Stmt.observedAll Hooks.reports host below context fuel items).Keeps global context.scope := by
  cases items with
  | nil => exact keeps_pure _
  | cons first rest =>
    simp only [Stmt.functionsOfAll, Stmt.namesOfAll, List.forall_mem_append] at hf hn
    rw [Stmt.observedAll]
    refine (first.keeps_observed hb hr hf.1 hn.1).bind fun completion => ?_
    cases completion with
    | normal => exact Stmt.keeps_observedAll hb hr rest hf.2 hn.2
    | _ => exact keeps_pure _

end

end Walk

-- What has been read names no receiver, and its functions are parsed ones.
theorem Expr.keeps_observed_of_read (hb : below.Keeps host global) {text : String} {value : Expr}
    (h : Expr.read text = .ok value) :
    (value.observed Hooks.reports host below ⟨text, .ofRoot global⟩).Keeps global (.ofRoot global) := by
  let context : Context := ⟨text, .ofRoot global⟩
  have hf : ∀ literal ∈ value.functions, Closure.Parsed ⟨context.script, literal⟩ :=
    fun literal hm => .inr ⟨value, h, hm⟩
  have hn : ∀ name ∈ value.names, IsName name := fun name hm => (isName_of_read h).1 hm
  exact value.keeps_observed hb rfl hf hn

theorem Program.keeps_observed_of_read (hb : below.Keeps host global) (fuel : Nat) {text : String}
    {program : Program} (h : Program.read text = .ok program) :
    (Stmt.observedAll Hooks.reports host below ⟨text, .ofRoot global⟩ fuel program.body).Keeps
      global (.ofRoot global) := by
  let context : Context := ⟨text, .ofRoot global⟩
  have hf : ∀ literal ∈ Stmt.functionsOfAll program.body,
      Closure.Parsed ⟨context.script, literal⟩ := fun literal hm => .inl ⟨program, h, hm⟩
  have hn : ∀ name ∈ Stmt.namesOfAll program.body, IsName name :=
    fun name hm => (isName_of_read h).1 hm
  exact Stmt.keeps_observedAll hb rfl program.body hf hn

-- A function may use its receiver, since its frame holds it and has been reported.
theorem Closure.keeps_observed (hb : below.Keeps host global) {fuel : Nat} {closure : Closure}
    {call : Call} {arguments : List Value} {scope place : Scope} (hp : closure.Parsed)
    (hr : scope.root = global) :
    (closure.observed Hooks.reports host below fuel call arguments scope).Keeps global place := by
  unfold Closure.observed
  simp only [noted_bind]
  refine Keeps.enter scope ?_ (closure.get?_frame hp call.receiver arguments) fun frame => ?_
  · rintro _ ⟨⟩
  let context : Context := ⟨closure.script, scope.child frame⟩
  have hf : ∀ literal ∈ Stmt.functionsOfAll closure.function.body,
      Closure.Parsed ⟨context.script, literal⟩ := fun literal hm => hp.inside hm
  have hn : ∀ name ∈ Stmt.namesOfAll closure.function.body, IsName name :=
    fun name hm => hp.isName (List.mem_append_right _ hm)
  exact (Stmt.keeps_observedAll hb hr _ hf hn).bind fun completion => keeps_pure completion.result

-- A script that is read when it is run uses the global object alone.
theorem ScriptForm.keeps_observed (hb : below.Keeps host global) {fuel : Nat} {scope : Scope}
    (form : ScriptForm) (text : String) :
    (form.observed Hooks.reports host below fuel text).Keeps global scope := by
  refine keeps_get_bind fun machine hr => ?_
  subst hr
  cases form with
  | expression =>
    cases hread : Expr.read text with
    | error error => exact keeps_fail _
    | ok value => exact (Expr.keeps_observed_of_read hb hread).anywhere.embed
  | statements =>
    cases hread : Program.read text with
    | error error => exact keeps_fail _
    | ok program =>
      have hbody := Program.keeps_observed_of_read hb fuel hread
      exact hbody.anywhere.embed.bind fun _ => keeps_pure _

theorem ObservedBelow.keeps_ofFuel (hh : host.SparesReceivers) (hk : host.KeepsParsed)
    (fuel : Nat) : (ReportedBelow.ofFuel host fuel).Keeps host global := by
  induction fuel with
  | zero =>
    have hspent {ε α : Type} {scope : Scope} :
        (lift Run.spent : Logged Report σ ε α).Keeps global scope :=
      keeps_lift (Run.sparing_idle fun _ => rfl)
    exact ⟨hh, hk, fun _ _ _ _ _ _ _ _ _ => hspent, fun _ _ _ => hspent⟩
  | succ fuel ih =>
    refine ⟨hh, hk, fun reading call location closure arguments scope place hp hr => ?_,
      fun form text scope => form.keeps_observed ih text⟩
    exact (Closure.keeps_observed ih hp hr).deeper location

theorem Entry.keeps_observed {fuel : Nat} {engine : Engine σ} (hb : below.Keeps host engine.root)
    (entry : Entry) :
    (entry.reported host below fuel engine).Keeps engine.root (.ofRoot engine.root) := by
  cases entry with
  | execute source =>
    simp only [Entry.observed]
    cases hread : Program.read source with
    | error error => exact keeps_fail _
    | ok program => exact (Program.keeps_observed_of_read hb fuel hread).bind fun _ => keeps_pure _
  | evaluate source =>
    simp only [Entry.observed]
    cases hread : Expr.read source with
    | error error => exact keeps_fail _
    | ok value => exact (Expr.keeps_observed_of_read hb hread).bind fun _ => keeps_pure _
  | callFunction name arguments =>
    simp only [Entry.observed]
    split
    · exact (keeps_observedCall hb rfl _ _ _ _ _ _).bind fun _ => keeps_pure _
    · exact keeps_fail _
  | callWithin frame function arguments =>
    exact (keeps_observedCall hb rfl _ _ _ _ _ _).bind fun _ => keeps_pure _

end ScriptEngine
