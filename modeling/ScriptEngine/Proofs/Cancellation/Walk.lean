import ScriptEngine.Proofs.Cancellation.Discipline

-- The walk along a tree, and the levels below it, keep the law of a record.

namespace ScriptEngine

open Logged

variable {σ : Type} {host : Host σ} {below : TracedBelow σ} {context : Context}

structure ObservedBelow.Obeys (below : TracedBelow σ) : Prop where
  enter (reading : Option Nat) (call : Call) (location : Location) (closure : Closure)
    (arguments : List Value) (scope : Scope) :
    (below.enter reading call location closure arguments scope).Obeys Error.fault
      (.work [.function] reading)
  script (form : ScriptForm) (text : String) : (below.script form text).Obeys id .nothing

theorem Native.obeys_observed (hh : host.Steady) (hb : below.Obeys) (native : Native)
    (receiver : Value) (arguments : List Value) :
    (native.observed Hooks.events host below receiver arguments).Obeys id .nothing := by
  have hasking : (Hooks.events.asking (native.apply host (Below.ofFuel host 0) receiver
      arguments)).Obeys id .nothing :=
    obeys_asking (native.keepsTo_apply hh.suits trivial receiver arguments)
  cases native with
  | global function =>
    cases function with
    | exec => exact (obeys_lift Run.keepsTo_getHeap).andThen fun heap => hb.script .statements _
    | eval => exact (obeys_lift Run.keepsTo_getHeap).andThen fun heap => hb.script .expression _
    | _ => exact hasking
  | _ => exact hasking

theorem obeys_observedCall (hh : host.Steady) (hb : below.Obeys) {reading : Option Nat}
    {call : Call} {location : Location} {function : Value} {arguments : List Value}
    {method : Option String} {scope : Scope} :
    (observedCall Hooks.events host below reading call location function arguments method
      scope).Obeys Error.fault (.work [.function, .native] reading) := by
  refine obeys_lift_bind Run.keepsTo_getHeap fun heap => ?_
  have hnative {traced : Traced σ Fault Value} (h : traced.Obeys id .nothing) :
      (noting (.began .native reading) (locate location traced)).Obeys Error.fault
        (.work [.function, .native] reading) :=
    h.locate.beginning (by decide)
  cases heap.nativeOf? function with
  | some native => exact hnative (native.obeys_observed hh hb _ _)
  | none =>
    cases heap.closureOf? function with
    | some closure => exact (hb.enter _ _ _ _ _ _).mono (by simp)
    | none =>
      cases method with
      | none => exact obeys_lift (Run.keepsTo_fail _)
      | some name =>
        cases heap.instanceOf? call.receiver with
        | none => exact obeys_lift (Run.keepsTo_fail _)
        | some content =>
          dsimp only
          split
          · exact hnative (obeys_asking (content.keepsTo_invoke hh.suits _ _ _))
          · exact obeys_lift (Run.keepsTo_fail _)

-- The work of a call behind its checkpoint.
theorem obeys_arguments {α : Type} {reading : Nat} (works : List Work)
    {arguments : Traced σ Error (List Value)} {next : List Value → Traced σ Error α}
    (h : arguments.Obeys Error.fault .nothing)
    (hn : ∀ values, (next values).Obeys Error.fault (.work works (some reading)))
    (hw : ∀ work ∈ works, work.follows .arguments) :
    (noting (.began .arguments (some reading)) arguments >>= next).Obeys Error.fault
      (.behind reading) := by
  rw [noting_bind]
  exact .opening works (h.before hn) rfl hw

mutual

theorem Expr.obeys_traced (hh : host.Steady) (hb : below.Obeys) (value : Expr) :
    (value.traced host below context).Obeys Error.fault .nothing := by
  cases value with
  | literal _ _ => exact obeys_pure _
  | identifier _ _ => exact obeys_lift_bind Run.keepsTo_getHeap fun heap => obeys_pure _
  | receiver _ => exact obeys_lift (Run.keepsTo_getHeap.bind fun heap => Run.keepsTo_pure _)
  | dot _ target _ =>
    refine (target.obeys_traced hh hb).andThen fun value => ?_
    exact obeys_lift_bind Run.keepsTo_getHeap fun heap => obeys_pure _
  | subscript _ target index =>
    refine (target.obeys_traced hh hb).andThen fun value => ?_
    refine (index.obeys_traced hh hb).andThen fun key => ?_
    exact obeys_lift_bind Run.keepsTo_getHeap fun heap => obeys_pure _
  | unary _ operator operand =>
    refine (operand.obeys_traced hh hb).andThen fun value => ?_
    refine obeys_lift_bind Run.keepsTo_getHeap fun heap => ?_
    cases operator <;> exact obeys_pure _
  | binary _ _ left right =>
    refine (left.obeys_traced hh hb).andThen fun a => ?_
    refine (right.obeys_traced hh hb).andThen fun b => ?_
    refine obeys_lift_bind Run.keepsTo_getHeap fun heap => ?_
    exact obeys_lift ((Run.keepsTo_ofExcept _).locate _)
  | logical _ operator left right =>
    refine (left.obeys_traced hh hb).andThen fun a => ?_
    have hright : (right.traced host below context >>= fun b =>
        pure (Value.boolean b.isTruthy)).Obeys Error.fault .nothing :=
      (right.obeys_traced hh hb).andThen fun b => obeys_pure _
    cases operator with
    | and =>
      cases a.isTruthy
      · exact obeys_pure _
      · exact hright
    | or =>
      cases a.isTruthy
      · exact hright
      · exact obeys_pure _
  | ternary _ test yes no =>
    refine (test.obeys_traced hh hb).andThen fun value => ?_
    cases value.isTruthy
    · exact no.obeys_traced hh hb
    · exact yes.obeys_traced hh hb
  | assign _ target value =>
    refine (value.obeys_traced hh hb).andThen fun value => ?_
    exact (target.obeys_observedStore hh hb value).andThen fun _ => obeys_pure _
  | update _ _ target value _ =>
    refine (target.obeys_traced hh hb).andThen fun old => ?_
    refine (value.obeys_traced hh hb).andThen fun other => ?_
    refine obeys_lift_bind Run.keepsTo_getHeap fun heap => ?_
    refine obeys_lift_bind ((Run.keepsTo_ofExcept _).locate _) fun new => ?_
    exact (target.obeys_observedStore hh hb new).andThen fun _ => obeys_pure _
  | call offset callee arguments =>
    have htail (call : Call) (function : Value) (method : Option String) (reading : Nat) :=
      obeys_arguments _ (Expr.obeys_observedAll hh hb arguments) (fun values =>
        @obeys_observedCall _ _ _ hh hb (some reading) call (context.at offset) function values
          method context.scope) (by decide)
    by_cases hplain : callee.isPlain
    · rw [Expr.traced, Expr.observed_call _ _ _ _ hplain]
      exact (callee.obeys_traced hh hb).andThen fun function =>
        obeys_guarded (htail (.plain _) function none)
    · cases callee with
      | dot _ target name =>
        rw [Expr.traced, Expr.observed]
        refine (target.obeys_traced hh hb).andThen fun receiver => ?_
        refine obeys_lift_bind Run.keepsTo_get fun machine => ?_
        refine obeys_lift_bind ((Run.keepsTo_ofExcept _).locate _) fun function => ?_
        exact obeys_guarded (htail (.method receiver) function (some name))
      | _ => exact absurd rfl hplain
  | construct offset path arguments =>
    refine obeys_lift_bind Run.keepsTo_getHeap fun heap => ?_
    have harguments := Expr.obeys_observedAll hh hb arguments
    cases context.path heap path with
    | object class_ =>
      dsimp only
      cases (heap.object class_).closure? with
      | some closure =>
        refine obeys_lift_bind (Run.keepsTo_onHeap _) fun instance_ => ?_
        refine obeys_guarded fun reading => ?_
        refine obeys_arguments [.function] harguments (fun values => ?_) (by decide)
        exact (hb.enter _ _ _ _ _ _).andThen fun _ => obeys_pure _
      | none =>
        refine obeys_guarded fun reading => ?_
        refine obeys_arguments [.construction] harguments (fun values => ?_) (by decide)
        exact (obeys_asking (keepsTo_construct hh.suits _ _ _)).locate.beginning List.mem_cons_self
    | _ => exact obeys_pure _
  | object _ entries =>
    refine (Expr.obeys_observedEntries hh hb entries).andThen fun entries => ?_
    exact obeys_lift (Run.keepsTo_onHeap _)
  | array _ elements =>
    refine (Expr.obeys_observedAll hh hb elements).andThen fun elements => ?_
    exact obeys_lift (Run.keepsTo_onHeap _)
  | function _ _ => exact obeys_lift (Run.keepsTo_onHeap _)

theorem Expr.obeys_observedStore (hh : host.Steady) (hb : below.Obeys) (target : Expr)
    (value : Value) :
    (target.observedStore Hooks.events host below context value).Obeys Error.fault .nothing := by
  cases target with
  | identifier _ _ => exact obeys_lift (Run.keepsTo_modifyHeap _)
  | dot _ target _ =>
    refine (target.obeys_traced hh hb).andThen fun container => ?_
    exact obeys_lift ((Run.keepsTo_changeHeap _).locate _)
  | subscript _ target index =>
    refine (target.obeys_traced hh hb).andThen fun container => ?_
    refine (index.obeys_traced hh hb).andThen fun key => ?_
    refine obeys_lift ((Run.keepsTo_hold trivial _ _).bind fun _ => ?_)
    exact (Run.keepsTo_changeHeap _).locate _
  | _ => exact obeys_lift (Run.keepsTo_fail _)

theorem Expr.obeys_observedAll (hh : host.Steady) (hb : below.Obeys) (values : List Expr) :
    (Expr.observedAll Hooks.events host below context values).Obeys Error.fault .nothing := by
  cases values with
  | nil => exact obeys_pure _
  | cons first rest =>
    refine (first.obeys_traced hh hb).andThen fun value => ?_
    exact (Expr.obeys_observedAll hh hb rest).andThen fun values => obeys_pure _

theorem Expr.obeys_observedEntries (hh : host.Steady) (hb : below.Obeys)
    (entries : List (String × Expr)) :
    (Expr.observedEntries Hooks.events host below context entries).Obeys Error.fault .nothing := by
  cases entries with
  | nil => exact obeys_pure _
  | cons entry rest =>
    obtain ⟨key, first⟩ := entry
    refine (first.obeys_traced hh hb).andThen fun value => ?_
    exact (Expr.obeys_observedEntries hh hb rest).andThen fun values => obeys_pure _

end

theorem Expr.obeys_observedHolds (hh : host.Steady) (hb : below.Obeys) (test : Option Expr) :
    (Expr.observedHolds Hooks.events host below context test).Obeys Error.fault .nothing := by
  cases test with
  | none => exact obeys_pure _
  | some test => exact (test.obeys_traced hh hb).andThen fun value => obeys_pure _

theorem Expr.obeys_observedStep (hh : host.Steady) (hb : below.Obeys) (step : Option Expr) :
    (Expr.observedStep Hooks.events host below context step).Obeys Error.fault .nothing := by
  cases step with
  | none => exact obeys_pure _
  | some step => exact (step.obeys_traced hh hb).andThen fun _ => obeys_pure _

-- A round has one checkpoint, which lets its test and its body pass.
theorem Loop.obeys_observed {location : Location} {test : Traced σ Error Bool}
    {body : Traced σ Error Completion} {step : Traced σ Error Unit} {testLast : Bool}
    (ht : test.Obeys Error.fault .nothing) (hbody : body.Obeys Error.fault .nothing)
    (hs : step.Obeys Error.fault .nothing) :
    (Loop.observed Hooks.events host location test body step testLast).Obeys Error.fault
      .nothing := by
  refine obeys_guarded fun reading => ?_
  cases testLast with
  | false =>
    simp only [Loop.beyond, Loop.loggedTest, Bool.not_false, if_true, noted_bind]
    refine Obeys.opening [.body] (ht.before fun enters => ?_) rfl (by decide)
    cases enters with
    | false => exact obeys_pure _
    | true =>
      refine Obeys.beginning (hbody.andThen fun completion => ?_) List.mem_cons_self
      cases completion with
      | returned value => exact obeys_pure _
      | broke => exact obeys_pure _
      | continued => exact hs.andThen fun _ => obeys_pure _
      | normal =>
        refine hs.andThen fun _ => ?_
        exact obeys_lift_bind (Run.keepsTo_pure _) fun again => obeys_pure _
  | true =>
    simp only [Loop.beyond, Loop.loggedTest, Bool.not_true, if_true, noted_bind]
    refine obeys_lift_bind (Run.keepsTo_pure _) fun enters => ?_
    cases enters with
    | false => exact obeys_pure _
    | true =>
      refine Obeys.opening [.test] (hbody.before fun completion => ?_) rfl (by decide)
      cases completion with
      | returned value => exact obeys_pure _
      | broke => exact obeys_pure _
      | continued => exact (hs.andThen fun _ => obeys_pure _).weaken
      | normal =>
        refine hs.before fun _ => Obeys.beginning ?_ List.mem_cons_self
        exact ht.andThen fun again => obeys_pure _

mutual

theorem Stmt.obeys_traced (hh : host.Steady) (hb : below.Obeys) {fuel : Nat} (item : Stmt) :
    (item.traced host below fuel context).Obeys Error.fault .nothing := by
  cases item with
  | empty _ | breakLoop _ | continueLoop _ => exact obeys_pure _
  | block _ body => exact Stmt.obeys_observedAll hh hb body
  | branch _ test yes no =>
    cases no with
    | none =>
      refine (test.obeys_traced hh hb).andThen fun value => ?_
      cases value.isTruthy
      · exact obeys_pure _
      · exact yes.obeys_traced hh hb
    | some no =>
      refine (test.obeys_traced hh hb).andThen fun value => ?_
      cases value.isTruthy
      · exact no.obeys_traced hh hb
      · exact yes.obeys_traced hh hb
  | declare _ name initial =>
    have hdeclare (value : Value) : (lift (Run.modifyHeap (context.scope.declare name value)) >>=
        fun _ => pure Completion.normal : Traced σ Error Completion).Obeys Error.fault .nothing :=
      obeys_lift_bind (Run.keepsTo_modifyHeap _) fun _ => obeys_pure _
    cases initial with
    | none => exact (obeys_pure _).andThen hdeclare
    | some value => exact (value.obeys_traced hh hb).andThen hdeclare
  | loop offset initial test step body testLast =>
    have hround : (Loop.observed Hooks.events host (context.at offset)
        (Expr.observedHolds Hooks.events host below context test)
        (body.traced host below fuel context)
        (Expr.observedStep Hooks.events host below context step) testLast).Obeys Error.fault
          .nothing :=
      Loop.obeys_observed (Expr.obeys_observedHolds hh hb test) (body.obeys_traced hh hb)
        (Expr.obeys_observedStep hh hb step)
    cases initial with
    | none => exact (obeys_pure _).andThen fun _ => hround.repeatUntil fuel
    | some initial => exact (initial.obeys_traced hh hb).andThen fun _ => hround.repeatUntil fuel
  | giveBack _ value =>
    cases value with
    | none => exact obeys_pure _
    | some value => exact (value.obeys_traced hh hb).andThen fun value => obeys_pure _
  | expression value => exact (value.obeys_traced hh hb).andThen fun _ => obeys_pure _

theorem Stmt.obeys_observedAll (hh : host.Steady) (hb : below.Obeys) {fuel : Nat}
    (body : List Stmt) :
    (Stmt.observedAll Hooks.events host below context fuel body).Obeys Error.fault .nothing := by
  cases body with
  | nil => exact obeys_pure _
  | cons first rest =>
    refine (first.obeys_traced hh hb).andThen fun completion => ?_
    cases completion with
    | normal => exact Stmt.obeys_observedAll hh hb rest
    | _ => exact obeys_pure _

end

-- Level by level.
theorem ObservedBelow.obeys_ofFuel (hh : host.Steady) (fuel : Nat) :
    (ObservedBelow.ofFuel Hooks.events host fuel).Obeys := by
  induction fuel with
  | zero =>
    exact ⟨fun _ _ _ _ _ _ => obeys_lift (Run.keepsTo_spent trivial),
      fun _ _ => obeys_lift (Run.keepsTo_spent trivial)⟩
  | succ fuel ih =>
    refine ⟨fun reading call location closure arguments scope => ?_, fun form text => ?_⟩
    · refine Obeys.deeper (Obeys.beginning ?_ List.mem_cons_self)
      refine obeys_lift_bind (Run.keepsTo_onHeap _) fun frame => ?_
      exact (Stmt.obeys_observedAll hh ih _).andThen fun completion => obeys_pure _
    · refine obeys_lift_bind Run.keepsTo_get fun machine => ?_
      cases form with
      | expression =>
        cases Expr.read text with
        | ok value => exact (value.obeys_traced hh ih).embed
        | error error => exact obeys_lift (Run.keepsTo_fail _)
      | statements =>
        cases Program.read text with
        | ok program => exact (Stmt.obeys_observedAll hh ih _).embed.andThen fun _ => obeys_pure _
        | error error => exact obeys_lift (Run.keepsTo_fail _)

end ScriptEngine
