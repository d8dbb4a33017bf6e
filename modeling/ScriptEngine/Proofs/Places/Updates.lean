import ScriptEngine.Engine
import ScriptEngine.Proofs.Heap.Extension
import ScriptEngine.Proofs.Logging.Log
import ScriptEngine.Proofs.Places.Place
import ScriptEngine.Proofs.Runs.Manner

-- Updates such as `t += v` and `t++`. The parts of the target are evaluated once for the read and once
-- more for the write, with the value between them, so that each effect of the parts comes twice and
-- the write may come to another place. Where the parts have no effects there is nothing to repeat,
-- and where the value has none either the whole update changes one cell, the one that it has read.

namespace ScriptEngine

variable {σ ε α β : Type} {host : Host σ} {below : Below σ} {context : Context}

-- Expressions that look and change nothing.
def Expr.isEffectFree : Expr → Bool
  | literal _ _ | identifier _ _ | receiver _ => true
  | dot _ target _ => target.isEffectFree
  | subscript _ target index => target.isEffectFree && index.isEffectFree
  | unary _ _ operand => operand.isEffectFree
  | binary _ _ left right | logical _ _ left right => left.isEffectFree && right.isEffectFree
  | ternary _ test yes no => test.isEffectFree && yes.isEffectFree && no.isEffectFree
  | assign _ _ _ | update _ _ _ _ _ | call _ _ _ | construct _ _ _ | object _ _ | array _ _
  | function _ _ => false

-- The machine stays what it was.
def Manner.still : Manner σ where
  changes before after := after = before
  crashes := True
  spends := True

instance Manner.lawful_still : (Manner.still : Manner σ).Lawful where
  refl _ := rfl
  trans h h' := h'.trans h

abbrev Run.Still (run : Run σ ε α) : Prop := run.KeepsTo .still

theorem Run.Still.eq_of_done {run : Run σ ε α} (h : run.Still) {machine after : Machine σ}
    {value : α} (hd : run machine = (.done value, after)) : after = machine := by
  have hm : (run machine).2 = machine := (h machine).1
  rwa [hd] at hm

theorem Expr.still_eval (value : Expr) (h : value.isEffectFree) :
    (value.eval host below context).Still := by
  cases value with
  | literal _ _ =>
    rw [eval]
    exact Run.keepsTo_pure _
  | identifier _ _ | receiver _ =>
    rw [eval]
    exact Run.keepsTo_getHeap.bind fun _ => Run.keepsTo_pure _
  | dot _ target _ =>
    rw [isEffectFree] at h
    rw [eval]
    refine (target.still_eval h).bind fun _ => ?_
    exact Run.keepsTo_getHeap.bind fun _ => Run.keepsTo_pure _
  | subscript _ target index =>
    rw [isEffectFree, Bool.and_eq_true] at h
    rw [eval]
    refine (target.still_eval h.1).bind fun _ => (index.still_eval h.2).bind fun _ => ?_
    exact Run.keepsTo_getHeap.bind fun _ => Run.keepsTo_pure _
  | unary _ operator operand =>
    rw [isEffectFree] at h
    rw [eval]
    refine (operand.still_eval h).bind fun _ => Run.keepsTo_getHeap.bind fun _ => ?_
    cases operator <;> exact Run.keepsTo_pure _
  | binary _ operator left right =>
    rw [isEffectFree, Bool.and_eq_true] at h
    rw [eval]
    refine (left.still_eval h.1).bind fun _ => (right.still_eval h.2).bind fun _ => ?_
    exact Run.keepsTo_getHeap.bind fun _ => (Run.keepsTo_ofExcept _).locate _
  | logical _ operator left right =>
    rw [isEffectFree, Bool.and_eq_true] at h
    rw [eval]
    refine (left.still_eval h.1).bind fun _ => ?_
    have hright := (right.still_eval h.2).bind fun b => Run.keepsTo_pure (Value.boolean b.isTruthy)
    split
    · exact Run.keepsTo_pure _
    · exact Run.keepsTo_pure _
    · exact hright
  | ternary _ test yes no =>
    simp only [isEffectFree, Bool.and_eq_true] at h
    rw [eval]
    refine (test.still_eval h.1.1).bind fun test => ?_
    cases test.isTruthy
    · exact no.still_eval h.2
    · exact yes.still_eval h.1.2
  | assign _ _ _ | update _ _ _ _ _ | call _ _ _ | construct _ _ _ | object _ _ | array _ _
  | function _ _ => cases h

-- The parts of such a target change nothing.
theorem Expr.still_findPlace (target : Expr) (h : target.isEffectFree) :
    (target.findPlace host below context).Still := by
  cases target with
  | identifier _ _ => exact Run.keepsTo_pure _
  | dot _ target _ =>
    rw [isEffectFree] at h
    exact (target.still_eval h).bind fun _ => Run.keepsTo_pure _
  | subscript _ target index =>
    rw [isEffectFree, Bool.and_eq_true] at h
    refine (target.still_eval h.1).bind fun _ => (index.still_eval h.2).bind fun _ => ?_
    exact Run.keepsTo_pure _
  | _ => exact Run.keepsTo_fail _

-- What an update comes to on its way: the place that it reads and the one that it writes, the values,
-- and the machine behind the first pass over the parts of the target, behind the value, behind the
-- second pass and in the end.
structure Course (σ : Type) where
  source : Place
  first : Machine σ
  old : Value
  other : Value
  second : Machine σ
  new : Value
  sink : Place
  third : Machine σ
  after : Machine σ

namespace Course

-- The course of an update from a machine.
structure Follows (host : Host σ) (below : Below σ) (context : Context) (operator : BinaryOp)
    (target value : Expr) (machine : Machine σ) (course : Course σ) : Prop where
  pass : target.findPlace host below context machine = (.done course.source, course.first)
  reads : course.source.value context.scope course.first.heap = course.old
  evaluates : value.eval host below context course.first = (.done course.other, course.second)
  combines :
    course.second.heap.applyBinary host operator course.old course.other = .ok course.new
  again : target.findPlace host below context course.second = (.done course.sink, course.third)
  holds : course.sink.clashes course.third.heap = false
  writes : ∃ heap, course.sink.store context.scope course.new course.third.heap = .ok heap ∧
    { course.third with heap } = course.after

-- The cell that is written is the one that was read.
def SameCell (scope : Scope) (course : Course σ) : Prop :=
  ∃ cell, course.source.source? scope course.first.heap = some cell ∧
    course.sink.sink? scope course.third.heap = some cell

end Course

-- An update succeeds along a course and in no other way.
theorem Expr.update_eq_done {offset : Nat} {operator : BinaryOp} {target value : Expr}
    {givesOld : Bool} {machine after : Machine σ} {result : Value} :
    (Expr.update offset operator target value givesOld).eval host below context machine =
        (.done result, after) ↔
      ∃ course : Course σ, course.Follows host below context operator target value machine ∧
        course.after = after ∧ (if givesOld then course.old else course.new) = result := by
  rw [eval]
  simp only [store_eq_findPlace, Run.bind_eq_done, Run.locate_eq_done, Run.getHeap_eq_done,
    Place.hold_eq_done, Run.ofExcept_eq_done, Run.changeHeap_eq_done, Run.pure_eq_done]
  constructor
  · rintro ⟨old, first, hread, other, second, hvalue, _, _, ⟨rfl, rfl⟩, new, _, ⟨hnew, rfl⟩, _, _,
      ⟨sink, third, hagain, _, _, ⟨hclash, rfl⟩, heap, hstore, rfl⟩, hresult, rfl⟩
    rw [eval_eq_findPlace _ _ _ (isTarget_of_findPlace _ _ _ hagain)] at hread
    simp only [Run.bind_eq_done, Run.getHeap_eq_done, Run.pure_eq_done] at hread
    obtain ⟨source, _, hpass, _, _, ⟨rfl, rfl⟩, hold, rfl⟩ := hread
    exact ⟨⟨source, _, old, other, second, new, sink, third, _⟩,
      ⟨hpass, hold, hvalue, hnew, hagain, hclash, heap, hstore, rfl⟩, rfl, hresult⟩
  · rintro ⟨course, ⟨hpass, hold, hvalue, hnew, hagain, hclash, heap, hstore, hafter⟩, rfl,
      hresult⟩
    rw [eval_eq_findPlace _ _ _ (isTarget_of_findPlace _ _ _ hagain)]
    simp only [Run.bind_eq_done, Run.getHeap_eq_done, Run.pure_eq_done]
    exact ⟨course.old, course.first, ⟨course.source, _, hpass, _, _, ⟨rfl, rfl⟩, hold, rfl⟩,
      course.other, course.second, hvalue, _, _, ⟨rfl, rfl⟩, course.new, _, ⟨hnew, rfl⟩, (), _,
      ⟨course.sink, course.third, hagain, (), _, ⟨hclash, rfl⟩, heap, hstore, hafter⟩, hresult,
      rfl⟩

-- Between two heaps the place has one cell: the frame that had the name is the one that gets it, and
-- the key of an object has the same text.
def Place.Stable (scope : Scope) (before after : Heap) : Place → Prop
  | named name => scope.assignee after name = scope.holder before name
  | element (.object _) key => after.toText key = before.toText key
  | _ => True

theorem Place.sink?_eq_source? {scope : Scope} {before after : Heap} {place : Place}
    (h : place.Stable scope before after) : place.sink? scope after = place.source? scope before := by
  cases place with
  | named name => exact congrArg (fun frame => some (Cell.property frame name)) h
  | property container name => cases container <;> rfl
  | element container key =>
    cases container with
    | object ref => exact congrArg (fun text => some (Cell.property ref text)) h
    | _ => rfl

theorem Place.stable_self {scope : Scope} {heap : Heap} {place : Place}
    (h : ∀ name, place = .named name → scope.Direct heap name) : place.Stable scope heap heap := by
  cases place with
  | named name => exact (Scope.holder_eq_assignee (h name rfl)).symm
  | property container name => trivial
  | element container key => cases container <;> first | rfl | trivial

namespace Course

variable {operator : BinaryOp} {target value : Expr} {machine : Machine σ} {course : Course σ}

-- One cell changes behind the second pass, and nothing else.
theorem Follows.written (h : course.Follows host below context operator target value machine) :
    ∃ cell, course.sink.sink? context.scope course.third.heap = some cell ∧
      course.after =
        { course.third with heap := course.third.heap.write course.new cell } := by
  obtain ⟨heap, hstore, hafter⟩ := h.writes
  obtain ⟨cell, hcell, rfl⟩ := Place.store_eq_write hstore
  exact ⟨cell, hcell, hafter.symm⟩

theorem Follows.sameCell (h : course.Follows host below context operator target value machine)
    (hsink : course.sink = course.source)
    (hstable : course.source.Stable context.scope course.first.heap course.third.heap) :
    course.SameCell context.scope := by
  obtain ⟨cell, hcell, -⟩ := h.written
  refine ⟨cell, ?_, hcell⟩
  rw [← hcell, hsink]
  exact (Place.sink?_eq_source? hstable).symm

-- Parts without effects leave the machine as it is, both times.
theorem Follows.still (h : course.Follows host below context operator target value machine)
    (ht : target.isEffectFree) : course.first = machine ∧ course.third = course.second :=
  ⟨(target.still_findPlace ht).eq_of_done h.pass, (target.still_findPlace ht).eq_of_done h.again⟩

-- If the value has no effects either, both passes start from the same machine.
theorem Follows.undisturbed (h : course.Follows host below context operator target value machine)
    (ht : target.isEffectFree) (hv : value.isEffectFree) :
    course.second = machine ∧ course.third = machine ∧ course.sink = course.source := by
  obtain ⟨hfirst, hthird⟩ := h.still ht
  have hsecond : course.second = machine := by
    rw [← hfirst]
    exact (value.still_eval hv).eq_of_done h.evaluates
  have hagain := h.again
  rw [hsecond, h.pass] at hagain
  obtain ⟨hsink, -⟩ := Prod.mk.inj hagain
  exact ⟨hsecond, hthird.trans hsecond, (Ending.done.inj hsink).symm⟩

-- A variable is its own place.
theorem Follows.named {name : String}
    (h : course.Follows host below context operator target value machine)
    (hname : course.source = .named name) :
    course.first = machine ∧ course.third = course.second ∧ course.sink = course.source := by
  have hpass := h.pass
  have hagain := h.again
  cases target with
  | identifier offset name =>
    obtain ⟨hsource, hfirst⟩ := Run.pure_eq_done.mp hpass
    obtain ⟨hsink, hthird⟩ := Run.pure_eq_done.mp hagain
    exact ⟨hfirst.symm, hthird.symm, hsink.symm.trans hsource⟩
  | dot offset target name =>
    obtain ⟨container, middle, -, hend⟩ := Run.bind_eq_done.mp hpass
    have hsource := (Run.pure_eq_done.mp hend).1
    rw [hname] at hsource
    cases hsource
  | subscript offset target index =>
    obtain ⟨container, middle, -, hrest⟩ := Run.bind_eq_done.mp hpass
    obtain ⟨key, last, -, hend⟩ := Run.bind_eq_done.mp hrest
    have hsource := (Run.pure_eq_done.mp hend).1
    rw [hname] at hsource
    cases hsource
  | _ => cases hpass

-- The value only extends the heap, so a frame that has the name keeps it.
theorem Follows.isSome_get? {fuel : Nat} (hh : host.OnlyAdds)
    (h : course.Follows host (Below.ofFuel host fuel) context operator target value machine)
    {ref : ObjectRef} {name : String} (hs : (course.first.heap.get? ref name).isSome) :
    (course.second.heap.get? ref name).isSome := by
  have hp : (Pairing.extending course.first.heap course.first.root).Lawful host host :=
    Pairing.lawful_extending hh
  have hrun := value.matches_eval hp (Pairing.covers_extending hh fuel context.scope)
    fun _ _ => trivial
  have hends := hrun course.first course.first ⟨rfl, Heap.Extends.refl course.first.heap, rfl⟩
  obtain ⟨-, hextends, -⟩ := hends.pairs
  rw [h.evaluates] at hextends
  exact hextends.isSome_get? hs

-- A variable at top level is one of the root, and one in the innermost frame stays there.
theorem Follows.sameCell_named {name : String}
    (h : course.Follows host below context operator target value machine)
    (hname : course.source = .named name)
    (hframe : context.scope.inner = [] ∨
      (host.OnlyAdds ∧ (∃ fuel, below = Below.ofFuel host fuel) ∧
        (machine.heap.get? context.scope.frame name).isSome)) :
    course.SameCell context.scope := by
  obtain ⟨hfirst, hthird, hsink⟩ := h.named hname
  refine h.sameCell hsink ?_
  rw [hname]
  change context.scope.assignee course.third.heap name =
    context.scope.holder course.first.heap name
  obtain hinner | ⟨hh, ⟨fuel, rfl⟩, hs⟩ := hframe
  · simp [Scope.assignee, Scope.holder, Scope.frame, hinner]
  · rw [← hfirst] at hs
    have hlater : (course.third.heap.get? context.scope.frame name).isSome := by
      rw [hthird]
      exact h.isSome_get? hh hs
    rw [Scope.holder_eq_assignee (.inl hs), Scope.assignee, Scope.assignee, if_pos hs,
      if_pos hlater]

end Course

-- An update that succeeds has gone over the parts of its target exactly twice, before its value and
-- behind it. It has read the place of the first pass and changed the one cell of the second. The cell
-- is the one that was read if both passes come to one place; if the parts have no effects, nothing
-- comes twice, and if the value has none either, the cell is the same and nothing else changes, but
-- for a variable that is found between the innermost frame and the root. A variable at top level or
-- in the innermost frame is the same whatever the value does.
theorem Expr.update_passes (host : Host σ) (below : Below σ) (context : Context) (offset : Nat)
    (operator : BinaryOp) (target value : Expr) (givesOld : Bool) (machine : Machine σ) :
    (∀ result after,
      (Expr.update offset operator target value givesOld).eval host below context machine =
          (.done result, after) ↔
        ∃ course : Course σ, course.Follows host below context operator target value machine ∧
          course.after = after ∧ (if givesOld then course.old else course.new) = result) ∧
    ∀ course : Course σ, course.Follows host below context operator target value machine →
      (∀ cell, course.source.source? context.scope course.first.heap = some cell →
        course.old = course.first.heap.read cell) ∧
      (∃ cell, course.sink.sink? context.scope course.third.heap = some cell ∧
        course.after = { course.third with heap := course.third.heap.write course.new cell }) ∧
      (course.sink = course.source →
        course.source.Stable context.scope course.first.heap course.third.heap →
          course.SameCell context.scope) ∧
      (target.isEffectFree → course.first = machine ∧ course.third = course.second) ∧
      (target.isEffectFree → value.isEffectFree →
        (∀ name, course.source = .named name → context.scope.Direct machine.heap name) →
          course.SameCell context.scope ∧ course.third = machine) ∧
      ∀ name, course.source = .named name →
        context.scope.inner = [] ∨
          (host.OnlyAdds ∧ (∃ fuel, below = Below.ofFuel host fuel) ∧
            (machine.heap.get? context.scope.frame name).isSome) →
        course.SameCell context.scope := by
  refine ⟨fun _ _ => update_eq_done, fun course h => ⟨fun cell hcell => ?_, h.written,
    h.sameCell, h.still, fun ht hv hdirect => ?_, fun name hname hframe => ?_⟩⟩
  · rw [← h.reads]
    exact Place.value_eq_read hcell
  · obtain ⟨-, hthird, hsink⟩ := h.undisturbed ht hv
    have hstable : course.source.Stable context.scope course.first.heap course.third.heap := by
      rw [(h.still ht).1, hthird]
      exact Place.stable_self hdirect
    exact ⟨h.sameCell hsink hstable, hthird⟩
  · exact h.sameCell_named hname hframe

section Sample

-- A machine on which `a` is an array and `i` a number.
def Machine.shelf (index : Int64) (elements : List Value) : Machine Unit :=
  { heap := ⟨#[⟨.ordinary, ⟨[("a", .array ⟨0⟩), ("i", .int index)]⟩⟩], #[elements.toArray], #[]⟩
    root := ⟨0⟩, deadline := .never, readings := 0, depth := 0, maxDepth := 0
    transcript := default, host := () }

-- The update `a[i] += i` reads and writes the one element and does nothing else.
theorem Expr.update_passes_shelf : ∃ course : Course Unit,
    course.Follows Host.bare (Below.ofFuel Host.bare 0) ⟨"a[i] += i", .ofRoot ⟨0⟩⟩ .add
      (.subscript 1 (.identifier 0 "a") (.identifier 2 "i")) (.identifier 8 "i")
      (.shelf 1 [.int 10, .int 20]) ∧
    course.SameCell (.ofRoot ⟨0⟩) ∧ course.third = .shelf 1 [.int 10, .int 20] ∧
    course.after = .shelf 1 [.int 10, .int 21] := by
  obtain ⟨hdone, hcourse⟩ := update_passes Host.bare (Below.ofFuel Host.bare 0)
    ⟨"a[i] += i", .ofRoot ⟨0⟩⟩ 5 .add (.subscript 1 (.identifier 0 "a") (.identifier 2 "i"))
    (.identifier 8 "i") false (.shelf 1 [.int 10, .int 20])
  obtain ⟨course, hfollows, hafter, -⟩ :=
    (hdone (.int 21) (.shelf 1 [.int 10, .int 21])).mp rfl
  obtain ⟨-, -, -, -, hwhole, -⟩ := hcourse course hfollows
  obtain ⟨hsame, hthird⟩ := hwhole rfl rfl fun _ _ => .inr (by simp [Scope.ofRoot])
  exact ⟨course, hfollows, hsame, hthird, hafter⟩

-- The course of `a[i++] += 1`.
def Course.straying : Course Unit where
  source := .element (.array ⟨0⟩) (.int 0)
  first := .shelf 1 [.int 10, .int 20]
  old := .int 10
  other := .int 1
  second := .shelf 1 [.int 10, .int 20]
  new := .int 11
  sink := .element (.array ⟨0⟩) (.int 1)
  third := .shelf 2 [.int 10, .int 20]
  after := .shelf 2 [.int 10, .int 11]

-- It reads `a[0]` and writes `a[1]`, and the index goes up twice. So it is for the text, and where a
-- calling function has the variable, that one is read and the root gets the new value.
theorem Course.straying_follows :
    (straying.Follows Host.bare (Below.ofFuel Host.bare 0) ⟨"a[i++] += 1", .ofRoot ⟨0⟩⟩ .add
        (.subscript 1 (.identifier 0 "a")
          (Grammar.increment 3 .add (.identifier 2 "i") true)) (Grammar.integer 10 1)
        (.shelf 0 [.int 10, .int 20]) ∧
      ¬ straying.SameCell (.ofRoot ⟨0⟩)) ∧
    let engine := ((Engine.create { installStandard := false } ()).execute Host.bare 10
      ("var a = [10, 20]; var i = 0; a[i++] += 1; " ++ "function g() \x7b x += 1; \x7d " ++
        "function f() \x7b var x = 1; g(); return x; \x7d")).2
    (engine.evaluate Host.bare 10 "a[0] + ',' + a[1] + ',' + i + ',' + f() + ',' + x").1.value?.map
      Heap.empty.toText = some "10,11,2,1,2" := by
  refine ⟨⟨⟨rfl, rfl, rfl, rfl, rfl, rfl, _, rfl, rfl⟩, ?_⟩, by decide +kernel⟩
  rintro ⟨cell, hsource, hsink⟩
  have hread : straying.source.source? (.ofRoot ⟨0⟩) straying.first.heap =
    some (.element ⟨0⟩ 0) := rfl
  have hwritten : straying.sink.sink? (.ofRoot ⟨0⟩) straying.third.heap =
    some (.element ⟨0⟩ 1) := rfl
  rw [hread] at hsource
  rw [hwritten, ← hsource] at hsink
  cases hsink

end Sample

end ScriptEngine
