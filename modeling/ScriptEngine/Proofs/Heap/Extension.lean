import ScriptEngine.Proofs.Heap.Walks
import ScriptEngine.Proofs.Pairing.Invariant

-- Objects are only ever extended. What an object is stays, and so do its names and their order,
-- however a run ends.

namespace ScriptEngine

open Pairing

variable {σ : Type}

theorem Properties.isSome_get?_iff (properties : Properties) (name : String) :
    (properties.get? name).isSome ↔ name ∈ properties.names := by
  simp [get?, names, List.lookup_isSome_iff]

theorem Properties.names_isPrefix_set (properties : Properties) (name : String) (value : Value) :
    properties.names <+: (properties.set name value).names := by
  rw [names_set]
  split
  · exact List.prefix_rfl
  · exact List.prefix_append _ _

namespace Heap

variable {before middle after : Heap}

theorem object_set (heap : Heap) (ref other : ObjectRef) (name : String) (value : Value) :
    (heap.set ref name value).object other =
      if ref = other ∧ other.index < heap.objects.size then (heap.object other).set name value
      else heap.object other := by
  unfold set modifyObject object
  dsimp only
  rw [Array.getElem?_modify]
  by_cases he : ref = other
  · subst he
    by_cases hr : ref.index < heap.objects.size <;> simp [hr]
  · have hi : ref.index ≠ other.index := fun hi => he (congrArg ObjectRef.mk hi)
    simp [he, hi]

theorem get?_set (heap : Heap) (ref : ObjectRef) (name key : String) (value : Value)
    {other : ObjectRef} (hr : other.index < heap.objects.size) :
    (heap.set ref name value).get? other key =
      if ref = other ∧ name = key then some value else heap.get? other key := by
  unfold get?
  rw [object_set]
  by_cases he : ref = other
  · rw [if_pos ⟨he, hr⟩, Object.set, Properties.get?_set]
    simp [he, eq_comm]
  · rw [if_neg fun h => he h.1, if_neg fun h => he h.1]

-- A later heap. The objects of the earlier one are what they were, and their names still come first.
structure Extends (before after : Heap) : Prop where
  size : before.objects.size ≤ after.objects.size
  kind (ref : ObjectRef) : ref.index < before.objects.size →
    (after.object ref).kind = (before.object ref).kind
  names (ref : ObjectRef) : before.names ref <+: after.names ref

theorem Extends.refl (heap : Heap) : heap.Extends heap :=
  ⟨Nat.le_refl _, fun _ _ => rfl, fun _ => List.prefix_rfl⟩

theorem Extends.trans (h : before.Extends middle) (h' : middle.Extends after) :
    before.Extends after where
  size := Nat.le_trans h.size h'.size
  kind ref hr := (h'.kind ref (Nat.lt_of_lt_of_le hr h.size)).trans (h.kind ref hr)
  names ref := (h.names ref).trans (h'.names ref)

-- Setting a property extends the object.
theorem extends_set (heap : Heap) (ref : ObjectRef) (name : String) (value : Value) :
    heap.Extends (heap.set ref name value) := by
  refine ⟨by simp [set, modifyObject], fun other _ => ?_, fun other => ?_⟩
  · obtain h | h := heap.object_modifyObject ref other (·.set name value) <;> rw [set, h]
    rfl
  · unfold names
    obtain h | h := heap.object_modifyObject ref other (·.set name value)
    · exact ⟨[], by rw [set, h, List.append_nil]⟩
    · rw [set, h]
      exact Properties.names_isPrefix_set _ _ _

-- A heap with the same objects and maybe more.
structure Adds (before after : Heap) : Prop where
  size : before.objects.size ≤ after.objects.size
  object (ref : ObjectRef) : ref.index < before.objects.size →
    after.object ref = before.object ref

theorem Adds.extends (h : before.Adds after) : before.Extends after := by
  refine ⟨h.size, fun ref hr => congrArg Object.kind (h.object ref hr), fun ref => ?_⟩
  unfold names
  by_cases hr : ref.index < before.objects.size
  · exact ⟨[], by rw [h.object ref hr, List.append_nil]⟩
  · rw [object_of_size_le (Nat.le_of_not_lt hr)]
    exact List.nil_prefix

theorem Adds.of_objects_eq (h : before.Adds middle) (he : after.objects = middle.objects) :
    before.Adds after := by
  refine ⟨?_, fun ref hr => ?_⟩
  · rw [he]
    exact h.size
  · refine Eq.trans ?_ (h.object ref hr)
    unfold Heap.object
    rw [he]

theorem adds_addObject (heap : Heap) (object : Object) :
    heap.Adds (heap.addObject object).2 := by
  refine ⟨by simp [addObject], fun ref hr => ?_⟩
  simp [addObject, Heap.object, Array.getElem?_push_lt hr, hr]

theorem Change.extends {accepts : Closure → Prop} (h : before.Change accepts after) :
    before.Extends after := by
  cases h with
  | nothing => exact .refl before
  | set ref name value => exact before.extends_set ref name value
  | addObject object _ => exact (before.adds_addObject object).extends
  | addArray elements => exact ⟨Nat.le_refl _, fun _ _ => rfl, fun _ => List.prefix_rfl⟩
  | modifyArray ref change => exact ⟨Nat.le_refl _, fun _ _ => rfl, fun _ => List.prefix_rfl⟩

-- An object has been made before it is referred to.
def Knows (heap : Heap) : Value → Prop
  | .object ref => ref.index < heap.objects.size
  | _ => True

theorem Extends.typeOf (h : before.Extends after) {value : Value} (hk : before.Knows value) :
    after.typeOf value = before.typeOf value := by
  cases value with
  | object ref =>
    have hclosure : (after.object ref).closure? = (before.object ref).closure? := by
      unfold Object.closure?
      rw [h.kind ref hk]
    simp only [Heap.typeOf, typeTag, hclosure]
  | _ => rfl

-- A name that an object has does not disappear.
theorem Extends.isSome_get? (h : before.Extends after) {ref : ObjectRef} {name : String}
    (hs : (before.get? ref name).isSome) : (after.get? ref name).isSome :=
  (Properties.isSome_get?_iff _ _).mpr
    ((h.names ref).subset ((Properties.isSome_get?_iff _ _).mp hs))

end Heap

-- The functions of the embedding program leave the objects alone that there are.
def Host.OnlyAdds (host : Host σ) : Prop :=
  ∀ machine : Machine σ, host.Keeps fun after => machine.heap.Adds after.heap ∧ after.root = machine.root

section Run

variable {host : Host σ} {start : Heap} {root : ObjectRef}

-- Machines whose heap is later than a given one.
def Pairing.extending (start : Heap) (root : ObjectRef) : Pairing σ σ :=
  holding (fun machine => start.Extends machine.heap ∧ machine.root = root) (fun _ => True)
    (fun _ => True) True

theorem Host.OnlyAdds.keeps (hh : host.OnlyAdds) :
    host.Keeps fun machine => start.Extends machine.heap ∧ machine.root = root :=
  Host.keeps_of_step hh (fun _ => ⟨⟨Nat.le_refl _, fun _ _ => rfl⟩, rfl⟩)
    fun hm ha => ⟨hm.1.trans ha.1.extends, ha.2.trans hm.2⟩

theorem Pairing.lawful_extending (hh : host.OnlyAdds) :
    (extending start root).Lawful host host := by
  refine lawful_holding hh.keeps (fun hc hm => ?_) (fun _ _ _ _ => trivial)
    (fun _ _ _ _ => trivial) (fun hc hm => ⟨hm.1.trans hc.extends, hm.2⟩)
    (fun _ _ _ _ _ _ _ _ => trivial)
  rw [hc.heap, hc.root]
  exact hm

theorem Pairing.covers_extending (hh : host.OnlyAdds) (fuel : Nat) (scope : Scope) :
    (extending start root).Covers (Below.ofFuel host fuel) (Below.ofFuel host fuel) scope :=
  covers_holding (fun _ machine => start.Extends machine.heap ∧ machine.root = root)
    (fun _ => lawful_extending hh) id id 0 fuel scope

end Run

namespace Entry

variable {host : Host σ}

-- Whatever its ending, an entry leaves every object what it was and takes no name away, and so the
-- global names stay.
theorem extends_perform (hh : host.OnlyAdds) (fuel : Nat) (engine : Engine σ) (entry : Entry) :
    engine.heap.Extends (entry.perform host fuel engine).2.heap ∧
    (∀ value, engine.heap.Knows value →
      (entry.perform host fuel engine).2.heap.typeOf value = engine.heap.typeOf value) ∧
    (entry.perform host fuel engine).2.root = engine.root ∧
    ∀ name, (engine.heap.get? engine.root name).isSome →
      ((entry.perform host fuel engine).2.heap.get? engine.root name).isSome := by
  have hp : (extending engine.heap engine.root).Lawful host host := lawful_extending hh
  have hmeets : entry.Meets (fuel = fuel ∧ True) fun _ => True := by
    cases entry with
    | execute source => exact fun _ _ => ⟨fun _ => ⟨rfl, trivial⟩, fun _ _ => trivial⟩
    | evaluate source => exact fun _ _ _ _ => trivial
    | callFunction _ _ | callWithin _ _ _ => trivial
  have hrun := matches_run hp (covers_extending hh fuel) engine entry hmeets
  have hends := hrun (engine.machine.restart host engine.timeout) _
    ⟨rfl, Heap.Extends.refl engine.heap, rfl⟩
  obtain ⟨-, hextends, hroot⟩ := hends.pairs
  rw [perform_eq_run]
  exact ⟨hextends, fun _ hk => hextends.typeOf hk, hroot, fun _ hs => hextends.isSome_get? hs⟩

section Sample

-- The functions of the probe make arrays and instances and change nothing that is there.
theorem onlyAdds_probe : Probe.host.OnlyAdds := fun start =>
  Probe.keeps (P := fun heap root _ _ => start.heap.Adds heap ∧ root = start.root)
    fun _ hm => ⟨hm.1.of_objects_eq rfl, hm.2⟩

-- An engine whose scripts can run scripts.
def nesting : Engine Probe.State :=
  let engine := Engine.create { installStandard := false } default
  Probe.registerFunction "args" "args" (engine.registerNative "exec" (.global .exec))

-- Sets properties through a receiver and from an inner script, and fails at an array in the end.
def stamping : Entry :=
  .execute ("function A(x) \x7b this.x = x; \x7d var a = new A(args(1)); " ++
    "exec(\"this.b = a; exec = 2;\"); a.x.y = 1; b = 2;")

-- The global function is overwritten, and its name keeps its place before the new names.
theorem extends_perform_stamping : Probe.host.OnlyAdds ∧
    nesting.heap.Extends (stamping.perform Probe.host 10 nesting).2.heap ∧
    nesting.heap.names nesting.root = ["exec", "args"] ∧
    (stamping.perform Probe.host 10 nesting).2.heap.names nesting.root =
      ["exec", "args", "A", "a", "b"] ∧
    ((stamping.perform Probe.host 10 nesting).2.heap.get? nesting.root "exec").map
      (stamping.perform Probe.host 10 nesting).2.heap.typeOf = some "number" := by
  refine ⟨onlyAdds_probe, (extends_perform onlyAdds_probe 10 nesting stamping).1, ?_⟩
  decide +kernel

end Sample

end Entry

end ScriptEngine
