import Mathlib.Logic.Relation
import ScriptEngine.Proofs.Heap.Walks

-- The objects that are looked at for a text. The model follows wrappers and arrays with a bound and
-- does not enter an array inside itself. What it finds is what the value leads to, however far and
-- however often arrays come back to themselves.

namespace ScriptEngine.Heap

variable {heap : Heap} {target : ObjectRef} {value : Value}

-- A text takes the text of another value: that of a wrapper takes its content's, and that of an array
-- takes those of its elements, except where they are nothing.
inductive Shows (heap : Heap) : Value → Value → Prop where
  | content {ref : ObjectRef} {content : Instance} : (heap.object ref).instance? = some content →
    Shows heap (.object ref) content.primitive
  | element {ref : ArrayRef} {element : Value} : element ∈ (heap.array ref).toList →
    element.isNothing = false → Shows heap (.array ref) element

-- The text of a value leads to an object.
def Visits (heap : Heap) (target : ObjectRef) (value : Value) : Prop :=
  Relation.ReflTransGen heap.Shows value (.object target)

theorem index_lt_of_mem {ref : ArrayRef} (h : value ∈ (heap.array ref).toList) :
    ref.index < heap.arrays.size := by
  refine Nat.lt_of_not_le fun hle => ?_
  rw [array_of_size_le hle] at h
  cases h

section Soundness

theorem shows_unwrapWithin (heap : Heap) (steps : Nat) (value : Value) :
    Relation.ReflTransGen heap.Shows value (heap.unwrapWithin steps value) := by
  induction steps generalizing value with
  | zero => cases value <;> exact .refl
  | succ steps ih =>
    cases value with
    | object ref =>
      rw [unwrapWithin]
      cases hi : (heap.object ref).instance? with
      | none => exact .refl
      | some content => exact .head (.content hi) (ih content.primitive)
    | _ => exact .refl

theorem visits_of_meetsWithin {steps : Nat} (h : heap.meetsWithin target steps value) :
    heap.Visits target value := by
  induction steps generalizing value with
  | zero =>
    cases value with
    | object ref =>
      obtain rfl : ref = target := by simpa [meetsWithin] using h
      exact .refl
    | _ => cases h
  | succ steps ih =>
    cases value with
    | object ref =>
      rw [meetsWithin, Bool.or_eq_true] at h
      obtain hself | hinside := h
      · obtain rfl : ref = target := by simpa using hself
        exact .refl
      · cases hi : (heap.object ref).instance? with
        | none =>
          rw [hi] at hinside
          cases hinside
        | some content =>
          rw [hi] at hinside
          exact .head (.content hi) (ih hinside)
    | _ => cases h

end Soundness

-- An object is seen in the text of a value inside of arrays: around the value, with `steps` for the
-- wrappers, or inside of an array, with `depth` for more arrays.
def SeesWithin (heap : Heap) (target : ObjectRef) (steps depth : Nat) (within : List ArrayRef)
    (value : Value) : Prop :=
  heap.meetsWithin target steps value ∨
    ∃ ref, heap.unwrapWithin steps value = .array ref ∧ ref ∉ within ∧
      ∃ element ∈ (heap.array ref).toList, element.isNothing = false ∧
        heap.visitsWithin target depth (ref :: within) element

variable {steps depth : Nat} {within : List ArrayRef}

theorem visitsWithin_succ :
    heap.visitsWithin target (depth + 1) within value ↔
      heap.SeesWithin target heap.objects.size depth within value := by
  rw [visitsWithin, Bool.or_eq_true, SeesWithin]
  refine or_congr Iff.rfl ?_
  change _ ↔ ∃ ref, heap.unwrap value = .array ref ∧ _
  cases heap.unwrap value with
  | array ref =>
    by_cases hm : ref ∈ within
    · simp [hm]
    · simp only [hm, if_false, List.any_eq_true, Bool.and_eq_true, Bool.not_eq_true',
        Value.array.injEq, exists_eq_left', not_false_eq_true, true_and]
  | _ => simp

theorem seesWithin_self :
    heap.SeesWithin target steps depth within (.object target) := by
  refine .inl ?_
  cases steps <;> simp [meetsWithin]

theorem SeesWithin.content {ref : ObjectRef} {content : Instance}
    (h : heap.SeesWithin target steps depth within content.primitive)
    (hi : (heap.object ref).instance? = some content) :
    heap.SeesWithin target (steps + 1) depth within (.object ref) := by
  rw [SeesWithin, meetsWithin, unwrapWithin, hi, Bool.or_eq_true]
  exact h.imp .inr id

theorem SeesWithin.element {ref : ArrayRef} {element : Value}
    (h : heap.SeesWithin target heap.objects.size depth (ref :: within) element)
    (hm : element ∈ (heap.array ref).toList) (hs : element.isNothing = false)
    (hn : ref ∉ within) : heap.SeesWithin target steps (depth + 1) within (.array ref) := by
  refine .inr ⟨ref, ?_, hn, element, hm, hs, visitsWithin_succ.mpr h⟩
  cases steps <;> rfl

theorem visits_of_visitsWithin (h : heap.visitsWithin target depth within value) :
    heap.Visits target value := by
  induction depth generalizing within value with
  | zero => cases h
  | succ depth ih =>
    obtain hmeets | ⟨ref, hu, -, element, hm, hs, hinside⟩ := visitsWithin_succ.mp h
    · exact visits_of_meetsWithin hmeets
    · have harray := heap.shows_unwrapWithin heap.objects.size value
      rw [hu] at harray
      exact harray.trans (.head (.element hm hs) (ih hinside))

section Completeness

-- A way to an object that comes to no value twice and to none of those behind it.
inductive Nears (heap : Heap) (target : ObjectRef) : List Value → Value → Prop where
  | here {past : List Value} : Nears heap target past (.object target)
  | step {past : List Value} {value next : Value} : value ∉ past → heap.Shows value next →
    Nears heap target (value :: past) next → Nears heap target past value

variable {past : List Value}

theorem Nears.mono (h : heap.Nears target past value) {others : List Value} (hs : others ⊆ past) :
    heap.Nears target others value := by
  induction h generalizing others with
  | here => exact .here
  | step hnew hshows _ ih =>
    exact .step (fun hm => hnew (hs hm)) hshows (ih (List.cons_subset_cons _ hs))

-- A way goes past a value, or there is a way from that value.
theorem Nears.cut (h : heap.Nears target past value) (node : Value) :
    heap.Nears target (node :: past) value ∨ heap.Nears target past node := by
  induction h with
  | here => exact .inl .here
  | @step past value next hnew hshows hnext ih =>
    by_cases he : value = node
    · subst he
      exact .inr (.step hnew hshows hnext)
    · obtain hpast | hnode := ih
      · refine .inl (.step (List.not_mem_cons_of_ne_of_not_mem he hnew) hshows (hpast.mono ?_))
        exact (List.Perm.swap _ _ _).subset
      · exact .inr (hnode.mono (List.subset_cons_self _ _))

theorem Visits.nears (h : heap.Visits target value) : heap.Nears target [] value := by
  refine Relation.ReflTransGen.head_induction_on h .here fun {value next} hshows _ ih => ?_
  obtain hpast | hvalue := ih.cut value
  · exact .step List.not_mem_nil hshows hpast
  · exact hvalue

-- Different references in use whose values are behind.
structure Passed {ι : Type} (make : Nat → ι) (value : ι → Value) (size : Nat) (past : List Value)
    (refs : List ι) : Prop where
  nodup : refs.Nodup
  inside : ∀ ref ∈ refs, ∃ index < size, make index = ref
  behind : ∀ ref ∈ refs, value ref ∈ past

section Passed

variable {ι : Type} {make : Nat → ι} {toValue : ι → Value} {size : Nat} {refs : List ι}

theorem passed_nil : Passed make toValue size past [] :=
  ⟨List.nodup_nil, List.forall_mem_nil _, List.forall_mem_nil _⟩

theorem Passed.later (h : Passed make toValue size past refs) (value : Value) :
    Passed make toValue size (value :: past) refs :=
  ⟨h.nodup, h.inside, fun ref hm => List.mem_cons_of_mem _ (h.behind ref hm)⟩

theorem Passed.cons (h : Passed make toValue size past refs) {index : Nat} (hlt : index < size)
    (hnew : toValue (make index) ∉ past) :
    Passed make toValue size (toValue (make index) :: past) (make index :: refs) where
  nodup := List.nodup_cons.mpr ⟨fun hm => hnew (h.behind _ hm), h.nodup⟩
  inside := List.forall_mem_cons.mpr ⟨⟨index, hlt, rfl⟩, h.inside⟩
  behind := List.forall_mem_cons.mpr ⟨List.mem_cons_self, (h.later _).behind⟩

theorem Passed.length_le (h : Passed make toValue size past refs) : refs.length ≤ size :=
  length_le_of_nodup make h.nodup h.inside

end Passed

-- Wrappers that stand around a value and arrays that it stands in are among the values behind it. So
-- there is room for those that are still ahead.
theorem Nears.seesWithin (h : heap.Nears target past value) {wrappers : List ObjectRef}
    (hw : Passed ObjectRef.mk Value.object heap.objects.size past wrappers)
    (ha : Passed ArrayRef.mk Value.array heap.arrays.size past within)
    (hs : heap.objects.size ≤ steps + wrappers.length)
    (hd : heap.arrays.size ≤ depth + within.length) :
    heap.SeesWithin target steps depth within value := by
  induction h generalizing wrappers within steps depth with
  | here => exact seesWithin_self
  | step hnew hshows _ ih =>
    cases hshows with
    | @content ref content hi =>
      have hw' := hw.cons (index_lt_of_instance? hi) hnew
      have hroom := hw'.length_le
      rw [List.length_cons] at hroom
      obtain ⟨steps, rfl⟩ := Nat.exists_eq_add_of_le' (show 1 ≤ steps by omega)
      refine (ih hw' (ha.later _) ?_ hd).content hi
      rw [List.length_cons]
      omega
    | @element ref _ hm hsome =>
      have ha' := ha.cons (index_lt_of_mem hm) hnew
      have hroom := ha'.length_le
      rw [List.length_cons] at hroom
      obtain ⟨depth, rfl⟩ := Nat.exists_eq_add_of_le' (show 1 ≤ depth by omega)
      -- Around an element the wrappers are counted anew.
      refine (ih passed_nil ha' (Nat.le_refl _) ?_).element hm hsome fun hw => hnew (ha.behind _ hw)
      rw [List.length_cons]
      omega

end Completeness

-- The bounds of the walk leave nothing out.
theorem textVisits_iff : heap.textVisits target value ↔ heap.Visits target value := by
  refine ⟨visits_of_visitsWithin, fun h => visitsWithin_succ.mpr ?_⟩
  exact h.nears.seesWithin passed_nil passed_nil (Nat.le_add_right _ _) (Nat.le_add_right _ _)

end ScriptEngine.Heap
