import Mathlib.Data.List.Chain
import ScriptEngine.Proofs.Heap.Walks

-- The objects on which a look-up along prototype links searches for a name: a value that is an object,
-- its prototype, the prototype of that one and so on, each of them once if the links lead back.

namespace ScriptEngine

def Value.objectRef? : Value → Option ObjectRef
  | .object ref => some ref
  | _ => none

namespace Heap

variable {heap : Heap} {target : Value} {line : List ObjectRef} {name : String}

-- Objects from a target on along the links, without a repetition.
structure Ascends (heap : Heap) (target : Value) (line : List ObjectRef) : Prop where
  starts : line.head? = target.objectRef?
  links : line.IsChain fun object next => (heap.object object).prototype? = some next
  nodup : line.Nodup

-- As many as there are: no link leads out of them.
structure Lineage (heap : Heap) (target : Value) (line : List ObjectRef) : Prop
    extends heap.Ascends target line where
  closed : ∀ object ∈ line, ∀ next, (heap.object object).prototype? = some next → next ∈ line

-- From every object but the last, the link leads to another one of them.
theorem exists_next {line : List ObjectRef}
    (hl : line.IsChain fun object next => (heap.object object).prototype? = some next) :
    ∀ object ∈ line.dropLast, ∃ next ∈ line, (heap.object object).prototype? = some next := by
  induction hl with
  | nil | singleton _ => exact nofun
  | cons_cons hp _ ih =>
    rw [List.dropLast_cons_cons, List.forall_mem_cons]
    refine ⟨⟨_, List.mem_cons_of_mem _ List.mem_cons_self, hp⟩, fun object hm => ?_⟩
    obtain ⟨next, hn, hnext⟩ := ih object hm
    exact ⟨next, List.mem_cons_of_mem _ hn, hnext⟩

theorem Ascends.length_le (h : heap.Ascends target line) :
    line.length ≤ heap.objects.size + 1 := by
  have hinside : ∀ object ∈ line.dropLast, object.index < heap.objects.size := fun object hm =>
    have ⟨_, _, hp⟩ := exists_next h.links object hm
    index_lt_of_prototype? hp
  have hlength : line.dropLast.length ≤ heap.objects.size :=
    length_le_of_nodup ObjectRef.mk (h.nodup.sublist (List.dropLast_sublist _))
      fun object hm => ⟨object.index, hinside object hm, rfl⟩
  rw [List.length_dropLast] at hlength
  omega

-- Only the last object can lead to a new one.
theorem Ascends.lineage_or_longer (h : heap.Ascends target line) :
    heap.Lineage target line ∨ ∃ next, heap.Ascends target (line ++ [next]) := by
  by_cases hnew : ∃ object ∈ line, ∃ next, (heap.object object).prototype? = some next ∧ next ∉ line
  · obtain ⟨object, hm, next, hp, hnot⟩ := hnew
    obtain rfl | ⟨before, last, rfl⟩ := List.eq_nil_or_concat' line
    · cases hm
    · have hlast : object = last := by
        obtain hbefore | hlast := List.mem_append.mp hm
        · have hdrop : object ∈ (before ++ [last]).dropLast := by rwa [List.dropLast_concat]
          obtain ⟨other, hother, hp'⟩ := exists_next h.links object hdrop
          exact absurd (Option.some.inj (hp'.symm.trans hp) ▸ hother) hnot
        · exact List.mem_singleton.mp hlast
      refine .inr ⟨next, by simpa using h.starts, ?_, ?_⟩
      · refine List.isChain_append.mpr ⟨h.links, .singleton next, fun other ho later hl => ?_⟩
        rw [List.getLast?_concat, Option.mem_some_iff] at ho
        obtain rfl := Option.mem_some_iff.mp hl
        rw [← ho, ← hlast, hp]
      · refine List.nodup_append.mpr ⟨h.nodup, List.nodup_cons.mpr ⟨List.not_mem_nil, .nil⟩, ?_⟩
        rintro other ho later hl rfl
        exact hnot (List.mem_singleton.mp hl ▸ ho)
  · refine .inl ⟨h, fun object hm next hp => ?_⟩
    exact Classical.by_contradiction fun hnot => hnew ⟨object, hm, next, hp, hnot⟩

theorem Ascends.exists_lineage {line : List ObjectRef} (h : heap.Ascends target line) :
    ∃ whole, heap.Lineage target whole := by
  obtain hline | ⟨next, hnext⟩ := h.lineage_or_longer
  · exact ⟨line, hline⟩
  · have hlength : line.length + 1 ≤ heap.objects.size + 1 := by simpa using hnext.length_le
    exact hnext.exists_lineage
termination_by heap.objects.size + 1 - line.length

theorem exists_lineage (heap : Heap) (target : Value) : ∃ line, heap.Lineage target line := by
  have hstart : heap.Ascends target target.objectRef?.toList := by
    cases target with
    | object ref =>
      exact ⟨rfl, .singleton ref, List.nodup_cons.mpr ⟨List.not_mem_nil, List.nodup_nil⟩⟩
    | _ => exact ⟨rfl, .nil, List.nodup_nil⟩
  exact hstart.exists_lineage

end Heap

end ScriptEngine
