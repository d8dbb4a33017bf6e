import ScriptEngine.Heap.Elements

-- Writes of elements as reads see them. A write fills the array up to its index, and what it has put
-- in between reads like what lies behind the end.

namespace ScriptEngine.Heap

variable {heap before after : Heap} {ref : ArrayRef} {index : Int64} {value : Value}

theorem array_modifyArray (heap : Heap) (ref other : ArrayRef)
    (change : Array Value → Array Value) : (heap.modifyArray ref change).array other =
      if ref = other ∧ other.index < heap.arrays.size then change (heap.array other)
      else heap.array other := by
  unfold modifyArray array
  dsimp only
  rw [Array.getElem?_modify]
  by_cases he : ref = other
  · subst he
    by_cases hr : ref.index < heap.arrays.size <;> simp [hr]
  · have hi : ref.index ≠ other.index := fun hi => he (congrArg ArrayRef.mk hi)
    simp [he, hi]

section Place

variable (elements : Array Value) (index : Nat) (value : Value)

theorem size_place : (place elements index value).size = max elements.size (index + 1) := by
  unfold place
  split
  · rw [Array.size_push, Array.size_append, Array.size_replicate]
    omega
  · rw [Array.size_setIfInBounds]
    omega

-- Behind the old end an element reads as undefined, whether it is there now or not.
theorem getD_place (other : Nat) : ((place elements index value)[other]?).getD .undefined =
    if other = index then value else (elements[other]?).getD .undefined := by
  unfold place
  split
  · next hend =>
    have hsize : (elements ++ Array.replicate (index - elements.size) Value.undefined).size =
        index := by
      rw [Array.size_append, Array.size_replicate]
      omega
    rw [Array.getElem?_push, hsize]
    split
    · rfl
    · rw [Array.getElem?_append, Array.getElem?_replicate]
      split
      · rfl
      · next hout =>
        rw [Array.getElem?_eq_none (Nat.le_of_not_lt hout)]
        split <;> rfl
  · next hin =>
    rw [Array.getElem?_setIfInBounds]
    by_cases he : other = index
    · subst he
      rw [if_pos rfl, if_pos rfl, if_pos (Nat.lt_of_not_le hin)]
      rfl
    · rw [if_neg fun h => he h.symm, if_neg he]

end Place

-- The indices that a write reaches.
def Writable (index : Int64) : Prop :=
  0 ≤ index ∧ index < indexLimit

instance (index : Int64) : Decidable (Writable index) :=
  inferInstanceAs (Decidable (_ ∧ _))

theorem setElement_of_writable (h : Writable index) : heap.setElement ref index value =
    .ok (heap.modifyArray ref (place · index.toNatClampNeg value)) :=
  if_neg fun hor => hor.elim (Int64.not_lt.mpr h.1) (Int64.not_le.mpr h.2)

theorem setElement_of_not_writable (h : ¬ Writable index) :
    heap.setElement ref index value = .error (.invalidIndex index) := by
  refine if_pos ?_
  by_cases hn : index < 0
  · exact .inl hn
  · exact .inr (Int64.not_lt.mp fun hlt => h ⟨Int64.not_lt.mp hn, hlt⟩)

-- Indices from zero on are told apart by their numbers.
theorem toNatClampNeg_ne {other : Int64} (hi : 0 ≤ index) (ho : 0 ≤ other) (hne : other ≠ index) :
    other.toNatClampNeg ≠ index.toNatClampNeg := by
  rw [Int64.le_iff_toInt_le, Int64.toInt_zero] at hi ho
  intro h
  refine hne (Int64.toInt_inj.mp ?_)
  rw [← Int64.toNat_toInt, ← Int64.toNat_toInt] at h
  omega

-- A heap that differs from another one in one element of one array, which has grown up to it if it
-- was shorter.
structure Puts (before : Heap) (ref : ArrayRef) (index : Int64) (value : Value) (after : Heap) :
    Prop where
  objects : after.objects = before.objects
  natives : after.natives = before.natives
  size : after.arrays.size = before.arrays.size
  others (other : ArrayRef) : other ≠ ref → after.array other = before.array other
  length : (after.array ref).size = max (before.array ref).size (index.toNatClampNeg + 1)
  written : after.element ref index = value
  unwritten (other : Int64) : other ≠ index → after.element ref other = before.element ref other

theorem puts_modifyArray (hr : ref.index < heap.arrays.size) (hi : 0 ≤ index) :
    heap.Puts ref index value (heap.modifyArray ref (place · index.toNatClampNeg value)) := by
  have harray : (heap.modifyArray ref (place · index.toNatClampNeg value)).array ref =
      place (heap.array ref) index.toNatClampNeg value := by
    rw [array_modifyArray, if_pos ⟨rfl, hr⟩]
  refine ⟨rfl, rfl, by simp [modifyArray], fun other ho => ?_, ?_, ?_, fun other ho => ?_⟩
  · rw [array_modifyArray, if_neg fun h => ho h.1.symm]
  · rw [harray, size_place]
  · rw [element, if_neg (Int64.not_lt.mpr hi), harray, getD_place, if_pos rfl]
  · unfold element
    split
    · rfl
    · next hn =>
      rw [harray, getD_place, if_neg (toNatClampNeg_ne hi (Int64.not_lt.mp hn) ho)]

end ScriptEngine.Heap
