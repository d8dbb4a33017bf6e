import ScriptEngine.Proofs.Heap.Walks

-- A new array, and what it leaves alone. Nothing that was there before refers to it, so every text
-- stays as it was.

namespace ScriptEngine.Heap

variable {heap : Heap} {value : Value}

theorem array_addArray (heap : Heap) (elements : Array Value) (ref : ArrayRef) :
    (heap.addArray elements).2.array ref =
      if ref.index = heap.arrays.size then elements else heap.array ref := by
  unfold addArray array
  dsimp only
  rw [Array.getElem?_push]
  split <;> rfl

-- An array has been made before it is referred to. A running program has no other references.
def Made (heap : Heap) : Value → Prop
  | .array ref => ref.index < heap.arrays.size
  | _ => True

-- So have the arrays that are held by arrays and wrappers.
structure AllMade (heap : Heap) : Prop where
  elements {ref : ArrayRef} {element : Value} :
    element ∈ (heap.array ref).toList → heap.Made element
  contents {ref : ObjectRef} {content : Instance} :
    (heap.object ref).instance? = some content → heap.Made content.primitive

theorem AllMade.unwrapWithin (h : heap.AllMade) (steps : Nat) (hv : heap.Made value) :
    heap.Made (heap.unwrapWithin steps value) := by
  induction steps generalizing value with
  | zero => exact hv
  | succ steps ih =>
    cases value with
    | object ref =>
      rw [Heap.unwrapWithin]
      cases hi : (heap.object ref).instance? with
      | none => exact hv
      | some content => exact ih (h.contents hi)
    | _ => exact hv

section AddArray

variable (elements : Array Value)

-- The arrays that a value leads to are the same as before.
theorem textWithin_addArray (h : heap.AllMade) (depth : Nat) (within : List ArrayRef)
    (hv : heap.Made value) :
    (heap.addArray elements).2.textWithin depth within value =
      heap.textWithin depth within value := by
  induction depth generalizing within value with
  | zero => rfl
  | succ depth ih =>
    have hinstance (ref : ObjectRef) :
        ((heap.addArray elements).2.object ref).instance? = (heap.object ref).instance? := rfl
    have hunwrap : (heap.addArray elements).2.unwrap value = heap.unwrap value :=
      unwrapWithin_congr hinstance heap.objects.size value
    have hinside : heap.Made (heap.unwrap value) := h.unwrapWithin _ hv
    rw [textWithin, textWithin, hunwrap]
    cases hu : heap.unwrap value with
    | array ref =>
      rw [hu] at hinside
      have harray : (heap.addArray elements).2.array ref = heap.array ref := by
        rw [array_addArray, if_neg (Nat.ne_of_lt hinside)]
      have htexts := List.map_congr_left fun element (hm : element ∈ (heap.array ref).toList) =>
        congrArg (fun text => if element.isNothing then "" else text)
          (ih (ref :: within) (h.elements hm))
      dsimp only
      rw [harray, htexts]
    | _ => rfl

theorem toText_addArray (h : heap.AllMade) (hv : heap.Made value) :
    (heap.addArray elements).2.toText value = heap.toText value := by
  have hsize : (heap.addArray elements).2.arrays.size = heap.arrays.size + 1 :=
    Array.size_push elements
  rw [toText, hsize, textWithin_addArray elements h _ _ hv, textWithin_eq_toText (by omega)]

end AddArray

section Texts

-- Texts are joined as they are.

theorem textWithin_string (depth : Nat) (within : List ArrayRef) (text : String) :
    heap.textWithin (depth + 1) within (.string text) = text := by
  rw [textWithin, heap.unwrap_of_ne_object fun _ => Value.noConfusion]
  rfl

theorem joinArray_strings {ref : ArrayRef} (hr : ref.index < heap.arrays.size) {texts : List String}
    (h : (heap.array ref).toList = texts.map .string) (separator : String) :
    heap.joinArray ref separator = separator.intercalate texts := by
  obtain ⟨depth, hdepth⟩ := Nat.exists_eq_add_of_le' (Nat.succ_le_of_lt (Nat.zero_lt_of_lt hr))
  rw [joinArray, h, hdepth, List.map_map]
  refine congrArg separator.intercalate (List.map_id'' ?_ texts)
  exact fun text => textWithin_string depth [ref] text

end Texts

end ScriptEngine.Heap
