import ScriptEngine.Heap.Conversion

-- Walks along prototype links and into nested arrays. They end where something repeats, so the
-- number of steps that they are given does not matter as soon as it covers the heap.

namespace ScriptEngine.Heap

variable {heap : Heap} {name : String}

-- No more different references are in use than there are things.
theorem length_le_of_nodup {α : Type} {refs : List α} {size : Nat} (make : Nat → α)
    (hn : refs.Nodup) (hs : ∀ ref ∈ refs, ∃ index < size, make index = ref) :
    refs.length ≤ size := by
  have hsub : refs ⊆ (List.range size).map make := by
    intro ref hm
    obtain ⟨index, hlt, he⟩ := hs ref hm
    exact List.mem_map.mpr ⟨index, List.mem_range.mpr hlt, he⟩
  simpa using hn.length_le_of_subset hsub

theorem object_of_size_le {ref : ObjectRef} (h : heap.objects.size ≤ ref.index) :
    heap.object ref = .empty := by
  rw [object, Array.getElem?_eq_none h]
  rfl

theorem index_lt_of_instance? {ref : ObjectRef} {content : Instance}
    (h : (heap.object ref).instance? = some content) : ref.index < heap.objects.size := by
  refine Nat.lt_of_not_le fun hle => ?_
  rw [object_of_size_le hle] at h
  cases h

theorem index_lt_of_prototype? {ref next : ObjectRef}
    (h : (heap.object ref).prototype? = some next) : ref.index < heap.objects.size := by
  refine Nat.lt_of_not_le fun hle => ?_
  rw [object_of_size_le hle] at h
  cases h

theorem array_of_size_le {ref : ArrayRef} (h : heap.arrays.size ≤ ref.index) :
    heap.array ref = #[] := by
  rw [array, Array.getElem?_eq_none h]
  rfl

-- Only objects wrap anything.
theorem unwrap_of_ne_object (heap : Heap) {value : Value} (h : ∀ ref, value ≠ .object ref) :
    heap.unwrap value = value := by
  unfold unwrap unwrapWithin
  cases value with
  | object ref => exact absurd rfl (h ref)
  | _ => cases heap.objects.size <;> rfl

-- Unwrapping looks at nothing but the instances inside of objects.
theorem unwrapWithin_congr {before after : Heap}
    (h : ∀ ref, (after.object ref).instance? = (before.object ref).instance?) (steps : Nat)
    (value : Value) : after.unwrapWithin steps value = before.unwrapWithin steps value := by
  induction steps generalizing value with
  | zero => rfl
  | succ steps ih =>
    cases value with
    | object ref => simp only [unwrapWithin, h ref, ih]
    | _ => rfl

theorem toText_string (heap : Heap) (text : String) : heap.toText (.string text) = text := by
  rw [toText, textWithin, heap.unwrap_of_ne_object fun _ => Value.noConfusion]
  rfl

section FindAlong

variable {steps : Nat} {ref : ObjectRef}

theorem findAlong_of_get? {value : Value} (h : heap.get? ref name = some value) :
    heap.findAlong name steps ref = some value := by
  unfold findAlong
  rw [h]

theorem findAlong_zero (h : heap.get? ref name = none) : heap.findAlong name 0 ref = none := by
  unfold findAlong
  rw [h]

theorem findAlong_of_prototype? (h : heap.get? ref name = none)
    (hp : (heap.object ref).prototype? = none) : heap.findAlong name steps ref = none := by
  unfold findAlong
  rw [h, hp]
  cases steps <;> rfl

theorem findAlong_succ {next : ObjectRef} (h : heap.get? ref name = none)
    (hp : (heap.object ref).prototype? = some next) :
    heap.findAlong name (steps + 1) ref = heap.findAlong name steps next := by
  rw [findAlong.eq_def]
  dsimp only
  rw [h, hp]

-- Among objects that the links do not leave, a look-up goes round and finds nothing if none of them
-- has the name.
theorem findAlong_eq_none_of_closed {refs : List ObjectRef}
    (hmissing : ∀ ref ∈ refs, heap.get? ref name = none)
    (hclosed : ∀ ref ∈ refs, ∀ next, (heap.object ref).prototype? = some next → next ∈ refs)
    (hm : ref ∈ refs) : heap.findAlong name steps ref = none := by
  induction steps generalizing ref with
  | zero => exact findAlong_zero (hmissing ref hm)
  | succ steps ih =>
    cases hp : (heap.object ref).prototype? with
    | none => exact findAlong_of_prototype? (hmissing ref hm) hp
    | some next =>
      rw [findAlong_succ (hmissing ref hm) hp]
      exact ih (hclosed ref hm next hp)

end FindAlong

-- Objects that a look-up has left behind: none of them has the name, and from each of them the
-- links lead on among them or to the next object.
structure LeftBehind (heap : Heap) (name : String) (visited : List ObjectRef) (next : ObjectRef) :
    Prop where
  nodup : visited.Nodup
  inside : ∀ ref ∈ visited, ref.index < heap.objects.size
  missing : ∀ ref ∈ visited, heap.get? ref name = none
  links : ∀ ref ∈ visited, ∀ other, (heap.object ref).prototype? = some other →
    other ∈ visited ∨ other = next

variable {visited : List ObjectRef} {ref : ObjectRef}

theorem LeftBehind.length_le (h : heap.LeftBehind name visited ref) :
    visited.length ≤ heap.objects.size :=
  length_le_of_nodup ObjectRef.mk h.nodup fun ref hm => ⟨ref.index, h.inside ref hm, rfl⟩

-- Back among them, a look-up finds nothing.
theorem LeftBehind.findAlong_eq_none (h : heap.LeftBehind name visited ref) (hm : ref ∈ visited)
    (steps : Nat) : heap.findAlong name steps ref = none := by
  refine findAlong_eq_none_of_closed h.missing (fun other ho next hp => ?_) hm
  obtain hn | rfl := h.links other ho next hp
  · exact hn
  · exact hm

theorem LeftBehind.step (h : heap.LeftBehind name visited ref) (hnew : ref ∉ visited)
    (hmissing : heap.get? ref name = none) {next : ObjectRef}
    (hp : (heap.object ref).prototype? = some next) :
    heap.LeftBehind name (ref :: visited) next := by
  have hinside : ref.index < heap.objects.size := index_lt_of_prototype? hp
  refine ⟨List.nodup_cons.mpr ⟨hnew, h.nodup⟩, ?_, ?_, ?_⟩
  · exact List.forall_mem_cons.mpr ⟨hinside, h.inside⟩
  · exact List.forall_mem_cons.mpr ⟨hmissing, h.missing⟩
  · refine List.forall_mem_cons.mpr ⟨fun other ho => ?_, fun other hm later hl => ?_⟩
    · exact .inr (Option.some.inj (ho.symm.trans hp))
    · obtain hin | rfl := h.links other hm later hl
      · exact .inl (List.mem_cons_of_mem _ hin)
      · exact .inl List.mem_cons_self

-- Two numbers of steps that cover what is left of the heap give the same.
theorem LeftBehind.findAlong_congr {visited : List ObjectRef} {ref : ObjectRef}
    (h : heap.LeftBehind name visited ref) {steps steps' : Nat}
    (hs : heap.objects.size ≤ steps + visited.length)
    (hs' : heap.objects.size ≤ steps' + visited.length) :
    heap.findAlong name steps ref = heap.findAlong name steps' ref := by
  by_cases hm : ref ∈ visited
  · rw [h.findAlong_eq_none hm, h.findAlong_eq_none hm]
  · cases hg : heap.get? ref name with
    | some value => rw [findAlong_of_get? hg, findAlong_of_get? hg]
    | none =>
      cases hp : (heap.object ref).prototype? with
      | none => rw [findAlong_of_prototype? hg hp, findAlong_of_prototype? hg hp]
      | some next =>
        have hnext := h.step hm hg hp
        have hlength := hnext.length_le
        rw [List.length_cons] at hlength
        obtain ⟨steps, rfl⟩ := Nat.exists_eq_add_of_le' (show 1 ≤ steps by omega)
        obtain ⟨steps', rfl⟩ := Nat.exists_eq_add_of_le' (show 1 ≤ steps' by omega)
        rw [findAlong_succ hg hp, findAlong_succ hg hp]
        apply hnext.findAlong_congr <;> rw [List.length_cons] <;> omega
termination_by steps

-- Prototype links may form a cycle.
theorem findAlong_eq_find? {steps : Nat} (h : heap.objects.size ≤ steps) (ref : ObjectRef) :
    heap.findAlong name steps ref = heap.find? ref name := by
  have hstart : heap.LeftBehind name [] ref := ⟨List.nodup_nil, nofun, nofun, nofun⟩
  exact hstart.findAlong_congr h (Nat.le_refl _)

-- Two numbers of levels that cover the arrays around which the value does not stand give the same.
theorem textWithin_congr {within : List ArrayRef} (hn : within.Nodup)
    (hi : ∀ ref ∈ within, ref.index < heap.arrays.size) {depth depth' : Nat}
    (hd : heap.arrays.size < depth + within.length)
    (hd' : heap.arrays.size < depth' + within.length) (value : Value) :
    heap.textWithin depth within value = heap.textWithin depth' within value := by
  have hlength : within.length ≤ heap.arrays.size :=
    length_le_of_nodup ArrayRef.mk hn fun ref hm => ⟨ref.index, hi ref hm, rfl⟩
  obtain ⟨depth, rfl⟩ := Nat.exists_eq_add_of_le' (show 1 ≤ depth by omega)
  obtain ⟨depth', rfl⟩ := Nat.exists_eq_add_of_le' (show 1 ≤ depth' by omega)
  rw [textWithin, textWithin]
  cases heap.unwrap value with
  | array ref =>
    dsimp only
    by_cases hm : ref ∈ within
    · rw [if_pos hm, if_pos hm]
    · rw [if_neg hm, if_neg hm]
      by_cases hlt : ref.index < heap.arrays.size
      · have hinside : ∀ other ∈ ref :: within, other.index < heap.arrays.size :=
          List.forall_mem_cons.mpr ⟨hlt, hi⟩
        have helement (element : Value) : heap.textWithin depth (ref :: within) element =
            heap.textWithin depth' (ref :: within) element := by
          apply textWithin_congr (List.nodup_cons.mpr ⟨hm, hn⟩) hinside <;>
            rw [List.length_cons] <;> omega
        simp only [helement]
      · rw [array_of_size_le (Nat.le_of_not_lt hlt)]
        rfl
  | _ => rfl
termination_by depth

-- Arrays may hold themselves.
theorem textWithin_eq_toText {depth : Nat} (h : heap.arrays.size < depth) (value : Value) :
    heap.textWithin depth [] value = heap.toText value :=
  textWithin_congr List.nodup_nil nofun h (Nat.lt_succ_self _) value

end ScriptEngine.Heap
