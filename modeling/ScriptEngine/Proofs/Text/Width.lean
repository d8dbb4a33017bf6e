import ScriptEngine.Text.Width

-- Characters and their bytes. A byte offset that is the width of a beginning of a text stands behind
-- that beginning, and the piece between two of them is a run of characters.

namespace ScriptEngine.Text

theorem utf8ByteSize_ofList (text : List Char) : (String.ofList text).utf8ByteSize = width text := by
  induction text with
  | nil => rfl
  | cons c rest ih =>
    rw [String.ofList_cons, String.utf8ByteSize_append, String.utf8ByteSize_singleton, ih, width_cons]

theorem utf8ByteSize_eq_width (text : String) : text.utf8ByteSize = width text.toList := by
  rw [← utf8ByteSize_ofList, String.ofList_toList]

theorem width_eq_zero {text : List Char} (h : width text = 0) : text = [] := by
  cases text with
  | nil => rfl
  | cons c rest =>
    have := c.utf8Size_pos
    rw [width_cons] at h
    omega

-- Of two beginnings of a text the narrower one is the beginning of the other.
theorem prefix_of_width_le {first second text : List Char} (hf : first <+: text)
    (hs : second <+: text) (h : width first ≤ width second) : first <+: second := by
  obtain hp | ⟨rest, rfl⟩ := List.prefix_or_prefix_of_prefix hf hs
  · exact hp
  · rw [width_append] at h
    have hrest : rest = [] := width_eq_zero (by omega)
    exact ⟨[], by rw [hrest, List.append_nil, List.append_nil]⟩

-- Skipping the bytes of a character is skipping at least one.
theorem exists_utf8Size_add (c : Char) (count : Nat) :
    ∃ size, c.utf8Size + count = size + 1 ∧ size + 1 - c.utf8Size = count := by
  have := c.utf8Size_pos
  exact ⟨c.utf8Size + count - 1, by omega, by omega⟩

theorem dropBytes_behind (front text : List Char) (count : Nat) :
    dropBytes (count + width front) (front ++ text) = dropBytes count text := by
  induction front with
  | nil => rfl
  | cons c front ih =>
    obtain ⟨size, hsize, hfront⟩ := exists_utf8Size_add c (count + width front)
    rw [width_cons, Nat.add_left_comm, hsize, List.cons_append, dropBytes, hfront, ih]

theorem dropBytes_width (front rest : List Char) : dropBytes (width front) (front ++ rest) = rest := by
  rw [← Nat.zero_add (width front), dropBytes_behind, dropBytes]

theorem takeBytes_width (front rest : List Char) :
    takeBytes (width front) (front ++ rest) = front := by
  induction front with
  | nil => simp [takeBytes]
  | cons c front ih =>
    obtain ⟨size, hsize, hfront⟩ := exists_utf8Size_add c (width front)
    rw [width_cons, hsize, List.cons_append, takeBytes, hfront, ih]

theorem slice_behind (front text : List Char) (start stop : Nat) :
    slice (front ++ text) (start + width front) (stop + width front) = slice text start stop := by
  rw [slice, slice, dropBytes_behind, Nat.add_sub_add_right]

-- A piece between two places of a middle part does not depend on what stands around that part.
theorem slice_middle {front middle back first second : List Char} (hf : first <+: middle)
    (hs : second <+: middle) :
    slice (front ++ (middle ++ back)) (width front + width first) (width front + width second) =
      (middle.drop first.length).take (second.length - first.length) := by
  obtain ⟨rest, rfl⟩ := hf
  rw [Nat.add_comm, Nat.add_comm (width front), slice_behind, slice, List.append_assoc,
    dropBytes_width, List.drop_left]
  obtain ⟨piece, rfl⟩ | ⟨piece, rfl⟩ := List.prefix_or_prefix_of_prefix (List.prefix_append first rest) hs
  · obtain ⟨tail, htail⟩ := hs
    have hrest : rest = piece ++ tail := by
      rw [List.append_assoc] at htail
      exact (List.append_cancel_left htail).symm
    rw [width_append, Nat.add_sub_cancel_left, hrest, List.append_assoc, takeBytes_width]
    simp
  · have hwidth : width second - width (second ++ piece) = 0 := by
      rw [width_append]
      omega
    rw [hwidth]
    simp [takeBytes]

theorem slice_whole (front middle back : List Char) :
    slice (front ++ (middle ++ back)) (width front) (width front + width middle) = middle := by
  rw [slice, dropBytes_width, Nat.add_sub_cancel_left, takeBytes_width]

end ScriptEngine.Text
