import Mathlib.Algebra.Group.Nat.Defs
import Mathlib.Order.Bounds.Basic
import ScriptEngine.Proofs.Comparison.Mirrored
import ScriptEngine.Proofs.Text.Width

-- Searching a text. The search goes by byte offsets, which are widths of beginnings of the text, so
-- what it finds is the first index of a character at which the other text stands.

namespace ScriptEngine

namespace Text

variable {text needle : List Char}

-- The indices, from a start on, at which the characters go on with another text.
def occurrences (text needle : List Char) (start : Nat) : Set Nat :=
  {index | start ≤ index ∧ needle <+: text.drop index}

theorem occurrences_drop {start index : Nat} :
    start + index ∈ occurrences text needle start ↔
      index ∈ occurrences (text.drop start) needle 0 := by
  simp [occurrences, List.drop_drop]

theorem isLeast_occurrences_drop {start index : Nat}
    (h : IsLeast (occurrences (text.drop start) needle 0) index) :
    IsLeast (occurrences text needle start) (start + index) := by
  refine ⟨occurrences_drop.mpr h.1, fun other ho => ?_⟩
  obtain ⟨rest, rfl⟩ := Nat.exists_eq_add_of_le ho.1
  exact Nat.add_le_add_left (h.2 (occurrences_drop.mp ho)) start

theorem occurrences_drop_eq_empty {start : Nat}
    (h : occurrences (text.drop start) needle 0 = ∅) : occurrences text needle start = ∅ := by
  refine Set.eq_empty_iff_forall_notMem.mpr fun other ho => ?_
  obtain ⟨rest, rfl⟩ := Nat.exists_eq_add_of_le ho.1
  exact Set.eq_empty_iff_forall_notMem.mp h rest (occurrences_drop.mp ho)

theorem offsetAt?_eq (index : Nat) (text : List Char) :
    offsetAt? index text = if index < text.length then some (width (text.take index)) else none := by
  induction text generalizing index with
  | nil => cases index <;> rfl
  | cons c rest ih =>
    cases index with
    | zero => rfl
    | succ index =>
      rw [offsetAt?, ih]
      by_cases h : index < rest.length
      · simp [h, Nat.add_comm]
      · simp [h]

theorem isLeast_occurrences_nil (text : List Char) (start : Nat) :
    IsLeast (occurrences text [] start) start :=
  ⟨⟨Nat.le_refl start, List.nil_prefix⟩, fun _ h => h.1⟩

theorem isLeast_zero_of_isPrefixOf (h : needle.isPrefixOf text) :
    IsLeast (occurrences text needle 0) 0 :=
  ⟨⟨Nat.le_refl 0, List.isPrefixOf_iff_prefix.mp h⟩, fun _ _ => Nat.zero_le _⟩

section Cons

-- A text that does not stand at the start is looked for behind the first character.

variable {c : Char} {rest : List Char} (h : ¬ needle.isPrefixOf (c :: rest))
include h

theorem occurrences_cons :
    occurrences (c :: rest) needle 0 = occurrences (c :: rest) needle 1 := by
  ext index
  cases index with
  | zero => simpa [occurrences, ← List.isPrefixOf_iff_prefix] using h
  | succ index => simp [occurrences]

theorem isLeast_occurrences_cons {index : Nat} (hl : IsLeast (occurrences rest needle 0) index) :
    IsLeast (occurrences (c :: rest) needle 0) (index + 1) := by
  rw [occurrences_cons h, Nat.add_comm]
  exact isLeast_occurrences_drop hl

theorem occurrences_cons_eq_empty (he : occurrences rest needle 0 = ∅) :
    occurrences (c :: rest) needle 0 = ∅ := by
  rw [occurrences_cons h]
  exact occurrences_drop_eq_empty he

end Cons

-- The search gives the width of what stands before the first occurrence.
theorem offsetOf?_spec (needle text : List Char) :
    (∃ index, IsLeast (occurrences text needle 0) index ∧ index ≤ text.length ∧
      offsetOf? needle text = some (width (text.take index))) ∨
    (occurrences text needle 0 = ∅ ∧ offsetOf? needle text = none) := by
  induction text with
  | nil =>
    cases needle with
    | nil => exact .inl ⟨0, isLeast_occurrences_nil [] 0, Nat.le_refl 0, rfl⟩
    | cons => exact .inr ⟨by simp [occurrences], rfl⟩
  | cons c rest ih =>
    rw [offsetOf?]
    by_cases h : needle.isPrefixOf (c :: rest)
    · rw [if_pos h]
      exact .inl ⟨0, isLeast_zero_of_isPrefixOf h, Nat.zero_le _, rfl⟩
    · rw [if_neg h]
      obtain ⟨index, hleast, hle, hfound⟩ | ⟨hempty, hmissing⟩ := ih
      · refine .inl ⟨index + 1, isLeast_occurrences_cons h hleast, Nat.succ_le_succ hle, ?_⟩
        rw [hfound, Option.map_some, List.take_succ_cons, width_cons, Nat.add_comm]
      · exact .inr ⟨occurrences_cons_eq_empty h hempty, by rw [hmissing]; rfl⟩

end Text

namespace StringFunction

open Text

-- A position counted from the start of a text, moved into it if it lies outside.
def clamped (text : String) (position : Int64) : Nat :=
  (max 0 (min position.toInt text.length)).toNat

theorem clamp_eq_clamped (text : String) (position : Int64) :
    clamp text.toList.length position = clamped text position := by
  rw [clamp, clamped, ← Int64.toNat_toInt, String.length_toList]
  omega

-- The first occurrence from a start on. Behind the end the start counts as the end.
theorem indexFrom_spec (text needle : List Char) (start : Nat) :
    (∃ index, IsLeast (occurrences text needle (min start text.length)) index ∧
      index ≤ text.length ∧ indexFrom text needle start = Int64.ofNat index) ∨
    (occurrences text needle (min start text.length) = ∅ ∧ indexFrom text needle start = -1) := by
  rw [indexFrom, offsetAt?_eq]
  by_cases hs : start < text.length
  · rw [if_pos hs, Nat.min_eq_left (Nat.le_of_lt hs)]
    obtain ⟨front, back, rfl, rfl⟩ : ∃ front back, text = front ++ back ∧ front.length = start :=
      ⟨text.take start, text.drop start, (text.take_append_drop start).symm,
        List.length_take_of_le (Nat.le_of_lt hs)⟩
    have hback : (front ++ back).drop front.length = back := List.drop_left
    rw [List.take_left]
    simp only [dropBytes_width]
    obtain ⟨index, hleast, hle, hfound⟩ | ⟨hempty, hmissing⟩ := offsetOf?_spec needle back
    · have hpiece : slice (front ++ back) (width front) (width front + width (back.take index)) =
          back.take index := by
        simpa using slice_whole front (back.take index) (back.drop index)
      refine .inl ⟨front.length + index, isLeast_occurrences_drop (by rwa [hback]), ?_, ?_⟩
      · rw [List.length_append]
        exact Nat.add_le_add_left hle _
      · simp only [hfound]
        rw [hpiece, List.length_take_of_le hle]
    · exact .inr ⟨occurrences_drop_eq_empty (by rwa [hback]), by simp only [hmissing]⟩
  · rw [if_neg hs, Nat.min_eq_right (Nat.le_of_not_lt hs)]
    have hback : text.drop text.length = [] := List.drop_length
    cases needle with
    | nil => exact .inl ⟨text.length, isLeast_occurrences_nil text _, Nat.le_refl _, rfl⟩
    | cons =>
      refine .inr ⟨occurrences_drop_eq_empty ?_, rfl⟩
      rw [hback]
      simp [occurrences]

theorem toPosition_int (heap : Heap) (position : Int64) :
    heap.toPosition (.int position) = position := by
  rw [Heap.toPosition, Heap.toNumber, Value.int, heap.unwrap_of_ne_object fun _ => Value.noConfusion]
  rfl

-- A native function of texts gives a value and leaves the machine as it is.
def Gives {σ : Type} (function : StringFunction) (host : Host σ) (below : Below σ)
    (machine : Machine σ) (text : String) (arguments : List Value) (answer : Value) : Prop :=
  Native.apply host below (.string text) arguments (.string function) machine =
    (.done answer, machine)

section Gives

variable {σ : Type} (host : Host σ) (below : Below σ) (machine : Machine σ) (text : String)

theorem gives_indexOf (needle : String) (start : Int64) :
    indexOf.Gives host below machine text [.string needle, .int start]
      (.int (indexFrom text.toList needle.toList start.toNatClampNeg)) := by
  change (Ending.done (Value.int (indexFrom (machine.heap.toText (.string text)).toList
    (machine.heap.toText (.string needle)).toList
    (machine.heap.toPosition (.int start)).toNatClampNeg)), machine) = _
  rw [Heap.toText_string, Heap.toText_string, toPosition_int]

theorem gives_substring (first second : Int64) :
    substring.Gives host below machine text [.int first, .int second]
      (.ofChars (between text.toList (clamped text first) (clamped text second))) := by
  change (Ending.done (Value.ofChars (between (machine.heap.toText (.string text)).toList
    (clamp (machine.heap.toText (.string text)).toList.length (machine.heap.toPosition (.int first)))
    (clamp (machine.heap.toText (.string text)).toList.length
      (machine.heap.toPosition (.int second))))), machine) = _
  rw [Heap.toText_string, toPosition_int, toPosition_int, clamp_eq_clamped, clamp_eq_clamped]

-- Without a second position a piece reaches to the end.
theorem gives_substring_rest (first : Int64) :
    substring.Gives host below machine text [.int first]
      (.ofChars (between text.toList (clamped text first) text.length)) := by
  change (Ending.done (Value.ofChars (between (machine.heap.toText (.string text)).toList
    (clamp (machine.heap.toText (.string text)).toList.length (machine.heap.toPosition (.int first)))
    (machine.heap.toText (.string text)).toList.length)), machine) = _
  rw [Heap.toText_string, toPosition_int, clamp_eq_clamped, String.length_toList]

end Gives

theorem between_comm (text : List Char) (first second : Nat) :
    between text first second = between text second first := by
  rw [between, between, Nat.min_comm, Nat.max_comm]

theorem between_of_le (text : List Char) {first second : Nat} (h : first ≤ second) :
    between text first second = (text.drop first).take (second - first) := by
  rw [between, Nat.min_eq_left h, Nat.max_eq_right h]

theorem clamped_le (text : String) (position : Int64) : clamped text position ≤ text.length := by
  rw [clamped]
  omega

-- A text in memory has fewer characters than there are positions.
theorem clamped_ofNat {text : String} (hs : text.length < 2 ^ 63) {index : Nat}
    (h : index ≤ text.length) : clamped text (Int64.ofNat index) = index := by
  rw [clamped, Int64.toInt_ofNat_of_lt (by omega)]
  omega

theorem between_occurrence {text needle : List Char} {start index : Nat}
    (h : index ∈ occurrences text needle start) :
    between text index (index + needle.length) = needle := by
  rw [between_of_le text (Nat.le_add_right _ _), Nat.add_sub_cancel_left]
  exact (List.prefix_iff_eq_take.mp h.2).symm

section Searches

variable {σ : Type} (host : Host σ) (below : Below σ) (machine : Machine σ) (text : String)

-- A search from a start on gives -1 if there is no occurrence. Else it gives the first one, and the
-- piece of that length there is what was looked for.
def Finds (needle : String) (start answer : Int64) : Prop :=
  indexOf.Gives host below machine text [.string needle, .int start] (.int answer) ∧
    ((answer = -1 ∧ occurrences text.toList needle.toList (clamped text start) = ∅) ∨
      (0 ≤ answer ∧
        IsLeast (occurrences text.toList needle.toList (clamped text start)) answer.toNatClampNeg ∧
        substring.Gives host below machine text
          [.int answer, .int (answer + Int64.ofNat needle.length)] (.string needle)))

-- A text that is searched and cut by characters.
structure Searches : Prop where
  finds (needle : String) (start : Int64) :
    ∃ answer, Finds host below machine text needle start answer
  -- The order of the positions does not matter.
  cuts (first second : Int64) : ∃ piece,
    substring.Gives host below machine text [.int first, .int second] (.ofChars piece) ∧
      substring.Gives host below machine text [.int second, .int first] (.ofChars piece) ∧
      piece = (text.toList.take (max (clamped text first) (clamped text second))).drop
        (min (clamped text first) (clamped text second))
  -- The pieces before and behind a position make up the text.
  rejoins (position : Int64) : ∃ front back,
    substring.Gives host below machine text [.int 0, .int position] front ∧
      substring.Gives host below machine text [.int position] back ∧
      machine.heap.applyBinary host .add front back = .ok (.string text)

variable {text}

theorem exists_finds (hs : text.length < 2 ^ 63) (needle : String) (start : Int64) :
    ∃ answer, Finds host below machine text needle start answer := by
  have hspec := indexFrom_spec text.toList needle.toList start.toNatClampNeg
  have hstart : min start.toNatClampNeg text.toList.length = clamped text start :=
    clamp_eq_clamped text start
  rw [hstart] at hspec
  refine ⟨_, gives_indexOf host below machine text needle start, ?_⟩
  obtain ⟨index, hleast, hle, hfound⟩ | ⟨hempty, hmissing⟩ := hspec
  · rw [String.length_toList] at hle
    -- The occurrence ends within the text.
    have hend : index + needle.length ≤ text.length := by
      have := hleast.1.2.length_le
      rw [List.length_drop, String.length_toList, String.length_toList] at this
      omega
    have hpiece := gives_substring host below machine text (Int64.ofNat index)
      (Int64.ofNat (index + needle.length))
    rw [clamped_ofNat hs hle, clamped_ofNat hs hend, ← String.length_toList,
      between_occurrence hleast.1, Int64.ofNat_add, String.length_toList] at hpiece
    rw [hfound]
    refine .inr ⟨?_, ?_, ?_⟩
    · rw [Int64.le_iff_toInt_le, Int64.toInt_ofNat_of_lt (by omega)]
      exact Int.natCast_nonneg index
    · rwa [Int64.toNatClampNeg_ofNat_of_lt (by omega)]
    · rwa [Value.ofChars, String.ofList_toList] at hpiece
  · exact .inl ⟨hmissing, hempty⟩

theorem between_eq_drop_take (text : List Char) (first second : Nat) :
    between text first second = (text.take (max first second)).drop (min first second) := by
  rw [between, List.drop_take]

-- Lengths and positions count characters, however many bytes these take.
theorem searches_of_length_lt (hs : text.length < 2 ^ 63) :
    Searches host below machine text where
  finds := exists_finds host below machine hs
  cuts first second := by
    refine ⟨_, gives_substring host below machine text first second, ?_, ?_⟩
    · rw [between_comm]
      exact gives_substring host below machine text second first
    · exact between_eq_drop_take text.toList _ _
  rejoins position := by
    refine ⟨_, _, gives_substring host below machine text 0 position,
      gives_substring_rest host below machine text position, ?_⟩
    have hzero : clamped text 0 = 0 := by
      rw [clamped, Int64.toInt_zero]
      omega
    have hfront : between text.toList 0 (clamped text position) =
        text.toList.take (clamped text position) :=
      between_of_le _ (Nat.zero_le _)
    have hback : between text.toList (clamped text position) text.length =
        text.toList.drop (clamped text position) := by
      rw [between_of_le _ (clamped_le text position), ← String.length_toList, ← List.length_drop,
        List.take_length]
    rw [hzero, hfront, hback, Value.ofChars, Value.ofChars, Heap.applyBinary_texts rfl]
    change Except.ok (Value.string (_ ++ _)) = _
    rw [← String.ofList_append, List.take_append_drop, String.ofList_toList]

end Searches

-- A text whose characters take one, two and four bytes.
theorem searches_accented : "né😀né".length < 2 ^ 63 ∧ ∀ machine : Machine Unit,
    Searches .bare (.ofFuel .bare 0) machine "né😀né" ∧
      indexOf.Gives .bare (.ofFuel .bare 0) machine "né😀né" [.string "é", .int 2] (.int 4) ∧
      substring.Gives .bare (.ofFuel .bare 0) machine "né😀né" [.int 4, .int 1] (.string "é😀n") := by
  have hs : "né😀né".length < 2 ^ 63 := by decide
  refine ⟨hs, fun machine => ⟨searches_of_length_lt _ _ _ hs, ?_, ?_⟩⟩
  · exact gives_indexOf _ _ machine "né😀né" "é" 2
  · exact gives_substring _ _ machine "né😀né" 4 1

end StringFunction

end ScriptEngine
