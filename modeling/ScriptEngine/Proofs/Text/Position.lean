import Mathlib.Data.List.DropRight
import Mathlib.Data.Prod.Lex
import ScriptEngine.Fault
import ScriptEngine.Proofs.Text.Width

-- Lines and columns. The position of an offset is counted on the characters that start before it and
-- grows with each of them, so between two characters it stands for one offset only. The text of an
-- error gives the position back.

namespace ScriptEngine

namespace Position

-- The position behind a text: a line for each of its line feeds, a column for each character behind
-- the last of them.
def behind (front : List Char) : Position :=
  ⟨1 + front.count '\n', 1 + (front.rtakeWhile (· ≠ '\n')).length⟩

-- Positions go by the line and within a line by the column.
def key (position : Position) : ℕ ×ₗ ℕ :=
  toLex (position.line, position.column)

theorem behind_concat (front : List Char) (c : Char) :
    behind (front ++ [c]) = (behind front).step c := by
  by_cases h : c = '\n'
  · simp [behind, step, h, Nat.add_assoc]
  · simp [behind, step, h, Nat.add_assoc]

-- The count of a text is what its characters make of the first position, one after the other.
theorem foldl_step (front : List Char) : front.foldl step start = behind front := by
  induction front using List.reverseRecOn with
  | nil => rfl
  | append_singleton front c ih => rw [List.foldl_append, ih, behind_concat]; rfl

theorem walk_eq_foldl (position : Position) (offset : Nat) (text : List Char) :
    position.walk offset text = (Text.takeBytes offset text).foldl step position := by
  induction text generalizing position offset with
  | nil => cases offset <;> rfl
  | cons c rest ih =>
    cases offset with
    | zero => rfl
    | succ offset => rw [walk, Text.takeBytes, List.foldl_cons, ih]

theorem ofOffset_eq (text : List Char) (offset : Nat) :
    ofOffset text offset = behind (Text.takeBytes offset text) := by
  rw [ofOffset, walk_eq_foldl, foldl_step]

-- An offset inside of a character has the position behind that character.
example : ofOffset ['é', 'x'] 1 = ofOffset ['é', 'x'] 2 := by decide

theorem ofOffset_width (front back : List Char) :
    ofOffset (front ++ back) (Text.width front) = behind front := by
  rw [ofOffset_eq, Text.takeBytes_width]

theorem key_lt_step (position : Position) (c : Char) : position.key < (position.step c).key := by
  rw [key, key, Prod.Lex.toLex_lt_toLex, step]
  split
  · exact .inl (Nat.lt_succ_self _)
  · exact .inr ⟨rfl, Nat.lt_succ_self _⟩

-- So any characters at all lead to a later position.
theorem key_behind_lt (front : List Char) {middle : List Char} (h : middle ≠ []) :
    (behind front).key < (behind (front ++ middle)).key := by
  induction middle using List.reverseRecOn with
  | nil => exact absurd rfl h
  | append_singleton middle c ih =>
    have hlast : (behind (front ++ middle)).key < (behind (front ++ (middle ++ [c]))).key := by
      rw [← List.append_assoc, behind_concat]
      exact key_lt_step _ c
    obtain rfl | hm := eq_or_ne middle []
    · rwa [List.append_nil] at hlast
    · exact (ih hm).trans hlast

end Position

-- A number ends at the first character that is no digit.
theorem Text.toDigits_append_inj {m n : Nat} {mark : Char} (hmark : ¬ mark.isDigit)
    {first second : List Char}
    (h : Nat.toDigits 10 m ++ mark :: first = Nat.toDigits 10 n ++ mark :: second) :
    m = n ∧ first = second := by
  have htake (k : Nat) (rest : List Char) :
      (Nat.toDigits 10 k ++ mark :: rest).takeWhile Char.isDigit = Nat.toDigits 10 k := by
    rw [List.takeWhile_append_of_pos fun c hc =>
      Nat.isDigit_of_mem_toDigits (by decide) (by decide) hc, List.takeWhile_cons_of_neg hmark,
      List.append_nil]
  have hdigits : Nat.toDigits 10 m = Nat.toDigits 10 n := by rw [← htake m, h, htake]
  refine ⟨?_, ?_⟩
  · rw [← Nat.ofDigitChars_ten_toDigits (n := m), hdigits, Nat.ofDigitChars_ten_toDigits]
  · rw [hdigits] at h
    exact (List.cons.inj (List.append_cancel_left h)).2

namespace Error

theorem toList_render (error : Error) :
    error.render.toList = "Line ".toList ++ (Nat.toDigits 10 error.location.position.line ++
      ',' :: (" column ".toList ++ (Nat.toDigits 10 error.location.position.column ++
        ':' :: (' ' :: error.message.toList)))) := by
  rw [render, Location.render]
  simp only [String.toList_append, Nat.toString_eq_repr, Nat.toList_repr, List.append_assoc]
  rfl

theorem position_of_render {first second : Error} (h : first.render = second.render) :
    first.location.position = second.location.position := by
  have hlist := congrArg String.toList h
  rw [toList_render, toList_render] at hlist
  obtain ⟨hline, hrest⟩ := Text.toDigits_append_inj (by decide) (List.append_cancel_left hlist)
  obtain ⟨hcolumn, -⟩ := Text.toDigits_append_inj (by decide) (List.append_cancel_left hrest)
  cases hf : first.location.position
  cases hs : second.location.position
  rw [hf, hs] at hline hcolumn
  rw [Position.mk.injEq]
  exact ⟨hline, hcolumn⟩

end Error

namespace Location

-- The byte offsets between two characters of a script, the two at its ends among them.
def offsets (script : String) : Set Nat :=
  {offset | String.Pos.Raw.IsValid script ⟨offset⟩}

instance (script : String) (offset : Nat) : Decidable (offset ∈ offsets script) :=
  inferInstanceAs (Decidable (String.Pos.Raw.IsValid script ⟨offset⟩))

theorem exists_front {script : String} {offset : Nat} (h : offset ∈ offsets script) :
    ∃ front back : String, script = front ++ back ∧ front.utf8ByteSize = offset := by
  obtain ⟨front, back, hscript, hoffset⟩ := String.Pos.Raw.isValid_iff_exists_append.mp h
  exact ⟨front, back, hscript, (congrArg String.Pos.Raw.byteIdx hoffset).symm⟩

theorem position_front (front back : String) :
    (Location.mk (front ++ back) front.utf8ByteSize).position = .behind front.toList := by
  rw [position, String.toList_append, Text.utf8ByteSize_eq_width, Position.ofOffset_width]

theorem key_strictMonoOn (script : String) :
    StrictMonoOn (fun offset => (Location.mk script offset).position.key) (offsets script) := by
  intro first hf second hs hlt
  obtain ⟨front, rest, hfront, rfl⟩ := exists_front hf
  obtain ⟨longer, back, hlonger, rfl⟩ := exists_front hs
  rw [Text.utf8ByteSize_eq_width, Text.utf8ByteSize_eq_width] at hlt
  -- Both are beginnings of the script, so the wider one goes on where the other ends.
  have hprefix : front.toList <+: longer.toList := by
    refine @Text.prefix_of_width_le _ _ script.toList ?_ ?_ (Nat.le_of_lt hlt)
    · rw [hfront, String.toList_append]
      exact List.prefix_append _ _
    · rw [hlonger, String.toList_append]
      exact List.prefix_append _ _
  obtain ⟨middle, hmiddle⟩ := hprefix
  have hne : middle ≠ [] := by
    rintro rfl
    rw [← hmiddle, List.append_nil] at hlt
    exact Nat.lt_irrefl _ hlt
  have hkey := Position.key_behind_lt front.toList hne
  rwa [hmiddle, ← position_front front rest, ← position_front longer back, ← hfront, ← hlonger]
    at hkey

-- In every script the position of an offset between two characters is counted on what stands before
-- it, a later offset has a later position, and errors at different offsets differ as texts, whatever
-- they say.
theorem position_identifies (script : String) :
    (∀ offset ∈ offsets script, ∃ front back : String, script = front ++ back ∧
      front.utf8ByteSize = offset ∧ (Location.mk script offset).position = .behind front.toList) ∧
    StrictMonoOn (fun offset => (Location.mk script offset).position.key) (offsets script) ∧
    ∀ first ∈ offsets script, ∀ second ∈ offsets script, ∀ fault other : Fault,
      (Error.mk fault ⟨script, first⟩).render = (Error.mk other ⟨script, second⟩).render →
        first = second := by
  refine ⟨fun offset ho => ?_, key_strictMonoOn script, fun first hf second hs fault other h => ?_⟩
  · obtain ⟨front, back, rfl, rfl⟩ := exists_front ho
    exact ⟨front, back, rfl, rfl, position_front front back⟩
  · have hposition := Error.position_of_render h
    exact (key_strictMonoOn script).injOn hf hs (congrArg Position.key hposition)

-- A line feed behind an accented letter, a character of four bytes on the second line, and the end.
theorem position_identifies_accented :
    (3 ∈ offsets "né\n😀x" ∧ 4 ∈ offsets "né\n😀x" ∧ 9 ∈ offsets "né\n😀x") ∧
    (Location.mk "né\n😀x" 3).position = ⟨1, 3⟩ ∧ (Location.mk "né\n😀x" 4).position = ⟨2, 1⟩ ∧
    (Location.mk "né\n😀x" 9).position = ⟨2, 3⟩ ∧
    (∃ front back : String, "né\n😀x" = front ++ back ∧ front.utf8ByteSize = 9 ∧
      (Location.mk "né\n😀x" 9).position = .behind front.toList) ∧
    (Location.mk "né\n😀x" 3).position.key < (Location.mk "né\n😀x" 4).position.key ∧
    ∀ fault other : Fault, (Error.mk fault ⟨"né\n😀x", 3⟩).render ≠
      (Error.mk other ⟨"né\n😀x", 4⟩).render := by
  have hfeed : 3 ∈ offsets "né\n😀x" := by decide
  have hline : 4 ∈ offsets "né\n😀x" := by decide
  have hend : 9 ∈ offsets "né\n😀x" := by decide
  obtain ⟨hcounted, hlater, hreported⟩ := position_identifies "né\n😀x"
  refine ⟨⟨hfeed, hline, hend⟩, by decide, by decide, by decide, hcounted 9 hend,
    hlater hfeed hline (by decide), ?_⟩
  intro fault other h
  exact absurd (hreported 3 hfeed 4 hline fault other h) (by decide)

end Location

end ScriptEngine
