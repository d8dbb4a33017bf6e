import ScriptEngine.Proofs.Lexing.Gap
import ScriptEngine.Proofs.Reading.Derivation

-- Where a stream stands in a text, and which streams follow from it.

namespace ScriptEngine

-- The cursor stands in the text: its offset counts the bytes before what it has left.
def Cursor.In (script : List Char) (cursor : Cursor) : Prop :=
  ∃ front, script = front ++ cursor.rest ∧ Text.width front = cursor.offset

namespace Stream

-- The second stream is what the first comes to after some tokens.
inductive Leads : Stream → Stream → Prop where
  | refl (stream : Stream) : Leads stream stream
  | next {lexeme : Lexeme} {rest target : Stream} : Leads rest target →
      Leads (next lexeme rest) target

@[grind →] theorem Leads.trans {first second third : Stream} (h : Leads first second)
    (hs : Leads second third) : Leads first third := by
  induction h with
  | refl => exact hs
  | next _ ih => exact .next (ih hs)

theorem Leads.length_le {first second : Stream} (h : Leads first second) :
    second.length ≤ first.length := by
  induction h with
  | refl => exact Nat.le_refl _
  | next _ ih => exact Nat.le_succ_of_le ih

theorem Leads.intact {first second : Stream} (h : Leads first second) (hi : second.Intact) :
    first.Intact := by
  cases h with
  | refl => exact hi
  | next _ => trivial

@[grind →] theorem Passes.leads {stream rest : Stream} {token : Token}
    (h : stream.Passes token rest) : Leads stream rest := by
  obtain ⟨lexeme, rfl, -, -⟩ := h
  exact .next (.refl rest)

@[grind →] theorem Closes.leads {stream rest : Stream} (h : stream.Closes rest) :
    Leads stream rest := by
  obtain ⟨-, rfl⟩ | h := h
  · exact .refl _
  · exact h.leads

-- The stream of a place in the text.
def At (script : List Char) (stream : Stream) : Prop :=
  ∃ cursor : Cursor, cursor.In script ∧ stream = ofCursor cursor

variable {script : List Char}

theorem ofText_at : (ofText script).At script :=
  ⟨⟨0, script⟩, ⟨[], rfl, rfl⟩, rfl⟩

end Stream

theorem Cursor.In.skipGap {script : List Char} {cursor : Cursor} (h : cursor.In script) :
    (Scan.skipGap cursor).In script := by
  obtain ⟨front, hs, hw⟩ := h
  obtain ⟨gap, hrest, ho, -, -⟩ := Scan.gap_of_skipGap cursor
  refine ⟨front ++ gap, ?_, ?_⟩
  · rw [hs, hrest, List.append_assoc]
  · rw [Text.width_append, hw, ho]

namespace Stream

variable {script : List Char}

-- A stream that is not broken starts behind the gap.
theorem skipGap_of_ofCursor {cursor : Cursor} (hi : (ofCursor cursor).Intact) :
    ∃ rest, Scan.skipGap cursor = ⟨(ofCursor cursor).offset, rest⟩ ∧ ¬ Scan.OpensComment rest := by
  cases hs : ofCursor cursor with
  | done offset =>
    refine ⟨[], ofCursor_eq_done.mp hs, ?_⟩
    rintro ⟨comment, hc⟩
    cases hc
  | next lexeme tail =>
    obtain ⟨offset, first, rest, token, size, hstart, -, rfl, -⟩ := ofCursor_eq_next.mp hs
    refine ⟨first :: rest, hstart.1, ?_⟩
    rintro ⟨comment, hc⟩
    cases hc
    exact hstart.2 ⟨rfl, rfl⟩
  | broken error =>
    rw [hs] at hi
    cases hi

theorem le_offset_ofCursor {cursor : Cursor} (hi : (ofCursor cursor).Intact) :
    cursor.offset ≤ (ofCursor cursor).offset := by
  obtain ⟨rest, hskip, -⟩ := skipGap_of_ofCursor hi
  obtain ⟨gap, -, ho, -, -⟩ := Scan.gap_of_skipGap cursor
  rw [hskip] at ho
  dsimp only at ho
  omega

-- So it is the stream of its own offset.
theorem At.place {stream : Stream} (h : stream.At script) (hi : stream.Intact) :
    ∃ rest, Cursor.In script ⟨stream.offset, rest⟩ ∧ stream = ofCursor ⟨stream.offset, rest⟩ ∧
      Scan.skipGap ⟨stream.offset, rest⟩ = ⟨stream.offset, rest⟩ := by
  obtain ⟨cursor, hin, rfl⟩ := h
  obtain ⟨rest, hskip, hopen⟩ := skipGap_of_ofCursor hi
  have hfixed : Scan.skipGap (Scan.skipGap cursor) = Scan.skipGap cursor :=
    Scan.skipGap_skipGap (by rwa [hskip])
  have hplace := hin.skipGap
  rw [hskip] at hfixed hplace
  exact ⟨rest, hplace, ofCursor_congr (hskip.trans hfixed.symm), hfixed⟩

-- A token reaches to the place of the stream behind it.
theorem At.next {lexeme : Lexeme} {rest : Stream} (h : (next lexeme rest).At script) :
    lexeme.start < lexeme.stop ∧
      ∃ text, Cursor.In script ⟨lexeme.stop, text⟩ ∧ rest = ofCursor ⟨lexeme.stop, text⟩ := by
  obtain ⟨cursor, hin, hs⟩ := h
  obtain ⟨offset, first, tail, token, size, hstart, ht, rfl, rfl⟩ := ofCursor_eq_next.mp hs.symm
  have hplace : Cursor.In script ⟨offset, first :: tail⟩ := hstart.1 ▸ hin.skipGap
  obtain ⟨front, hscript, hwidth⟩ := hplace
  have hat : Cursor.In script
      ⟨offset + Text.width (first :: tail.take size), tail.drop size⟩ := by
    refine ⟨front ++ first :: tail.take size, ?_, ?_⟩
    · rw [hscript, List.append_assoc, List.cons_append, List.take_append_drop]
    · rw [Text.width_append, hwidth]
  refine ⟨?_, tail.drop size, hat, rfl⟩
  have := first.utf8Size_pos
  simp only [Text.width_cons]
  omega

theorem At.leads {first second : Stream} (h : first.At script) (hl : Leads first second) :
    second.At script := by
  induction hl with
  | refl => exact h
  | next _ ih =>
    obtain ⟨-, text, hin, hrest⟩ := h.next
    exact ih ⟨_, hin, hrest⟩

-- Offsets grow from token to token.
theorem At.stop_le_offset {lexeme : Lexeme} {rest : Stream}
    (h : (Stream.next lexeme rest).At script) (hi : rest.Intact) : lexeme.stop ≤ rest.offset := by
  obtain ⟨-, text, -, hrest⟩ := h.next
  rw [hrest] at hi ⊢
  exact le_offset_ofCursor hi

theorem At.offset_le {first second : Stream} (h : first.At script) (hl : Leads first second)
    (hi : second.Intact) : first.offset ≤ second.offset := by
  induction hl with
  | refl => exact Nat.le_refl _
  | @next lexeme rest target hl ih =>
    have hlt := h.next.1
    have hstop := h.stop_le_offset (hl.intact hi)
    have hrest := ih (h.leads (.next (.refl rest))) hi
    change lexeme.start ≤ target.offset
    omega

theorem At.stop_le {lexeme : Lexeme} {rest target : Stream}
    (h : (Stream.next lexeme rest).At script) (hl : Leads rest target) (hi : target.Intact) :
    lexeme.stop ≤ target.offset :=
  Nat.le_trans (h.stop_le_offset (hl.intact hi))
    ((h.leads (.next (.refl rest))).offset_le hl hi)

end Stream

@[grind →] theorem Grammar.Derives.leads {script : List Char} {phrase : Phrase} {s t : Stream}
    (h : Derives script phrase s t) : s.Leads t := by
  induction h
  case noLinks | noSuffix | noExpressions | noEntries | noParameters | pathEnd | noBlockItems
      | noItems =>
    exact .refl _
  all_goals grind

end ScriptEngine
