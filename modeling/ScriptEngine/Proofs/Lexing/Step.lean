import ScriptEngine.Program.Parser

-- One step of lexing: the stream of a text is decided by the token behind the first gap.

namespace ScriptEngine

namespace Scan

theorem skipGap_nil {offset : Nat} : skipGap ⟨offset, []⟩ = ⟨offset, []⟩ := by
  rw [skipGap]

theorem skipGap_line {offset : Nat} {comment : List Char} :
    skipGap ⟨offset, '/' :: '/' :: comment⟩ =
      skipGap ⟨offset + 2 + Text.width (comment.takeWhile (· ≠ '\n')),
        comment.drop (comment.takeWhile (· ≠ '\n')).length⟩ := by
  rw [skipGap]
  rfl

theorem skipGap_block {offset : Nat} {comment : List Char} :
    skipGap ⟨offset, '/' :: '*' :: comment⟩ =
      match closeComment? (offset + 2) comment with
      | some after => skipGap after
      | none => ⟨offset, '/' :: '*' :: comment⟩ := by
  rw [skipGap]
  split
  · next hc => cases hc
  · next hc =>
    cases hc
    split
    · next hm => simp only [hm]
    · next hm => simp only [hm]
  · next hn hc =>
    cases hc
    exact absurd rfl (hn comment rfl)
  · next hc => cases hc

theorem skipGap_cons {offset : Nat} {c : Char} {rest : List Char}
    (h : c = '/' → rest.head? ≠ some '/' ∧ rest.head? ≠ some '*') :
    skipGap ⟨offset, c :: rest⟩ =
      if isSpace c then skipGap ⟨offset + c.utf8Size, rest⟩ else ⟨offset, c :: rest⟩ := by
  rw [skipGap]
  split
  · next hc => cases hc; exact absurd rfl (h rfl).1
  · next hc => cases hc; exact absurd rfl (h rfl).2
  · next hc => cases hc; rfl
  · next hc => cases hc

-- Behind the gap stands the start of a token.
def Starts (cursor : Cursor) (offset : Nat) (first : Char) (rest : List Char) : Prop :=
  skipGap cursor = ⟨offset, first :: rest⟩ ∧ ¬ (first = '/' ∧ rest.head? = some '*')

end Scan

namespace Stream

variable {cursor : Cursor}

-- The stream as a match that rewrites.
theorem ofCursor_eq :
    ofCursor cursor =
      match Scan.skipGap cursor with
      | ⟨offset, []⟩ => done offset
      | ⟨offset, first :: rest⟩ =>
        if first = '/' ∧ rest.head? = some '*' then broken ⟨.unterminatedComment, offset⟩
        else match Scan.token first rest with
          | .error (fault, size) =>
            broken ⟨fault, offset + Text.width ((first :: rest).take size)⟩
          | .ok (token, size) =>
            next ⟨token, offset, offset + Text.width (first :: rest.take size)⟩
              (ofCursor ⟨offset + Text.width (first :: rest.take size), rest.drop size⟩) := by
  rw [ofCursor]
  cases Scan.skipGap cursor with
  | mk offset text =>
    split
    · next h => cases h; rfl
    · next h => cases h; rfl

theorem ofCursor_eq_done {offset : Nat} :
    ofCursor cursor = done offset ↔ Scan.skipGap cursor = ⟨offset, []⟩ := by
  rw [ofCursor_eq]
  split
  · next h => simp [h]
  · next h =>
    simp only [h]
    split
    · simp
    · split <;> simp

theorem ofCursor_eq_next {lexeme : Lexeme} {tail : Stream} :
    ofCursor cursor = next lexeme tail ↔
      ∃ offset first rest token size, Scan.Starts cursor offset first rest ∧
        Scan.token first rest = .ok (token, size) ∧
        lexeme = ⟨token, offset, offset + Text.width (first :: rest.take size)⟩ ∧
        tail = ofCursor ⟨lexeme.stop, rest.drop size⟩ := by
  rw [ofCursor_eq]
  unfold Scan.Starts
  split
  · next h => simp [h]
  · next offset first rest h =>
    simp only [h, Cursor.mk.injEq, List.cons.injEq]
    split
    · next hc =>
      simp only [reduceCtorEq, false_iff]
      rintro ⟨_, _, _, _, _, ⟨⟨rfl, rfl, rfl⟩, hn⟩, -⟩
      exact hn hc
    · next hc =>
      split
      · next ht =>
        simp only [reduceCtorEq, false_iff]
        rintro ⟨_, _, _, _, _, ⟨⟨rfl, rfl, rfl⟩, -⟩, hk, -⟩
        rw [ht] at hk
        cases hk
      · next token size ht =>
        constructor
        · rintro ⟨⟩
          exact ⟨offset, first, rest, token, size, ⟨⟨rfl, rfl, rfl⟩, hc⟩, ht, rfl, rfl⟩
        · rintro ⟨_, _, _, _, _, ⟨⟨rfl, rfl, rfl⟩, -⟩, hk, rfl, rfl⟩
          rw [ht] at hk
          cases hk
          rfl

-- Where no gap stands in front, the stream starts with the token at hand.
theorem ofCursor_cons {first : Char} {rest : List Char} (hs : Scan.isSpace first = false)
    (hc : first = '/' → rest.head? ≠ some '/' ∧ rest.head? ≠ some '*') (offset : Nat) :
    ofCursor ⟨offset, first :: rest⟩ = match Scan.token first rest with
      | .error (fault, size) => broken ⟨fault, offset + Text.width ((first :: rest).take size)⟩
      | .ok (token, size) =>
        next ⟨token, offset, offset + Text.width (first :: rest.take size)⟩
          (ofCursor ⟨offset + Text.width (first :: rest.take size), rest.drop size⟩) := by
  have hgap : Scan.skipGap ⟨offset, first :: rest⟩ = ⟨offset, first :: rest⟩ := by
    rw [Scan.skipGap_cons hc, hs]
    rfl
  have hcomment : ¬ (first = '/' ∧ rest.head? = some '*') := fun h => (hc h.1).2 h.2
  have hstep := @ofCursor_eq ⟨offset, first :: rest⟩
  rw [hgap] at hstep
  simp only [if_neg hcomment] at hstep
  exact hstep

-- What stands in a gap does not matter.
theorem ofCursor_congr {other : Cursor} (h : Scan.skipGap cursor = Scan.skipGap other) :
    ofCursor cursor = ofCursor other := by
  rw [ofCursor_eq, ofCursor_eq, h]

end Stream

end ScriptEngine
