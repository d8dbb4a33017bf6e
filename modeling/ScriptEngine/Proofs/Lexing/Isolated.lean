import ScriptEngine.Proofs.Lexing.Joining
import ScriptEngine.Proofs.Lexing.Longest
import ScriptEngine.Proofs.Printing.Spelling

-- Tokens on their own. The characters of a token, without what stands behind them, are read as the
-- same token, also where the rest has decided against a longer one.

namespace ScriptEngine.Scan

open Number

section Digits

variable {digits : List Char}

-- Digits alone are no fraction.
theorem double?_digits (h : ∀ c ∈ digits, c.isDigit) : double? digits = none := by
  have hf : fraction? digits = none := by
    simp only [fraction?, takeWhile_whole h, dropWhile_whole h]
    cases digits <;> rfl
  rw [double?_eq, hf]
  rfl

theorem isDigit_octal {c : Char} (h : isDigitIn 8 c) : c.isDigit := by
  unfold isDigitIn digitValue? at h
  grind

theorem octal_digits (h : ∀ c ∈ digits, isDigitIn 8 c) :
    octal digits = .ok (integer 8 digits, digits.length) := by
  simp only [octal, takeWhile_whole h, List.drop_length]

theorem hexDigits_nil (first : Char) : hexDigits first [] = [] := by
  unfold hexDigits
  grind

theorem hexDigits_cons (first mark : Char) :
    hexDigits first (mark :: digits) =
      if first = '0' ∧ (mark = 'x' ∨ mark = 'X') then digits.takeWhile (isDigitIn 16) else [] := by
  unfold hexDigits
  grind

theorem hexDigits_digits {mark : Char} (hm : mark = 'x' ∨ mark = 'X')
    (h : ∀ c ∈ digits, isDigitIn 16 c) : hexDigits '0' (mark :: digits) = digits := by
  rw [hexDigits_cons, if_pos ⟨rfl, hm⟩, takeWhile_whole h]

end Digits

variable {first : Char} {rest : List Char} {found : Token} {size : Nat}

theorem hexDigits_eq {digits : List Char} (h : hexDigits first rest = digits) (hne : digits ≠ []) :
    ∃ mark back, (mark = 'x' ∨ mark = 'X') ∧ first = '0' ∧ rest = mark :: (digits ++ back) ∧
      ∀ c ∈ digits, isDigitIn 16 c := by
  cases rest with
  | nil => exact absurd (h.symm.trans (hexDigits_nil first)) hne
  | cons mark rest =>
    rw [hexDigits_cons] at h
    split at h
    · next hmark =>
      obtain ⟨run, back, rfl, hr, hb⟩ := exists_run (isDigitIn 16) rest
      rw [takeWhile_run hr hb] at h
      subst h
      exact ⟨mark, back, hmark.2, hmark.1, rfl, hr⟩
    · exact absurd h.symm hne

-- A shorter text starts no run of characters if the longer one does not.
theorem takeWhile_take {p : Char → Bool} {text : List Char} (h : text.takeWhile p = [])
    (count : Nat) : (text.take count).takeWhile p = [] := by
  cases text with
  | nil => rw [List.take_nil, List.takeWhile_nil]
  | cons c tail =>
    cases count with
    | zero => rfl
    | succ count =>
      rw [List.takeWhile_cons] at h
      split at h
      · cases h
      · next hc => rw [List.take_succ_cons, List.takeWhile_cons_of_neg hc]

-- Nor a hexadecimal number.
theorem hexDigits_take (h : hexDigits first rest = []) (count : Nat) :
    hexDigits first (rest.take count) = [] := by
  cases rest with
  | nil => rwa [List.take_nil]
  | cons mark digits =>
    cases count with
    | zero => exact hexDigits_nil first
    | succ count =>
      rw [List.take_succ_cons, hexDigits_cons]
      rw [hexDigits_cons] at h
      split at h
      · next hm => rw [if_pos hm, takeWhile_take h]
      · next hm => rw [if_neg hm]

theorem double?_take (h : double? (first :: rest) = some (.ok (found, size))) :
    double? (first :: rest.take size) = some (.ok (found, size)) := by
  rw [double?_eq] at h
  obtain ⟨⟨fraction, whole⟩, hf, hfound⟩ := Option.map_eq_some_iff.mp h
  obtain ⟨piece, back, hsplit, rfl, hp⟩ := spelled_of_fraction? hf
  cases piece with
  | nil =>
    have hnone := hp.fraction?
    cases hnone
  | cons c piece =>
    cases hsplit
    cases hfound
    rw [List.length_cons, Nat.add_sub_cancel, List.append_eq, List.take_left, double?_eq,
      hp.fraction?]
    rfl

theorem octal_take (h : octal rest = .ok (found, size)) :
    octal (rest.take size) = .ok (found, size) ∧ ∀ c ∈ rest.take size, isDigitIn 8 c := by
  obtain ⟨digits, back, rfl, hd, hb⟩ := exists_run (isDigitIn 8) rest
  have hok : found = integer 8 digits ∧ size = digits.length := by
    simp only [octal, takeWhile_run hd hb, List.drop_left] at h
    grind
  obtain ⟨rfl, rfl⟩ := hok
  rw [List.take_left]
  exact ⟨octal_digits hd, hd⟩

theorem number_take (hf : first.isDigit) (h : number first rest = .ok (found, size)) :
    number first (rest.take size) = .ok (found, size) := by
  unfold number at h ⊢
  dsimp only at h ⊢
  by_cases hhex : hexDigits first rest = []
  · rw [hexDigits_take hhex]
    simp only [hhex, List.isEmpty_nil, Bool.not_true, Bool.false_eq_true, if_false] at h ⊢
    cases hdouble : double? (first :: rest) with
    | some result =>
      rw [hdouble] at h
      dsimp only at h
      subst h
      rw [double?_take hdouble]
    | none =>
      simp only [hdouble] at h
      by_cases h0 : first = '0'
      · rw [if_pos h0] at h ⊢
        obtain ⟨htake, hdigits⟩ := octal_take h
        rw [double?_digits, htake]
        simp only [List.forall_mem_cons]
        exact ⟨hf, fun c hc => isDigit_octal (hdigits c hc)⟩
      · rw [if_neg h0, decimal_eq hf] at h ⊢
        obtain ⟨digits, back, rfl, hd, hb⟩ := exists_run Char.isDigit rest
        rw [takeWhile_run hd hb] at h
        cases h
        rw [List.take_left, takeWhile_whole hd, double?_digits]
        simp only [List.forall_mem_cons]
        exact ⟨hf, hd⟩
  · -- The digits behind the mark.
    have hne : (hexDigits first rest).isEmpty = false := by simpa using hhex
    simp only [hne, Bool.not_false, if_true] at h
    obtain ⟨digits, hdigits⟩ : ∃ digits, hexDigits first rest = digits := ⟨_, rfl⟩
    rw [hdigits] at h hhex hne
    obtain ⟨mark, back, hm, rfl, rfl, hd⟩ := hexDigits_eq hdigits hhex
    cases h
    rw [List.take_succ_cons, List.take_left, hexDigits_digits hm hd, hne]
    rfl

theorem symbol_eq_ok (h : symbol first rest = .ok (found, size)) : ∃ mark, found = .symbol mark := by
  unfold symbol at h
  split at h
  · cases h
    exact ⟨_, rfl⟩
  · cases h

theorem literal_take {value : Literal} (h : token first rest = .ok (.literal value, size)) :
    token first (rest.take size) = .ok (.literal value, size) := by
  have hsize := token_size_le h
  unfold token at h ⊢
  split at h
  · simp only [word, Except.ok.injEq, Prod.mk.injEq] at h
    split at h <;> cases h.1
  · next hn =>
    rw [if_neg hn]
    split at h
    · next hd =>
      rw [if_pos hd]
      exact number_take hd h
    · next hd =>
      rw [if_neg hd]
      split at h
      · next hq =>
        rw [if_pos hq]
        have hquote : first ≠ '\\' := by
          rintro rfl
          simp at hq
        have hle : size ≤ (rest.take size).length := by
          rw [List.length_take]
          omega
        rw [← List.take_append_drop size rest] at h
        exact (stringLiteral_append hquote hle).mp h
      · next hq =>
        rw [if_neg hq]
        split at h
        · next hpoint =>
          rw [if_pos hpoint]
          split at h
          · next hdouble =>
            subst h
            rw [double?_take hdouble]
          · obtain ⟨mark, hmark⟩ := symbol_eq_ok h
            cases hmark
        · obtain ⟨mark, hmark⟩ := symbol_eq_ok h
          cases hmark

-- A token does not need what stands behind it.
theorem token_take (h : token first rest = .ok (found, size)) :
    token first (rest.take size) = .ok (found, size) := by
  have hsize := token_size_le h
  obtain ⟨hn, rfl, rfl⟩ | ⟨value, rfl⟩ | hs := token_cases h
  · obtain ⟨letters, back, rfl, hl, hb⟩ := exists_run continuesName rest
    rw [takeWhile_run hl hb, List.take_left]
    exact token_name hn (List.all_eq_true.mpr hl)
  · exact literal_take h
  · obtain ⟨mark, rfl⟩ := symbol_eq_ok hs
    obtain ⟨htext, -⟩ : mark.text.toList = first :: rest.take size ∧ _ := token_fits h
    obtain ⟨c, tail, hc, -, -, ht⟩ := spells_symbol mark
    rw [htext] at hc
    cases hc
    rwa [List.length_take_of_le hsize] at ht

end ScriptEngine.Scan
