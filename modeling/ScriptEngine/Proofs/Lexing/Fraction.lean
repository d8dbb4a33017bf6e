import ScriptEngine.Token.Scan

-- What a decimal fraction consists of. It is read the same with and without the text behind it, and
-- its characters spell a double.

namespace ScriptEngine.Scan

open Number

theorem exponent?_cons (mark : Char) (rest : List Char) :
    exponent? (mark :: rest) =
      if mark = 'e' ∨ mark = 'E' then
        match (sign rest).2.takeWhile Char.isDigit with
        | [] => none
        | run =>
          let size : Int := digitsValue 10 run
          some (if (sign rest).1 then -size else size, (sign rest).2.dropWhile Char.isDigit)
      else none := rfl

section Run

variable {p : Char → Bool} {run other : List Char}

-- A run ends where a character does not belong to it.
theorem takeWhile_run (hr : ∀ c ∈ run, p c) (ho : ∀ c ∈ other.head?, p c = false) :
    (run ++ other).takeWhile p = run := by
  rw [List.takeWhile_append_of_pos hr]
  cases other with
  | nil => exact List.append_nil run
  | cons c rest =>
    rw [List.takeWhile_cons_of_neg (by simpa using ho c rfl), List.append_nil]

theorem dropWhile_run (hr : ∀ c ∈ run, p c) (ho : ∀ c ∈ other.head?, p c = false) :
    (run ++ other).dropWhile p = other := by
  rw [List.dropWhile_append_of_pos hr]
  cases other with
  | nil => rfl
  | cons c rest => exact List.dropWhile_cons_of_neg (by simpa using ho c rfl)

theorem takeWhile_whole (hr : ∀ c ∈ run, p c) : run.takeWhile p = run := by
  simpa using @takeWhile_run p run [] hr (by simp)

theorem dropWhile_whole (hr : ∀ c ∈ run, p c) : run.dropWhile p = [] := by
  simpa using @dropWhile_run p run [] hr (by simp)

theorem exists_run (p : Char → Bool) (text : List Char) :
    ∃ run other, text = run ++ other ∧ (∀ c ∈ run, p c) ∧ ∀ c ∈ other.head?, p c = false := by
  refine ⟨text.takeWhile p, text.dropWhile p, List.takeWhile_append_dropWhile.symm,
    List.all_eq_true.mp List.all_takeWhile, ?_⟩
  intro c hc
  have hn := List.head?_dropWhile_not p text
  rw [Option.mem_def.mp hc] at hn
  exact hn

end Run

-- The sign is decided by the first character.
theorem exists_sign (text : List Char) :
    ∃ front, text = front ++ (sign text).2 ∧
      ∀ other : List Char, (∀ c ∈ other.head?, c.isDigit) →
        sign (front ++ other) = ((sign text).1, other) := by
  unfold sign
  split
  · exact ⟨['-'], rfl, fun _ _ => rfl⟩
  · exact ⟨['+'], rfl, fun _ _ => rfl⟩
  · refine ⟨[], rfl, fun other ho => ?_⟩
    rw [List.nil_append]
    split
    · exact absurd (ho '-' rfl) (by decide)
    · exact absurd (ho '+' rfl) (by decide)
    · rfl

-- The characters of an exponent.
theorem exponent?_split {text left : List Char} {power : Int}
    (h : exponent? text = some (power, left)) :
    ∃ piece, text = piece ++ left ∧ exponent? piece = some (power, []) := by
  cases text with
  | nil => cases h
  | cons mark rest =>
    obtain ⟨front, hrest, hsign⟩ := exists_sign rest
    obtain ⟨run, other, hdigits, hr, ho⟩ := exists_run Char.isDigit (sign rest).2
    rw [exponent?_cons, hdigits, takeWhile_run hr ho, dropWhile_run hr ho] at h
    have hhead : ∀ c ∈ run.head?, c.isDigit := fun c hc => hr c (List.mem_of_mem_head? hc)
    split at h
    · next hm =>
      cases run with
      | nil => cases h
      | cons c tail =>
        cases h
        refine ⟨mark :: (front ++ c :: tail), ?_, ?_⟩
        · rw [List.cons_append, List.append_assoc, ← hdigits, ← hrest]
        · rw [exponent?_cons, if_pos hm, hsign _ hhead]
          simp only [takeWhile_whole hr, dropWhile_whole hr]
    · cases h

theorem exponent?_head {text : List Char} {result : Int × List Char}
    (h : exponent? text = some result) : ∃ mark rest, text = mark :: rest ∧
      (mark = 'e' ∨ mark = 'E') := by
  cases text with
  | nil => cases h
  | cons mark rest =>
    rw [exponent?_cons] at h
    split at h
    · next hm => exact ⟨mark, rest, rfl, hm⟩
    · cases h

-- A fraction in full: digits with a point among them and maybe an exponent, or digits and an exponent.
inductive Spelled : List Char → Fraction → Prop where
  | point {whole after : List Char} : (∀ c ∈ whole, c.isDigit) → (∀ c ∈ after, c.isDigit) →
      (whole.isEmpty && after.isEmpty) = false → Spelled (whole ++ '.' :: after) ⟨whole, after, 0⟩
  | pointExponent {whole after exponent : List Char} {power : Int} : (∀ c ∈ whole, c.isDigit) →
      (∀ c ∈ after, c.isDigit) → (whole.isEmpty && after.isEmpty) = false →
      exponent? exponent = some (power, []) →
      Spelled (whole ++ '.' :: (after ++ exponent)) ⟨whole, after, power⟩
  | exponent {whole exponent : List Char} {power : Int} : (∀ c ∈ whole, c.isDigit) →
      whole.isEmpty = false → exponent? exponent = some (power, []) →
      Spelled (whole ++ exponent) ⟨whole, [], power⟩

theorem isDigit_point : ∀ c ∈ ('.' :: rest : List Char).head?, c.isDigit = false := by
  rintro c ⟨⟩
  decide

theorem isDigit_exponent {text : List Char} {result : Int × List Char}
    (h : exponent? text = some result) : ∀ c ∈ text.head?, c.isDigit = false := by
  obtain ⟨mark, rest, rfl, rfl | rfl⟩ := exponent?_head h <;>
  · rintro c ⟨⟩
    decide

theorem ne_point_of_exponent? {text : List Char} {result : Int × List Char}
    (h : exponent? text = some result) : ∀ rest, text ≠ '.' :: rest := by
  obtain ⟨mark, rest, rfl, rfl | rfl⟩ := exponent?_head h <;>
  · rintro rest ⟨⟩

theorem spelled_of_fraction? {text : List Char} {fraction : Fraction} {size : Nat}
    (h : fraction? text = some (fraction, size)) :
    ∃ piece rest, text = piece ++ rest ∧ piece.length = size ∧ Spelled piece fraction := by
  obtain ⟨whole, other, rfl, hw, ho⟩ := exists_run Char.isDigit text
  simp only [fraction?, takeWhile_run hw ho, dropWhile_run hw ho] at h
  split at h
  · next rest =>
    obtain ⟨after, tail, rfl, ha, ht⟩ := exists_run Char.isDigit rest
    simp only [takeWhile_run ha ht, dropWhile_run ha ht] at h
    split at h
    · cases h
    · next hne =>
      have hsome := Bool.eq_false_iff.mpr hne
      have hpoint : ∃ piece rest, whole ++ '.' :: (after ++ tail) = piece ++ rest ∧
          piece.length = whole.length + 1 + after.length ∧ Spelled piece ⟨whole, after, 0⟩ :=
        ⟨_, tail, by simp, by simp; omega, .point hw ha hsome⟩
      split at h
      · split at h
        · obtain ⟨⟨power, left⟩, he, hf⟩ := Option.map_eq_some_iff.mp h
          obtain ⟨piece, htail, hp⟩ := exponent?_split he
          cases hf
          refine ⟨_, left, ?_, ?_, .pointExponent hw ha hsome hp⟩
          · rw [htail]
            simp
          · rw [htail]
            simp only [List.length_append, List.length_cons]
            omega
        · cases h
          exact hpoint
      · cases h
        exact hpoint
  · split at h
    · cases h
    · next hne =>
      obtain ⟨⟨power, left⟩, he, hf⟩ := Option.map_eq_some_iff.mp h
      obtain ⟨piece, rfl, hp⟩ := exponent?_split he
      cases hf
      refine ⟨_, left, (List.append_assoc _ _ _).symm, ?_,
        .exponent hw (Bool.eq_false_iff.mpr hne) hp⟩
      simp only [List.length_append]
      omega

-- The characters of a fraction are read as that fraction.
theorem Spelled.fraction? {piece : List Char} {fraction : Fraction} (h : Spelled piece fraction) :
    Scan.fraction? piece = some (fraction, piece.length) := by
  cases h with
  | @point whole after hw ha hne =>
    simp only [Scan.fraction?, takeWhile_run hw isDigit_point, dropWhile_run hw isDigit_point,
      takeWhile_whole ha, dropWhile_whole ha, hne, Bool.false_eq_true, if_false, List.length_append,
      List.length_cons, Option.some.injEq, Prod.mk.injEq, true_and]
    omega
  | @pointExponent whole after exponent power hw ha hne hp =>
    obtain ⟨mark, rest, rfl, hm⟩ := exponent?_head hp
    have hd := isDigit_exponent hp
    have hmark : (decide (mark = 'e') || decide (mark = 'E')) = true := by simpa using hm
    simp only [Scan.fraction?, takeWhile_run hw isDigit_point, dropWhile_run hw isDigit_point,
      takeWhile_run ha hd, dropWhile_run ha hd, hne, Bool.false_eq_true, if_false, hmark, if_true,
      hp, Option.map_some, List.length_append, List.length_cons, List.length_nil, Option.some.injEq,
      Prod.mk.injEq, true_and]
    omega
  | @exponent whole exponent power hw hne hp =>
    have hd := isDigit_exponent hp
    simp only [Scan.fraction?, takeWhile_run hw hd, dropWhile_run hw hd]
    split
    · exact absurd rfl (ne_point_of_exponent? hp _)
    · simp only [hne, Bool.false_eq_true, if_false, hp, Option.map_some, List.length_append,
        List.length_nil, Nat.sub_zero]

theorem sign_of_digit {c : Char} {rest : List Char} (h : c.isDigit ∨ c = '.') :
    sign (c :: rest) = (false, c :: rest) := by
  unfold sign
  split
  · next hc =>
    cases hc
    exact absurd h (by decide)
  · next hc =>
    cases hc
    exact absurd h (by decide)
  · rfl

-- A fraction has no sign.
theorem Spelled.sign {piece : List Char} {fraction : Fraction} (h : Spelled piece fraction) :
    Number.sign piece = (false, piece) := by
  cases h with
  | @point whole after hw _ _ | @pointExponent whole after _ _ hw _ _ _ =>
    cases whole with
    | nil => exact sign_of_digit (.inr rfl)
    | cons c rest => exact sign_of_digit (.inl (hw c List.mem_cons_self))
  | @exponent whole exponent power hw hne _ =>
    cases whole with
    | nil => cases hne
    | cons c rest => exact sign_of_digit (.inl (hw c List.mem_cons_self))

-- They spell its double.
theorem Spelled.readDouble? {piece : List Char} {fraction : Fraction} (h : Spelled piece fraction) :
    Number.readDouble? piece = some (fraction.toDouble false) := by
  unfold Number.readDouble?
  rw [h.sign]
  cases h with
  | @point whole after hw ha hne =>
    simp only [takeWhile_run hw isDigit_point, dropWhile_run hw isDigit_point, takeWhile_whole ha,
      dropWhile_whole ha, hne,
      Bool.false_eq_true, if_false]
  | @pointExponent whole after exponent power hw ha hne hp =>
    obtain ⟨mark, rest, rfl, -⟩ := exponent?_head hp
    have hd := isDigit_exponent hp
    simp only [takeWhile_run hw isDigit_point, dropWhile_run hw isDigit_point, takeWhile_run ha hd,
      dropWhile_run ha hd, hne, Bool.false_eq_true, if_false, hp]
  | @exponent whole exponent power hw hne hp =>
    have hd := isDigit_exponent hp
    simp only [takeWhile_run hw hd, dropWhile_run hw hd, hne, Bool.false_and, Bool.false_eq_true,
      if_false]
    obtain ⟨mark, rest, rfl, rfl | rfl⟩ := exponent?_head hp <;> simp [hp]

-- So the double at the start of a text is the one of its fraction.
theorem double?_eq (text : List Char) :
    double? text = (fraction? text).map fun found =>
      .ok (.literal (.number (.double (found.1.toDouble false))), found.2 - 1) := by
  unfold double?
  cases hf : Scan.fraction? text with
  | none => rfl
  | some found =>
    obtain ⟨fraction, size⟩ := found
    obtain ⟨piece, rest, rfl, rfl, hp⟩ := spelled_of_fraction? hf
    simp only [Option.map_some, List.take_left, hp.readDouble?]

theorem double?_congr {text other : List Char}
    (h : Scan.fraction? text = Scan.fraction? other) : double? text = double? other := by
  rw [double?_eq, double?_eq, h]

theorem decimal_eq {first : Char} (hd : first.isDigit) (rest : List Char) :
    decimal (first :: rest) = .ok (integer 10 (first :: rest.takeWhile Char.isDigit),
      (rest.takeWhile Char.isDigit).length) := by
  rw [decimal, List.takeWhile_cons_of_pos hd]
  rfl

end ScriptEngine.Scan
