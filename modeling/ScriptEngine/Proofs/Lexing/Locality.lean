import ScriptEngine.Proofs.Lexing.Fraction

-- How far a token looks. A space, an end of line and a closing brace belong to no token that starts
-- before them, apart from the inside of strings, and no rule looks past them: what stands behind one
-- of them does not matter for the token in front of it.

namespace ScriptEngine.Scan

open Number

def isDelimiter (d : Char) : Bool :=
  d = ' ' || d = '\n' || d = '\x7d'

variable {d : Char} {front back : List Char}

theorem isDelimiter_iff : isDelimiter d ↔ d = ' ' ∨ d = '\n' ∨ d = '\x7d' := by
  simp [isDelimiter, or_assoc]

theorem continuesName_delimiter (hd : isDelimiter d) : continuesName d = false := by
  obtain rfl | rfl | rfl := isDelimiter_iff.mp hd <;> decide

theorem isDigit_delimiter (hd : isDelimiter d) : d.isDigit = false := by
  obtain rfl | rfl | rfl := isDelimiter_iff.mp hd <;> decide

theorem isDigitIn_delimiter (hd : isDelimiter d) (radix : Nat) : isDigitIn radix d = false := by
  obtain rfl | rfl | rfl := isDelimiter_iff.mp hd <;> simp [isDigitIn, digitValue?]

theorem takeWhile_delimited {p : Char → Bool} (hd : p d = false) :
    (front ++ d :: back).takeWhile p = front.takeWhile p := by
  induction front with
  | nil => simp [hd]
  | cons c rest ih => simp [List.takeWhile_cons, ih]

theorem dropWhile_delimited {p : Char → Bool} (hd : p d = false) :
    (front ++ d :: back).dropWhile p = front.dropWhile p ++ d :: back := by
  induction front with
  | nil => simp [hd]
  | cons c rest ih =>
    simp only [List.cons_append, List.dropWhile_cons, ih]
    split <;> rfl

theorem sign_delimited (hd : isDelimiter d) :
    sign (front ++ d :: back) = ((sign front).1, (sign front).2 ++ d :: back) := by
  cases front with
  | nil => obtain rfl | rfl | rfl := isDelimiter_iff.mp hd <;> rfl
  | cons c rest =>
    rw [List.cons_append]
    unfold sign
    split
    · next h => cases h; rfl
    · next h => cases h; rfl
    · next hminus hplus =>
      split
      · next h => cases h; exact absurd rfl (hminus _)
      · next h => cases h; exact absurd rfl (hplus _)
      · rfl

-- An exponent ends before a delimiter, and what it leaves grows with the text.
theorem exponent?_delimited (hd : isDelimiter d) :
    exponent? (front ++ d :: back) =
      (exponent? front).map fun (power, left) => (power, left ++ d :: back) := by
  have hdigit := isDigit_delimiter hd
  cases front with
  | nil => obtain rfl | rfl | rfl := isDelimiter_iff.mp hd <;> rfl
  | cons mark rest =>
    rw [List.cons_append, exponent?_cons, exponent?_cons, sign_delimited hd]
    simp only [takeWhile_delimited hdigit, dropWhile_delimited hdigit]
    split
    · split <;> rfl
    · rfl

theorem length_sub_delimited (longer shorter : List Char) :
    (longer ++ d :: back).length - (shorter ++ d :: back).length =
      longer.length - shorter.length := by
  simp only [List.length_append]
  omega

-- So does a fraction.
theorem fraction?_delimited (hd : isDelimiter d) :
    fraction? (front ++ d :: back) = fraction? front := by
  have hdigit := isDigit_delimiter hd
  obtain ⟨hdot, hlower, hupper⟩ : d ≠ '.' ∧ d ≠ 'e' ∧ d ≠ 'E' := by
    obtain rfl | rfl | rfl := isDelimiter_iff.mp hd <;> decide
  have hmap (tail : List Char) (whole after : List Char) (size : Nat) :
      ((exponent? (tail ++ d :: back)).map fun (power, left) =>
        ((⟨whole, after, power⟩ : Fraction), size + ((tail ++ d :: back).length - left.length))) =
      (exponent? tail).map fun (power, left) =>
        (⟨whole, after, power⟩, size + (tail.length - left.length)) := by
    rw [exponent?_delimited hd, Option.map_map]
    congr 1
    funext ⟨power, left⟩
    simp only [Function.comp, length_sub_delimited]
  simp only [fraction?, takeWhile_delimited hdigit, dropWhile_delimited hdigit]
  cases ht : front.dropWhile Char.isDigit with
  | nil =>
    rw [List.nil_append]
    split
    · next h => cases h; exact absurd rfl hdot
    · have := hmap [] (front.takeWhile Char.isDigit) [] (front.takeWhile Char.isDigit).length
      rw [List.nil_append] at this
      rw [this]
  | cons c rest =>
    by_cases hc : c = '.'
    · subst hc
      simp only [List.cons_append, takeWhile_delimited hdigit, dropWhile_delimited hdigit]
      split
      · rfl
      · cases htail : rest.dropWhile Char.isDigit with
        | nil => simp [hlower, hupper]
        | cons mark digits =>
          simp only [List.cons_append]
          have := hmap (mark :: digits)
          rw [List.cons_append] at this
          rw [this]
    · have := hmap (c :: rest) (front.takeWhile Char.isDigit) []
        (front.takeWhile Char.isDigit).length
      rw [List.cons_append] at this ⊢
      simp only [this, List.cons.injEq, hc, false_and, forall_const, imp_self]

theorem hexDigits_delimited (hd : isDelimiter d) (first : Char) :
    hexDigits first (front ++ d :: back) = hexDigits first front := by
  obtain ⟨hlower, hupper⟩ : d ≠ 'x' ∧ d ≠ 'X' := by
    obtain rfl | rfl | rfl := isDelimiter_iff.mp hd <;> decide
  cases front with
  | nil => by_cases h0 : first = '0' <;> simp [hexDigits, h0, hlower, hupper]
  | cons mark digits =>
    by_cases h0 : first = '0' <;>
      simp [hexDigits, h0, takeWhile_delimited (isDigitIn_delimiter hd 16)]

theorem octal_delimited (hd : isDelimiter d) : octal (front ++ d :: back) = octal front := by
  have hl : (front.takeWhile (isDigitIn 8)).length ≤ front.length :=
    (List.takeWhile_sublist _).length_le
  simp only [octal, takeWhile_delimited (isDigitIn_delimiter hd 8),
    List.drop_append_of_le_length hl]
  cases front.drop (front.takeWhile (isDigitIn 8)).length with
  | nil => simp [isDigit_delimiter hd]
  | cons c rest => rfl

theorem double?_delimited (hd : isDelimiter d) (first : Char) :
    double? (first :: (front ++ d :: back)) = double? (first :: front) :=
  double?_congr (by rw [← List.cons_append, fraction?_delimited hd])

-- And a number.
theorem number_delimited (hd : isDelimiter d) (first : Char) :
    number first (front ++ d :: back) = number first front := by
  have hdecimal : decimal (first :: (front ++ d :: back)) = decimal (first :: front) := by
    rw [← List.cons_append, decimal, takeWhile_delimited (isDigit_delimiter hd)]
    rfl
  simp only [number, hexDigits_delimited hd, double?_delimited hd, octal_delimited hd, hdecimal]

-- A symbol is cut off by a delimiter, which can only be its first character.
theorem isPrefixOf_delimited {mark : List Char} (hd : d ∉ mark) :
    mark.isPrefixOf (front ++ d :: back) = mark.isPrefixOf front := by
  induction mark generalizing front with
  | nil => simp
  | cons c rest ih =>
    simp only [List.mem_cons, not_or] at hd
    cases front with
    | nil => simp [List.isPrefixOf, Ne.symm hd.1]
    | cons first tail => simp [List.isPrefixOf, ih hd.2]

theorem delimiter_notMem_tail (hd : isDelimiter d) (mark : Symbol) :
    d ∉ mark.text.toList.tail := by
  obtain rfl | rfl | rfl := isDelimiter_iff.mp hd <;> cases mark <;> decide

theorem symbol_delimited (hd : isDelimiter d) (first : Char) :
    symbol first (front ++ d :: back) = symbol first front := by
  have hp (mark : Symbol) : mark.text.toList.isPrefixOf (first :: (front ++ d :: back)) =
      mark.text.toList.isPrefixOf (first :: front) := by
    have ht := delimiter_notMem_tail hd mark
    cases hm : mark.text.toList with
    | nil => rfl
    | cons c rest =>
      rw [hm, List.tail_cons] at ht
      simp [List.isPrefixOf, isPrefixOf_delimited ht]
  simp only [symbol, Symbol.longestPrefix?, hp]

-- The inside of a string: no quote stands there, except behind a backslash.
def isQuotable (quote : Char) : List Char → Bool
  | [] => true
  | ['\\'] => false
  | '\\' :: _ :: rest => isQuotable quote rest
  | c :: rest => c ≠ quote && isQuotable quote rest

theorem isQuotable_cons {quote c : Char} {rest : List Char} (hc : c ≠ '\\') :
    isQuotable quote (c :: rest) = (c ≠ quote && isQuotable quote rest) := by
  cases rest <;> simp [isQuotable, hc]

theorem stringBody?_cons {quote c : Char} {rest : List Char} (hc : c ≠ '\\') :
    stringBody? quote (c :: rest) =
      if c = quote then some [] else (stringBody? quote rest).map (c :: ·) := by
  cases rest <;> simp [stringBody?, hc]

theorem stringBody?_eq_some {quote : Char} (hq : quote ≠ '\\') {text body : List Char} :
    stringBody? quote text = some body ↔
      isQuotable quote body ∧ ∃ rest, text = body ++ quote :: rest := by
  -- The body is taken apart along the text: a pair behind a backslash, or one character.
  induction text using stringBody?.induct quote generalizing body with
  | case1 => simp [stringBody?]
  | case2 =>
    match body with
    | [] => simp [stringBody?, hq.symm]
    | [c] => simp [stringBody?]
    | c :: e :: inner => simp [stringBody?]
  | case3 c rest ih =>
    match body with
    | [] => simp [stringBody?, hq.symm]
    | [b] =>
      by_cases hb : b = '\\'
      · simp [stringBody?, isQuotable, hb]
      · simp [stringBody?, Ne.symm hb]
    | b :: e :: inner =>
      by_cases hb : b = '\\'
      · subst hb
        by_cases he : e = c
        · subst he
          simp [stringBody?, isQuotable, ih]
        · simp [stringBody?, Ne.symm he]
      · simp [stringBody?, Ne.symm hb]
  | case4 rest hs hp =>
    rw [stringBody?_cons hq, if_pos rfl]
    match body with
    | [] => simp [isQuotable]
    | b :: inner =>
      by_cases hb : b = quote
      · subst hb
        simp [isQuotable_cons hq]
      · simp [Ne.symm hb]
  | case5 c rest hs hp hc ih =>
    have hne : c ≠ '\\' := by
      rintro rfl
      cases rest with
      | nil => exact hs rfl rfl
      | cons first rest => exact hp first rest rfl rfl
    rw [stringBody?_cons hne, if_neg hc]
    match body with
    | [] => simp [hc]
    | b :: inner =>
      by_cases hb : b = c
      · subst hb
        simp [isQuotable_cons hne, hc, ih]
      · simp [Ne.symm hb]

theorem stringLiteral_eq_ok {quote : Char} (hq : quote ≠ '\\') {text : List Char} {token : Token}
    {size : Nat} :
    stringLiteral quote text = .ok (token, size) ↔
      ∃ body value rest, isQuotable quote body ∧ text = body ++ quote :: rest ∧
        unescape body = .ok value ∧ token = .literal (.string (String.ofList value)) ∧
        size = body.length + 1 := by
  unfold stringLiteral
  cases hb : stringBody? quote text with
  | none =>
    simp only [reduceCtorEq, false_iff]
    rintro ⟨body, -, rest, hi, rfl, -⟩
    rw [(stringBody?_eq_some hq).mpr ⟨hi, rest, rfl⟩] at hb
    cases hb
  | some body =>
    obtain ⟨hi, rest, rfl⟩ := (stringBody?_eq_some hq).mp hb
    constructor
    · intro h
      cases hv : unescape body with
      | ok value =>
        simp only [hv, Except.ok.injEq, Prod.mk.injEq] at h
        exact ⟨body, value, rest, hi, rfl, hv, h.1.symm, h.2.symm⟩
      | error fault => simp [hv] at h
    · rintro ⟨other, value, tail, ho, ht, hv, rfl, rfl⟩
      have he := (stringBody?_eq_some hq).mpr ⟨ho, tail, ht⟩
      rw [hb] at he
      cases he
      simp [hv]

-- A string is local as well, as long as it closes in the front part.
theorem stringLiteral_append {quote : Char} (hq : quote ≠ '\\') {token : Token} {size : Nat}
    (hs : size ≤ front.length) :
    stringLiteral quote (front ++ back) = .ok (token, size) ↔
      stringLiteral quote front = .ok (token, size) := by
  rw [stringLiteral_eq_ok hq, stringLiteral_eq_ok hq]
  constructor
  · rintro ⟨body, value, rest, hi, ht, hv, rfl, rfl⟩
    have hb : body ++ [quote] <+: front ++ back := ⟨rest, by simp [ht]⟩
    obtain ⟨tail, rfl⟩ : body ++ [quote] <+: front :=
      List.prefix_of_prefix_length_le hb (List.prefix_append front back) (by simpa using hs)
    exact ⟨body, value, tail, hi, by simp, hv, rfl, rfl⟩
  · rintro ⟨body, value, rest, hi, rfl, hv, rfl, rfl⟩
    exact ⟨body, value, rest ++ back, hi, by simp, hv, rfl, rfl⟩

-- The token at the start of a text is the one that it has without what stands behind a delimiter.
theorem token_delimited (hd : isDelimiter d) {first : Char} {found : Token} {size : Nat}
    (hs : size ≤ front.length) :
    token first (front ++ d :: back) = .ok (found, size) ↔
      token first front = .ok (found, size) := by
  unfold token
  simp only [takeWhile_delimited (continuesName_delimiter hd), number_delimited hd,
    symbol_delimited hd, double?_delimited hd]
  split
  · rfl
  · split
    · rfl
    · split
      · next hq =>
        refine stringLiteral_append ?_ hs
        rintro rfl
        simp at hq
      · rfl

end ScriptEngine.Scan
