import ScriptEngine.Proofs.Lexing.Fraction

-- What stands at the start of a text: a name, a literal or a symbol. Names and symbols are as long as
-- they can be, and a number that starts is always read.

namespace ScriptEngine

-- Letters that make a name, with nothing behind them that would make a longer one.
structure LongestName (letters back : List Char) : Prop where
  starts : ∀ c ∈ letters.head?, Scan.startsName c
  nonempty : letters ≠ []
  continues : ∀ c ∈ letters.tail, Scan.continuesName c
  ends : ∀ c ∈ back.head?, Scan.continuesName c = false

-- The characters are those of the token, and a longer word or symbol starts at none of them.
def Token.Fits : Token → List Char → List Char → Prop
  | keyword word, piece, back => word.text.toList = piece ∧ LongestName piece back
  | identifier name, piece, back =>
    name.toList = piece ∧ (∀ word : Keyword, word.text.toList ≠ piece) ∧ LongestName piece back
  | symbol mark, piece, back =>
    mark.text.toList = piece ∧
      ∀ other : Symbol, other.text.toList <+: piece ++ back → other.text.length ≤ mark.text.length
  | literal _, _, _ => True

namespace Keyword

theorem mem_all (word : Keyword) : word ∈ all := by
  cases word <;> decide

theorem ofText?_eq_some {letters : List Char} {word : Keyword} (h : ofText? letters = some word) :
    word.text.toList = letters := by
  simpa using List.find?_some h

theorem ofText?_eq_none {letters : List Char} (h : ofText? letters = none) (word : Keyword) :
    word.text.toList ≠ letters := by
  simpa using List.find?_eq_none.mp h word word.mem_all

end Keyword

namespace Symbol

theorem mem_all (mark : Symbol) : mark ∈ all := by
  cases mark <;> decide

theorem all_descending : all.Pairwise fun longer shorter =>
    shorter.text.length ≤ longer.text.length := by
  decide

-- The symbols are tried from the longest to the shortest.
theorem longestPrefix?_eq_some {text : List Char} {mark : Symbol}
    (h : longestPrefix? text = some mark) :
    mark.text.toList <+: text ∧
      ∀ other : Symbol, other.text.toList <+: text → other.text.length ≤ mark.text.length := by
  obtain ⟨hmark, before, after, hall, hbefore⟩ := List.find?_eq_some_iff_append.mp h
  refine ⟨List.isPrefixOf_iff_prefix.mp hmark, fun other hother => ?_⟩
  have hmem := other.mem_all
  have hsorted := all_descending
  rw [hall] at hmem hsorted
  obtain hb | hm | ha := by simpa using hmem
  · have hno := hbefore other hb
    rw [List.isPrefixOf_iff_prefix.mpr hother] at hno
    cases hno
  · exact Nat.le_of_eq (by rw [hm])
  · exact (List.pairwise_cons.mp (List.pairwise_append.mp hsorted).2.1).1 other ha

theorem text_ne_nil (mark : Symbol) : mark.text.toList ≠ [] := by
  cases mark <;> decide

end Symbol

namespace Scan

variable {first : Char} {rest : List Char} {found : Token} {size : Nat} {fault : ParseFault}

theorem double?_literal {text : List Char} (h : double? text = some (.ok (found, size))) :
    ∃ value, found = .literal value := by
  rw [double?_eq] at h
  obtain ⟨fraction, -, hfound⟩ := Option.map_eq_some_iff.mp h
  cases hfound
  exact ⟨_, rfl⟩

theorem number_literal (h : number first rest = .ok (found, size)) :
    ∃ value, found = .literal value := by
  simp only [number] at h
  split at h
  · cases h
    exact ⟨_, rfl⟩
  · split at h
    · next hf =>
      subst h
      exact double?_literal hf
    · unfold octal decimal integer at h
      grind

theorem stringLiteral_literal {quote : Char} (h : stringLiteral quote rest = .ok (found, size)) :
    ∃ value, found = .literal value := by
  unfold stringLiteral at h
  grind

-- A token is a name, a literal or a symbol.
theorem token_cases (h : token first rest = .ok (found, size)) :
    (startsName first ∧ found = word (first :: rest.takeWhile continuesName) ∧
      size = (rest.takeWhile continuesName).length) ∨
    (∃ value, found = .literal value) ∨ symbol first rest = .ok (found, size) := by
  unfold token at h
  split at h
  · next hn =>
    cases h
    exact .inl ⟨hn, rfl, rfl⟩
  · refine .inr ?_
    split at h
    · exact .inl (number_literal h)
    · split at h
      · exact .inl (stringLiteral_literal h)
      · split at h
        · split at h
          · next hf =>
            subst h
            exact .inl (double?_literal hf)
          · exact .inr h
        · exact .inr h

theorem word_fits {letters back : List Char} (h : LongestName letters back) :
    (word letters).Fits letters back := by
  unfold word
  split
  · next word hw => exact ⟨Keyword.ofText?_eq_some hw, h⟩
  · next hn => exact ⟨String.toList_ofList, Keyword.ofText?_eq_none hn, h⟩

theorem symbol_fits (h : symbol first rest = .ok (found, size)) :
    found.Fits (first :: rest.take size) (rest.drop size) := by
  rw [symbol] at h
  split at h
  · next mark hm =>
    cases h
    obtain ⟨hstart, hlongest⟩ := Symbol.longestPrefix?_eq_some hm
    have hpositive : 0 < mark.text.length := by
      rw [← String.length_toList]
      exact List.length_pos_iff.mpr mark.text_ne_nil
    have hlength : mark.text.toList.length = mark.text.length - 1 + 1 := by
      rw [String.length_toList]
      omega
    have htext := List.prefix_iff_eq_take.mp hstart
    rw [hlength, List.take_succ_cons] at htext
    refine ⟨htext, ?_⟩
    rw [List.cons_append, List.take_append_drop]
    exact hlongest
  · cases h

-- A token has the characters that it takes up.
theorem token_fits (h : token first rest = .ok (found, size)) :
    found.Fits (first :: rest.take size) (rest.drop size) := by
  obtain ⟨hn, rfl, rfl⟩ | ⟨value, rfl⟩ | hs := token_cases h
  · obtain ⟨run, other, rfl, hr, ho⟩ := exists_run continuesName rest
    rw [takeWhile_run hr ho, List.take_left, List.drop_left]
    refine word_fits ⟨?_, List.cons_ne_nil _ _, hr, ho⟩
    rintro c ⟨⟩
    exact hn
  · trivial
  · exact symbol_fits hs

-- A decoded rest changes no fault.
theorem map_eq_error {ε α β : Type} {result : Except ε α} {f : α → β} {error : ε}
    (h : result.map f = .error error) : result = .error error := by
  cases result with
  | ok => cases h
  | error =>
    cases h
    rfl

theorem unescape_error {text : List Char} (h : unescape text = .error fault) :
    fault ≠ .malformedNumber := by
  fun_induction unescape text with
  | case1 => cases h
  | case2 | case4 | case5 =>
    cases h
    rintro ⟨⟩
  | case3 _ _ _ _ _ _ _ ih | case6 _ _ _ _ ih | case7 _ _ _ _ _ _ ih =>
    exact ih (map_eq_error h)

theorem stringLiteral_error {quote : Char} (h : stringLiteral quote rest = .error (fault, size)) :
    fault ≠ .malformedNumber := by
  unfold stringLiteral at h
  split at h
  · cases h
    rintro ⟨⟩
  · split at h
    · cases h
    · next hu =>
      cases h
      exact unescape_error hu

theorem symbol_error (h : symbol first rest = .error (fault, size)) :
    fault ≠ .malformedNumber := by
  unfold symbol at h
  split at h <;> cases h
  rintro ⟨⟩

theorem double?_ne_error {text : List Char} : double? text ≠ some (.error (fault, size)) := by
  rw [double?_eq]
  intro h
  obtain ⟨fraction, -, hfound⟩ := Option.map_eq_some_iff.mp h
  cases hfound

theorem number_error (hd : first.isDigit) (h : number first rest = .error (fault, size)) :
    fault ≠ .malformedNumber := by
  simp only [number] at h
  split at h
  · cases h
  · split at h
    · next hf =>
      subst h
      exact absurd hf double?_ne_error
    · rw [decimal_eq hd] at h
      unfold octal at h
      grind

-- No number is malformed: a digit starts an integer at least.
theorem token_error (h : token first rest = .error (fault, size)) : fault ≠ .malformedNumber := by
  unfold token at h
  split at h
  · cases h
  · split at h
    · next hd => exact number_error hd h
    · split at h
      · exact stringLiteral_error h
      · split at h
        · split at h
          · next hf =>
            subst h
            exact absurd hf double?_ne_error
          · exact symbol_error h
        · exact symbol_error h

end Scan

end ScriptEngine
