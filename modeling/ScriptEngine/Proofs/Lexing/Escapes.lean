import ScriptEngine.Proofs.Lexing.Digits
import ScriptEngine.Proofs.Lexing.Longest
import ScriptEngine.Proofs.Lexing.Quotation
import Mathlib.Data.List.Basic

-- What string literals stand for. A body is read from left to right, one escape or one character at a
-- time; only the codes behind `\u` can be wrong. A code has four places, and the reader lets a plus
-- sign stand in the first of them where a digit should.

namespace ScriptEngine

namespace Scan

open Number

-- Four hexadecimal digits.
def IsCode (digits : List Char) : Prop :=
  digits.length = 4 ∧ ∀ c ∈ digits, digitRank c < 16

-- Four places with the number that they spell: four digits, or three of them behind a plus sign.
inductive SpellsCode : List Char → Nat → Prop where
  | digits {digits : List Char} : IsCode digits → SpellsCode digits (valueIn 16 digits)
  | signed {digits : List Char} : digits.length = 3 → (∀ c ∈ digits, digitRank c < 16) →
      SpellsCode ('+' :: digits) (valueIn 16 digits)

-- What the reader takes for a code.
def ReadsCode (places : List Char) : Prop :=
  ∃ code, SpellsCode places code

-- Every `\u` that is an escape has something acceptable in the four places behind it.
def EveryCode (accepts : List Char → Prop) (body : List Char) : Prop :=
  ∀ rest, Free body ('\\' :: 'u' :: rest) → accepts (rest.take 4)

-- The character of a code. Surrogates have none of their own.
def codeCharacter (code : Nat) : Char :=
  if 0xd800 ≤ code ∧ code < 0xe000 then Char.ofNat 0xfffd else Char.ofNat code

-- A body stands for the characters.
inductive Denotes : List Char → List Char → Prop where
  | nil : Denotes [] []
  | plain {c : Char} {body value : List Char} : c ≠ '\\' → Denotes body value →
      Denotes (c :: body) (c :: value)
  | escape {c : Char} {body value : List Char} : c ≠ 'u' → Denotes body value →
      Denotes ('\\' :: c :: body) (escaped c :: value)
  | code {places : List Char} {code : Nat} {body value : List Char} : SpellsCode places code →
      Denotes body value → Denotes ('\\' :: 'u' :: (places ++ body)) (codeCharacter code :: value)

section Codes

variable {places : List Char} {code : Nat}

theorem SpellsCode.length (h : SpellsCode places code) : places.length = 4 := by
  cases h with
  | digits h => exact h.1
  | signed h _ => rw [List.length_cons, h]

theorem SpellsCode.exists_eq (h : SpellsCode places code) : ∃ a b c d, places = [a, b, c, d] := by
  obtain ⟨a, tail, rfl⟩ := List.exists_cons_of_length_eq_add_one h.length
  obtain ⟨b, c, d, rfl⟩ := List.length_eq_three.mp (Nat.succ.inj h.length)
  exact ⟨a, b, c, d, rfl⟩

theorem digitRank_backslash : digitRank '\\' = 16 := by
  decide

theorem SpellsCode.ne_backslash (h : SpellsCode places code) : ∀ c ∈ places, c ≠ '\\' := by
  have hdigit {c : Char} (hc : digitRank c < 16) : c ≠ '\\' := by
    rintro rfl
    rw [digitRank_backslash] at hc
    omega
  cases h with
  | digits h => exact fun c hc => hdigit (h.2 c hc)
  | signed _ h => exact List.forall_mem_cons.mpr ⟨by decide, fun c hc => hdigit (h c hc)⟩

theorem all_isDigitIn_iff {digits : List Char} :
    digits.all (isDigitIn 16) ↔ ∀ c ∈ digits, digitRank c < 16 := by
  rw [List.all_eq_true]
  exact forall₂_congr fun _ _ => isDigitIn_iff (Nat.le_refl 16)

theorem valueIn_lt {digits : List Char} (h : ∀ c ∈ digits, digitRank c < 16) :
    valueIn 16 digits < 16 ^ digits.length := by
  have hlt := Nat.ofDigits_lt_base_pow_length (b := 16) (l := digits.reverse.map digitRank)
    (by decide) (by simpa using h)
  simpa [valueIn] using hlt

-- The digits among four places.
theorem spellsCode_iff {a b c d : Char} :
    SpellsCode [a, b, c, d] code ↔
      (∀ digit ∈ (if a = '+' then [b, c, d] else [a, b, c, d]), digitRank digit < 16) ∧
        code = valueIn 16 (if a = '+' then [b, c, d] else [a, b, c, d]) := by
  constructor
  · intro h
    generalize hp : [a, b, c, d] = places at h
    cases h with
    | digits h =>
      subst hp
      have ha : a ≠ '+' := by
        rintro rfl
        exact absurd (h.2 '+' List.mem_cons_self) (by decide)
      rw [if_neg ha]
      exact ⟨h.2, rfl⟩
    | signed _ h =>
      obtain ⟨rfl, rfl⟩ := List.cons.inj hp
      rw [if_pos rfl]
      exact ⟨h, rfl⟩
  · rintro ⟨h, rfl⟩
    split at h
    · next ha =>
      subst ha
      rw [if_pos rfl]
      exact .signed rfl h
    · next ha =>
      rw [if_neg ha]
      exact .digits ⟨rfl, h⟩

theorem SpellsCode.lt (h : SpellsCode places code) : code < 0x10000 := by
  cases h with
  | digits h =>
    refine Nat.lt_of_lt_of_le (valueIn_lt h.2) ?_
    rw [h.1]
    decide
  | signed hl h =>
    refine Nat.lt_of_lt_of_le (valueIn_lt h) ?_
    rw [hl]
    decide

theorem codeCharacter_eq (h : code < 0x10000) :
    (if code.isValidChar then Char.ofNat code else Char.ofNat 0xfffd) = codeCharacter code := by
  unfold codeCharacter Nat.isValidChar
  by_cases hs : 0xd800 ≤ code ∧ code < 0xe000
  · rw [if_neg (by omega), if_pos hs]
  · rw [if_pos (by omega), if_neg hs]

theorem unicodeEscape?_eq_some {a b c d character : Char} :
    unicodeEscape? a b c d = some character ↔
      ∃ code, SpellsCode [a, b, c, d] code ∧ codeCharacter code = character := by
  generalize hdigits : (if a = '+' then [b, c, d] else [a, b, c, d]) = digits
  have hread : unicodeEscape? a b c d =
      if ∀ digit ∈ digits, digitRank digit < 16 then some (codeCharacter (valueIn 16 digits))
      else none := by
    unfold unicodeEscape?
    dsimp only
    rw [hdigits]
    by_cases hall : ∀ digit ∈ digits, digitRank digit < 16
    · have hspells : SpellsCode [a, b, c, d] (valueIn 16 digits) :=
        spellsCode_iff.mpr (by rw [hdigits]; exact ⟨hall, rfl⟩)
      rw [if_pos (all_isDigitIn_iff.mpr hall), if_pos hall, digitsValue_eq (Nat.le_refl 16) hall,
        codeCharacter_eq hspells.lt]
    · rw [if_neg fun h => hall (all_isDigitIn_iff.mp h), if_neg hall]
  simp only [hread, spellsCode_iff, hdigits]
  by_cases hall : ∀ digit ∈ digits, digitRank digit < 16
  · simp only [if_pos hall, Option.some.injEq]
    constructor
    · exact fun h => ⟨_, ⟨hall, rfl⟩, h⟩
    · rintro ⟨_, ⟨-, rfl⟩, h⟩
      exact h
  · simp only [if_neg hall, reduceCtorEq, false_iff]
    rintro ⟨_, ⟨h, -⟩, -⟩
    exact hall h

end Codes

section Bodies

variable {c : Char} {body value : List Char} {accepts : List Char → Prop}

theorem everyCode_nil : EveryCode accepts [] := by
  intro rest h
  cases free_nil.mp h

theorem everyCode_plain (hc : c ≠ '\\') : EveryCode accepts (c :: body) ↔ EveryCode accepts body := by
  simp [EveryCode, free_cons hc, Ne.symm hc]

theorem everyCode_escape (hc : c ≠ 'u') :
    EveryCode accepts ('\\' :: c :: body) ↔ EveryCode accepts body := by
  simp [EveryCode, free_pair, Ne.symm hc]

theorem everyCode_code :
    EveryCode accepts ('\\' :: 'u' :: body) ↔ accepts (body.take 4) ∧ EveryCode accepts body := by
  simp only [EveryCode, free_pair, List.cons.injEq, true_and]
  constructor
  · exact fun h => ⟨h body (.inl rfl), fun rest hr => h rest (.inr hr)⟩
  · rintro ⟨ha, h⟩ rest (rfl | hr)
    · exact ha
    · exact h rest hr

theorem everyCode_append {places : List Char} (h : ∀ c ∈ places, c ≠ '\\') :
    EveryCode accepts (places ++ body) ↔ EveryCode accepts body := by
  induction places with
  | nil => rfl
  | cons c rest ih =>
    rw [List.forall_mem_cons] at h
    rw [List.cons_append, everyCode_plain h.1, ih h.2]

theorem unescaped_append {places : List Char} (h : ∀ c ∈ places, c ≠ '\\') :
    Unescaped (places ++ body) ↔ Unescaped body := by
  induction places with
  | nil => rfl
  | cons c rest ih =>
    rw [List.forall_mem_cons] at h
    rw [List.cons_append, unescaped_cons h.1, ih h.2]

-- The result of reading a body: what it stands for, unless one of its codes is none.
def Decoded (body : List Char) (result : Except ParseFault (List Char)) : Prop :=
  (EveryCode ReadsCode body ∧ ∃ value, result = .ok value ∧ Denotes body value) ∨
    (¬ EveryCode ReadsCode body ∧ result = .error .badUnicodeEscape)

-- One more character in front.
theorem Decoded.step {rest : List Char} {result : Except ParseFault (List Char)} {character : Char}
    (h : Decoded rest result) (hcodes : EveryCode ReadsCode body ↔ EveryCode ReadsCode rest)
    (hdenotes : ∀ value, Denotes rest value → Denotes body (character :: value)) :
    Decoded body (result.map (character :: ·)) := by
  obtain ⟨hall, value, rfl, hd⟩ | ⟨hall, rfl⟩ := h
  · exact .inl ⟨hcodes.mpr hall, character :: value, rfl, hdenotes value hd⟩
  · exact .inr ⟨fun hc => hall (hcodes.mp hc), rfl⟩

theorem decoded_of_bad {rest : List Char} (h : ¬ ReadsCode (rest.take 4)) :
    Decoded ('\\' :: 'u' :: rest) (.error .badUnicodeEscape) :=
  .inr ⟨fun hall => h (everyCode_code.mp hall).1, rfl⟩

theorem decoded_unescape (h : Unescaped body) : Decoded body (unescape body) := by
  fun_induction unescape body with
  | case1 => exact .inl ⟨everyCode_nil, [], rfl, .nil⟩
  | case2 => exact absurd h not_unescaped_backslash
  | case3 a b c d rest character hcode ih =>
    obtain ⟨code, hspells, rfl⟩ := unicodeEscape?_eq_some.mp hcode
    have hbehind : Unescaped ([a, b, c, d] ++ rest) := unescaped_pair.mp h
    refine (ih ((unescaped_append hspells.ne_backslash).mp hbehind)).step ?_
      fun value hd => .code hspells hd
    change EveryCode ReadsCode ('\\' :: 'u' :: ([a, b, c, d] ++ rest)) ↔ _
    rw [everyCode_code, everyCode_append hspells.ne_backslash]
    exact and_iff_right ⟨code, hspells⟩
  | case4 a b c d rest hcode =>
    refine decoded_of_bad ?_
    rintro ⟨code, hspells⟩
    rw [unicodeEscape?_eq_some.mpr ⟨code, hspells, rfl⟩] at hcode
    cases hcode
  | case5 rest hshort =>
    refine decoded_of_bad ?_
    rintro ⟨code, hspells⟩
    obtain ⟨a, b, c, d, htake⟩ := hspells.exists_eq
    have hsplit := List.take_append_drop 4 rest
    rw [htake] at hsplit
    exact hshort a b c d (rest.drop 4) hsplit.symm
  | case6 c rest _ hc ih =>
    exact (ih (unescaped_pair.mp h)).step (everyCode_escape hc) fun value hd => .escape hc hd
  | case7 c rest hone _ _ hpair ih =>
    have hc := ne_backslash_of_unpaired hone hpair
    exact (ih ((unescaped_cons hc).mp h)).step (everyCode_plain hc) fun value hd => .plain hc hd

theorem Denotes.unescape (h : Denotes body value) : unescape body = .ok value := by
  induction h with
  | nil => rfl
  | plain hc _ ih => simp [Scan.unescape, hc, ih, Except.map]
  | escape hc _ ih => simp [Scan.unescape, hc, ih, Except.map]
  | @code places code _ _ hspells _ ih =>
    obtain ⟨a, b, c, d, rfl⟩ := hspells.exists_eq
    have hcode := unicodeEscape?_eq_some.mpr ⟨code, hspells, rfl⟩
    simp [Scan.unescape, hcode, ih, Except.map]

theorem Denotes.everyCode (h : Denotes body value) : EveryCode ReadsCode body := by
  induction h with
  | nil => exact everyCode_nil
  | plain hc _ ih => exact (everyCode_plain hc).mpr ih
  | escape hc _ ih => exact (everyCode_escape hc).mpr ih
  | @code places code _ _ hspells _ ih =>
    have htake (rest : List Char) : (places ++ rest).take 4 = places := by
      rw [← hspells.length, List.take_left]
    rw [everyCode_code, htake, everyCode_append hspells.ne_backslash]
    exact ⟨⟨code, hspells⟩, ih⟩

-- No body stands for two things.
theorem Denotes.unique (h : Denotes body value) {other : List Char} :
    Denotes body other ↔ other = value := by
  constructor
  · exact fun ho => Except.ok.inj (ho.unescape.symm.trans h.unescape)
  · rintro rfl
    exact h

end Bodies

end Scan

namespace Stream

open Scan

variable (quote : Quote) (text : List Char) (offset : Nat)

theorem ofCursor_quote :
    ofCursor ⟨offset, quote.char :: text⟩ = match stringLiteral quote.char text with
      | .error (fault, size) =>
        broken ⟨fault, offset + Text.width ((quote.char :: text).take size)⟩
      | .ok (token, size) =>
        next ⟨token, offset, offset + Text.width (quote.char :: text.take size)⟩
          (ofCursor ⟨offset + Text.width (quote.char :: text.take size), text.drop size⟩) := by
  have hquote : isSpace quote.char = false ∧ quote.char ≠ '/' ∧ startsName quote.char = false ∧
      quote.char.isDigit = false ∧ (quote.char = '"' ∨ quote.char = '\'') := by
    cases quote <;> decide +kernel
  obtain ⟨hspace, hslash, hname, hdigit, hmark⟩ := hquote
  have htoken : token quote.char text = stringLiteral quote.char text := by
    simp [token, hname, hdigit, hmark]
  rw [← htoken]
  exact ofCursor_cons hspace (fun h => absurd h hslash) offset

theorem ofCursor_unclosed {text : List Char} (h : ¬ Closed quote.char text) :
    ofCursor ⟨offset, quote.char :: text⟩ = broken ⟨.unterminatedString, offset⟩ := by
  have hnone := (stringBody?_eq_none quote.char_ne_backslash).mpr h
  rw [ofCursor_quote, stringLiteral, hnone]
  rfl

section Closed

variable {body : List Char} (h : isQuotable quote.char body) (rest : List Char)
include h

theorem ofCursor_literal {value : List Char} (hv : unescape body = .ok value) :
    ofCursor ⟨offset, quote.char :: (body ++ [quote.char]) ++ rest⟩ =
      next ⟨.literal (.string (String.ofList value)), offset,
          offset + Text.width (quote.char :: (body ++ [quote.char]))⟩
        (ofCursor ⟨offset + Text.width (quote.char :: (body ++ [quote.char])), rest⟩) := by
  have hliteral : stringLiteral quote.char (body ++ [quote.char] ++ rest) =
      .ok (.literal (.string (String.ofList value)), (body ++ [quote.char]).length) :=
    (stringLiteral_eq_ok quote.char_ne_backslash).mpr
      ⟨body, value, rest, h, by simp, hv, rfl, by simp⟩
  rw [List.cons_append, ofCursor_quote, hliteral]
  dsimp only
  rw [List.take_left, List.drop_left]

theorem ofCursor_undecoded {fault : ParseFault} (hv : unescape body = .error fault) :
    ofCursor ⟨offset, quote.char :: (body ++ [quote.char]) ++ rest⟩ = broken ⟨fault, offset⟩ := by
  have hbody : stringBody? quote.char (body ++ [quote.char] ++ rest) = some body :=
    (stringBody?_eq_some quote.char_ne_backslash).mpr ⟨h, rest, by simp⟩
  have hliteral : stringLiteral quote.char (body ++ [quote.char] ++ rest) = .error (fault, 0) := by
    simp only [stringLiteral, hbody, hv]
  rw [List.cons_append, ofCursor_quote, hliteral]
  rfl

end Closed

end Stream

open Scan

-- A text with a backslash before each of its backslashes and quotes is read back from between the
-- quotes, up to the closing one, whatever follows. A literal has no end exactly if no quote stands
-- behind an even number of backslashes.
theorem Quote.reads_quoted (quote : Quote) :
    (∀ (value : String) (rest : List Char) (offset : Nat),
      let literal := quote.char :: (quoted quote.char value.toList ++ [quote.char])
      Stream.ofCursor ⟨offset, literal ++ rest⟩ =
        .next ⟨.literal (.string value), offset, offset + Text.width literal⟩
          (.ofCursor ⟨offset + Text.width literal, rest⟩)) ∧
    ∀ (text : List Char) (offset : Nat),
      (∃ fault, Stream.ofCursor ⟨offset, quote.char :: text⟩ = .broken ⟨fault, offset⟩ ∧
        fault.message = "Unexpected end-of-input in string constant") ↔
      ¬ ∃ front rest, text = front ++ quote.char :: rest ∧ Even (backslashes front) := by
  have hne := quote.char_ne_backslash
  refine ⟨fun value rest offset => ?_, fun text offset => ?_⟩
  · have hvalue : unescape (quoted quote.char value.toList) = .ok value.toList :=
      unescape_quoted (by cases quote <;> simp [Quote.char]) value.toList
    have hread := Stream.ofCursor_literal quote offset (isQuotable_quoted value.toList) rest hvalue
    rwa [String.ofList_toList] at hread
  · have hshape : (∃ front rest, text = front ++ quote.char :: rest ∧ Even (backslashes front)) ↔
        Closed quote.char text :=
      exists_comm
    rw [hshape]
    constructor
    · rintro ⟨fault, hbroken, hmessage⟩ hclosed
      have hsome : stringBody? quote.char text ≠ none :=
        fun h => (stringBody?_eq_none hne).mp h hclosed
      obtain ⟨body, hbody⟩ := Option.ne_none_iff_exists'.mp hsome
      obtain ⟨hinside, rest, rfl⟩ := (stringBody?_eq_some hne).mp hbody
      rw [List.append_cons, ← List.cons_append] at hbroken
      obtain ⟨-, value, hv, -⟩ | ⟨-, hv⟩ := decoded_unescape ((isQuotable_iff hne).mp hinside).2
      · rw [Stream.ofCursor_literal quote offset hinside rest hv] at hbroken
        cases hbroken
      · rw [Stream.ofCursor_undecoded quote offset hinside rest hv] at hbroken
        cases hbroken
        revert hmessage
        decide
    · exact fun h => ⟨_, Stream.ofCursor_unclosed quote offset h, rfl⟩

-- A literal is read exactly if each of its codes is one; it stands for what its body denotes.
theorem Quote.reads_escapes (quote : Quote) {body : List Char} (hends : Unescaped body)
    (hfirst : ¬ Closed quote.char body) (rest : List Char) (offset : Nat) :
    let literal := quote.char :: (body ++ [quote.char])
    (EveryCode ReadsCode body → ∃ value, (∀ other, Denotes body other ↔ other = value) ∧
      Stream.ofCursor ⟨offset, literal ++ rest⟩ =
        .next ⟨.literal (.string (String.ofList value)), offset, offset + Text.width literal⟩
          (.ofCursor ⟨offset + Text.width literal, rest⟩)) ∧
    (¬ EveryCode ReadsCode body →
      Stream.ofCursor ⟨offset, literal ++ rest⟩ = .broken ⟨.badUnicodeEscape, offset⟩) ∧
    ParseFault.message .badUnicodeEscape = "Invalid unicode escape in string constant" := by
  have hinside := (isQuotable_iff quote.char_ne_backslash).mpr ⟨hfirst, hends⟩
  obtain ⟨hall, value, hv, hd⟩ | ⟨hall, hv⟩ := decoded_unescape hends
  · exact ⟨fun _ => ⟨value, fun _ => hd.unique, Stream.ofCursor_literal quote offset hinside rest hv⟩,
      fun h => absurd hall h, rfl⟩
  · exact ⟨fun h => absurd h hall,
      fun _ => Stream.ofCursor_undecoded quote offset hinside rest hv, rfl⟩

-- A surrogate, an escaped backslash in front of a `u`, and a code with a sign; and a code that the
-- closing quote cuts short.
theorem Quote.reads_escapes_mixed :
    let body := "\\uD83d\\\\u\\u+041".toList
    let short := "\\u12".toList
    Unescaped body ∧ ¬ Closed '"' body ∧ Unescaped short ∧ ¬ Closed '"' short ∧
      Stream.ofText ('"' :: (body ++ ['"'])) =
        .next ⟨.literal (.string "\ufffd\\uA"), 0, 17⟩ (.ofCursor ⟨17, []⟩) ∧
      Stream.ofText ('"' :: (short ++ ['"'])) = .broken ⟨.badUnicodeEscape, 0⟩ := by
  intro body short
  have hends : Unescaped body := by decide
  have hfirst : ¬ Closed '"' body := ((isQuotable_iff (by decide)).mp (by decide)).1
  have hshortEnds : Unescaped short := by decide
  have hshortFirst : ¬ Closed '"' short := ((isQuotable_iff (by decide)).mp (by decide)).1
  have hsurrogate : SpellsCode ['D', '8', '3', 'd'] 0xd83d := .digits ⟨rfl, all_isDigitIn_iff.mp (by decide)⟩
  have hsigned : SpellsCode ['+', '0', '4', '1'] 0x41 := .signed rfl (all_isDigitIn_iff.mp (by decide))
  have hdenotes : Denotes body ['\ufffd', '\\', 'u', 'A'] :=
    .code hsurrogate (.escape (by decide) (.plain (by decide) (.code hsigned .nil)))
  have hshort : ¬ EveryCode ReadsCode short := fun h => by
    obtain ⟨_, hspells⟩ := (everyCode_code.mp h).1
    cases hspells.length
  obtain ⟨value, hvalue, hread⟩ := (Quote.reads_escapes .double hends hfirst [] 0).1 hdenotes.everyCode
  obtain rfl := (hvalue _).mp hdenotes
  refine ⟨hends, hfirst, hshortEnds, hshortFirst, hread, ?_⟩
  exact (Quote.reads_escapes .double hshortEnds hshortFirst [] 0).2.1 hshort

-- A sign is no digit, but it is read in the place of one.
theorem Quote.sign_read_as_digit :
    ¬ EveryCode IsCode "\\u+041".toList ∧
      Stream.ofText "\"\\u+041\"".toList =
        .next ⟨.literal (.string "A"), 0, 8⟩ (.ofCursor ⟨8, []⟩) := by
  constructor
  · intro h
    have hcode : IsCode ['+', '0', '4', '1'] := (everyCode_code.mp h).1
    exact absurd (hcode.2 '+' List.mem_cons_self) (by decide)
  · have hinside : isQuotable '"' "\\u+041".toList := by decide
    exact Stream.ofCursor_literal .double 0 hinside [] rfl

end ScriptEngine
