import ScriptEngine.Proofs.Lexing.Locality
import ScriptEngine.Proofs.Lexing.Step
import ScriptEngine.Proofs.Reading.Stream

-- Writing tokens down. Every token is spelled in one way and followed by a space, so that none runs
-- into the next; reading the text of a list of tokens gives the tokens back.

namespace ScriptEngine

namespace Token

-- The characters that need a backslash, with what stands behind it.
def escapes : List (Char × Char) :=
  [('"', '"'), ('\\', '\\'), ('\n', 'n'), ('\r', 'r'), ('\t', 't')]

-- One character inside of a string.
def escape (c : Char) : List Char :=
  match escapes.lookup c with
  | some mark => ['\\', mark]
  | none => [c]

-- Names are spelled as they are, integers as unsigned decimals of 64 bits, and strings between
-- double quotes. The other literals have no token of their own.
def spelling : Token → List Char
  | keyword word => word.text.toList
  | identifier name => name.toList
  | literal (.number (.int value)) => Nat.toDigits 10 value.toUInt64.toNat
  | literal (.string value) => '"' :: value.toList.flatMap escape ++ ['"']
  | literal _ => []
  | symbol mark => mark.text.toList

-- A word of the characters that names are made of.
def isWord : List Char → Bool
  | [] => false
  | first :: rest => Scan.startsName first && rest.all Scan.continuesName

-- A name is a word that is no keyword.
def isName (word : List Char) : Bool :=
  isWord word && (Keyword.ofText? word).isNone

-- The tokens that have a spelling.
def Spellable : Token → Prop
  | keyword _ | symbol _ | literal (.number (.int _)) | literal (.string _) => True
  | identifier name => isName name.toList
  | literal _ => False

-- The text of a list of tokens.
def write (tokens : List Token) : List Char :=
  tokens.flatMap fun token => token.spelling ++ [' ']

end Token

namespace Scan

-- The characters are those of one token, whatever follows behind a delimiter.
def Spells (spelling : List Char) (token : Token) : Prop :=
  ∃ first rest, spelling = first :: rest ∧ isSpace first = false ∧
    (first = '/' → rest.head? ≠ some '/' ∧ rest.head? ≠ some '*') ∧
    Scan.token first rest = .ok (token, rest.length)

theorem takeWhile_all {p : Char → Bool} {text : List Char} (h : text.all p) :
    text.takeWhile p = text := by
  induction text with
  | nil => rfl
  | cons c rest ih =>
    rw [List.all_cons, Bool.and_eq_true] at h
    rw [List.takeWhile_cons_of_pos h.1, ih h.2]

theorem token_name {first : Char} {rest : List Char} (hf : startsName first)
    (hr : rest.all continuesName) : token first rest = .ok (word (first :: rest), rest.length) := by
  simp [token, hf, takeWhile_all hr]

-- The code points of white space.
def spaceCodes : List Nat :=
  [0x9, 0xa, 0xb, 0xc, 0xd, 0x20, 0xa0, 0x1680, 0x2000, 0x2001, 0x2002, 0x2003, 0x2004, 0x2005,
   0x2006, 0x2007, 0x2008, 0x2009, 0x200a, 0x202f, 0x205f, 0x3000, 0xfeff]

theorem toNat_mem_spaceCodes {c : Char} (h : isSpace c) : c.toNat ∈ spaceCodes := by
  simp only [isSpace, Text.spaceSeparator, Text.CharClass.contains, List.any_cons, List.any_nil,
    Bool.or_eq_true, Bool.and_eq_true, decide_eq_true_eq, Bool.false_eq_true, or_false] at h
  obtain ((((((rfl | rfl) | rfl) | h) | h) | h) | h) := h
  · decide
  · decide
  · decide
  all_goals
    simp only [spaceCodes, List.mem_cons, List.not_mem_nil, or_false]
    omega

theorem startsName_spaceCodes : ∀ code ∈ spaceCodes, startsName (Char.ofNat code) = false := by
  decide +kernel

theorem isSpace_startsName {c : Char} (h : startsName c) : isSpace c = false ∧ c ≠ '/' := by
  constructor
  · rw [Bool.eq_false_iff]
    intro hs
    have hc := startsName_spaceCodes c.toNat (toNat_mem_spaceCodes hs)
    rw [Char.ofNat_toNat, h] at hc
    cases hc
  · rintro rfl
    revert h
    decide +kernel

theorem spells_word {letters : List Char} (h : Token.isWord letters) :
    Spells letters (word letters) := by
  cases letters with
  | nil => cases h
  | cons first rest =>
    rw [Token.isWord, Bool.and_eq_true] at h
    obtain ⟨hs, hslash⟩ := isSpace_startsName h.1
    exact ⟨first, rest, rfl, hs, fun h => absurd h hslash, token_name h.1 h.2⟩

theorem isWord_keyword : ∀ keyword ∈ Keyword.all,
    Token.isWord keyword.text.toList ∧
      Keyword.ofText? keyword.text.toList = some keyword := by
  decide +kernel

theorem spells_keyword (keyword : Keyword) : Spells keyword.text.toList (.keyword keyword) := by
  have hk : keyword ∈ Keyword.all := by cases keyword <;> decide
  obtain ⟨hw, ht⟩ := isWord_keyword keyword hk
  simpa [word, ht] using spells_word hw

theorem spells_identifier {name : String} (h : Token.isName name.toList) :
    Spells name.toList (.identifier name) := by
  rw [Token.isName, Bool.and_eq_true, Option.isNone_iff_eq_none] at h
  simpa [word, h.2] using spells_word h.1

-- A symbol starts with no character of another class of tokens; the dot alone is no fraction.
def isMark : List Char → Bool
  | [] => false
  | first :: rest =>
    !isSpace first && !startsName first && !first.isDigit && first ≠ '"' && first ≠ '\''
      && (fraction? (first :: rest)).isNone
      && (first ≠ '/' || (rest.head? ≠ some '/' && rest.head? ≠ some '*'))

theorem isMark_symbol : ∀ mark ∈ Symbol.all,
    isMark mark.text.toList ∧ mark.text.length = mark.text.toList.length ∧
      Symbol.longestPrefix? mark.text.toList = some mark := by
  decide +kernel

theorem spells_symbol (mark : Symbol) : Spells mark.text.toList (.symbol mark) := by
  have hm : mark ∈ Symbol.all := by cases mark <;> decide
  obtain ⟨hc, hlen, hl⟩ := isMark_symbol mark hm
  cases ht : mark.text.toList with
  | nil => simp [ht, isMark] at hc
  | cons first rest =>
    simp only [ht, isMark, Bool.and_eq_true, Bool.not_eq_true', decide_eq_true_eq,
      Option.isNone_iff_eq_none, Bool.or_eq_true] at hc
    obtain ⟨⟨⟨⟨⟨⟨hs, hn⟩, hd⟩, hq⟩, hq'⟩, hf⟩, hslash⟩ := hc
    refine ⟨first, rest, rfl, hs, fun h => hslash.resolve_left (fun hne => hne h), ?_⟩
    rw [ht] at hl hlen
    simp [token, hn, hd, hq, hq', double?_eq, hf, symbol, hl, hlen]

theorem digitValue?_isDigit {c : Char} (h : c.isDigit) :
    (Number.digitValue? 10 c).getD 0 = c.toNat - '0'.toNat := by
  have hlt : c.toNat - '0'.toNat < 10 := by
    have hd := Char.isDigit_iff_toNat.mp h
    simp only [Char.reduceToNat] at hd ⊢
    omega
  simp only [Number.digitValue?, h, if_true, Option.filter_some, hlt, decide_true,
    Option.getD_some]

theorem digitsValue_eq_ofDigitChars {digits : List Char} (h : digits.all Char.isDigit) :
    Number.digitsValue 10 digits = Nat.ofDigitChars 10 digits 0 := by
  have hfold : ∀ start, digits.foldl
      (fun value c => value * 10 + (Number.digitValue? 10 c).getD 0) start =
      digits.foldl (fun value c => 10 * value + (c.toNat - '0'.toNat)) start := by
    induction digits with
    | nil => intro start; rfl
    | cons c rest ih =>
      intro start
      rw [List.all_cons, Bool.and_eq_true] at h
      rw [List.foldl_cons, List.foldl_cons, digitValue?_isDigit h.1, Nat.mul_comm, ih h.2]
  exact hfold 0

-- No number but zero is spelled with a leading zero, which would make it octal.
theorem head?_toDigits {n : Nat} (hn : n ≠ 0) : (Nat.toDigits 10 n).head? ≠ some '0' := by
  induction n using Nat.strongRecOn with
  | ind n ih =>
    rw [Nat.toDigits_eq_if (by decide)]
    split
    · next hlt =>
      match n, hn, hlt with
      | 1, _, _ | 2, _, _ | 3, _, _ | 4, _, _ | 5, _, _ | 6, _, _ | 7, _, _ | 8, _, _ | 9, _, _ =>
        decide
    · next hge =>
      have hq := ih (n / 10) (by omega) (by omega)
      cases ht : Nat.toDigits 10 (n / 10) with
      | nil => exact absurd ht Nat.toDigits_ne_nil
      | cons c rest =>
        rw [ht] at hq
        exact hq

theorem isDigit_characters {c : Char} (h : c.isDigit) :
    isSpace c = false ∧ startsName c = false ∧ c ≠ '/' := by
  have hall : ∀ code ∈ List.range' 48 10, isSpace (Char.ofNat code) = false ∧
      startsName (Char.ofNat code) = false ∧ Char.ofNat code ≠ '/' := by
    decide +kernel
  have hc := hall c.toNat (by
    have hd := Char.isDigit_iff_toNat.mp h
    simp only [Char.reduceToNat] at hd
    simp only [List.mem_range'_1]
    omega)
  rwa [Char.ofNat_toNat] at hc

-- Digits that do not start with a zero are read as a decimal.
theorem number_digits {first : Char} {rest : List Char} (h : (first :: rest).all Char.isDigit)
    (h0 : first ≠ '0') :
    number first rest = .ok (integer 10 (first :: rest), rest.length) := by
  have hhex : hexDigits first rest = [] := by
    cases rest <;> simp [hexDigits, h0]
  have ht := takeWhile_all h
  have hd : (first :: rest).dropWhile Char.isDigit = [] := by
    have := @List.takeWhile_append_dropWhile _ Char.isDigit (first :: rest)
    rwa [ht, List.append_right_eq_self] at this
  have hf : fraction? (first :: rest) = none := by
    simp only [fraction?, ht, hd]
    rfl
  rw [List.all_cons, Bool.and_eq_true] at h
  simp [number, hhex, double?_eq, hf, h0, decimal_eq h.1, takeWhile_all h.2]

theorem isDigit_toDigits (n : Nat) : ∀ c ∈ Nat.toDigits 10 n, c.isDigit :=
  fun _ hc => Nat.isDigit_of_mem_toDigits (by decide) (by decide) hc

theorem digitsValue_toDigits (n : Nat) : Number.digitsValue 10 (Nat.toDigits 10 n) = n := by
  rw [digitsValue_eq_ofDigitChars (List.all_eq_true.mpr (isDigit_toDigits n)),
    Nat.ofDigitChars_ten_toDigits]

theorem exists_toDigits (n : Nat) :
    ∃ first rest, Nat.toDigits 10 n = first :: rest ∧ first.isDigit := by
  cases hd : Nat.toDigits 10 n with
  | nil => exact absurd hd Nat.toDigits_ne_nil
  | cons first rest => exact ⟨first, rest, rfl, isDigit_toDigits n first (by simp [hd])⟩

-- The digits of a number are a literal of it, wrapped to 64 bits.
theorem spells_digits (n : Nat) :
    Spells (Nat.toDigits 10 n) (.literal (.number (.int (Int64.ofNat n)))) := by
  by_cases h0 : n = 0
  · subst h0
    exact ⟨'0', [], Nat.toDigits_zero 10, by decide, by decide, rfl⟩
  · obtain ⟨first, rest, ht, hfirst⟩ := exists_toDigits n
    have hd : (first :: rest).all Char.isDigit := by
      rw [← ht]
      exact List.all_eq_true.mpr (isDigit_toDigits n)
    have hval : Number.digitsValue 10 (first :: rest) = n := by
      rw [← ht, digitsValue_toDigits]
    have hne : first ≠ '0' := fun h => head?_toDigits h0 (by rw [ht, h]; rfl)
    obtain ⟨hs, hname, hslash⟩ := isDigit_characters hfirst
    refine ⟨first, rest, ht, hs, fun h => absurd h hslash, ?_⟩
    simp only [token, hname, hfirst, number_digits hd hne, integer, Number.foldDigits_eq, hval]
    rfl

theorem spells_integer (value : Int64) :
    Spells (Nat.toDigits 10 value.toUInt64.toNat) (.literal (.number (.int value))) := by
  have hvalue : Int64.ofNat value.toUInt64.toNat = value := by
    change (UInt64.ofNat value.toUInt64.toNat).toInt64 = value
    rw [UInt64.ofNat_toNat, Int64.toInt64_toUInt64]
  simpa only [hvalue] using spells_digits value.toUInt64.toNat

theorem escape_cases (c : Char) :
    (∃ mark, Token.escape c = ['\\', mark] ∧ mark ≠ 'u' ∧ escaped mark = c) ∨
      (Token.escape c = [c] ∧ c ≠ '"' ∧ c ≠ '\\') := by
  unfold Token.escape
  cases hl : Token.escapes.lookup c with
  | some mark =>
    have hall : ∀ pair ∈ Token.escapes, pair.2 ≠ 'u' ∧ escaped pair.2 = pair.1 := by decide
    obtain ⟨before, after, hm, -⟩ := List.lookup_eq_some_iff.mp hl
    obtain ⟨hu, he⟩ := hall (c, mark) (by rw [hm]; simp)
    exact .inl ⟨mark, rfl, hu, he⟩
  | none =>
    refine .inr ⟨rfl, ?_, ?_⟩
    · rintro rfl
      cases hl
    · rintro rfl
      cases hl

theorem isQuotable_escape (text : List Char) : isQuotable '"' (text.flatMap Token.escape) := by
  induction text with
  | nil => rfl
  | cons c rest ih =>
    rw [List.flatMap_cons]
    obtain ⟨mark, he, -, -⟩ | ⟨he, hq, hb⟩ := escape_cases c
    · simpa [he, isQuotable] using ih
    · rw [he, List.singleton_append, isQuotable_cons hb, ih]
      simp [hq]

theorem unescape_escape (text : List Char) : unescape (text.flatMap Token.escape) = .ok text := by
  induction text with
  | nil => rfl
  | cons c rest ih =>
    rw [List.flatMap_cons]
    obtain ⟨mark, he, hu, hm⟩ | ⟨he, -, hb⟩ := escape_cases c
    · simp [he, unescape, hu, ih, hm, Except.map]
    · simp [he, unescape, hb, ih, Except.map]

theorem spells_string (value : String) :
    Spells ('"' :: value.toList.flatMap Token.escape ++ ['"']) (.literal (.string value)) := by
  refine ⟨'"', value.toList.flatMap Token.escape ++ ['"'], rfl, by decide, ?_, ?_⟩
  · intro h
    cases h
  have hs : stringLiteral '"' (value.toList.flatMap Token.escape ++ ['"']) =
      .ok (.literal (.string value), (value.toList.flatMap Token.escape ++ ['"']).length) := by
    refine (stringLiteral_eq_ok (by decide)).mpr ⟨_, value.toList, [], isQuotable_escape _, rfl,
      unescape_escape _, ?_, by simp⟩
    rw [String.ofList_toList]
  have hn : startsName '"' = false := by decide +kernel
  simp [token, hn, hs]

-- Every token that has a spelling is read from it.
theorem spells_spelling {token : Token} (h : token.Spellable) : Spells token.spelling token := by
  match token, h with
  | .keyword word, _ => exact spells_keyword word
  | .identifier name, h => exact spells_identifier h
  | .literal (.number (.int value)), _ => exact spells_integer value
  | .literal (.string value), _ => exact spells_string value
  | .symbol mark, _ => exact spells_symbol mark

end Scan

namespace Stream

-- The tokens at hand are `tokens`, and moving past them leads to `rest`.
def Reads : List Token → Stream → Stream → Prop
  | [], stream, rest => stream = rest
  | token :: tokens, stream, rest => ∃ middle, stream.Passes token middle ∧ Reads tokens middle rest

theorem reads_append {front back : List Token} {stream rest : Stream} :
    Reads (front ++ back) stream rest ↔
      ∃ middle, Reads front stream middle ∧ Reads back middle rest := by
  induction front generalizing stream with
  | nil => simp [Reads]
  | cons token tokens ih =>
    simp only [List.cons_append, Reads, ih]
    constructor
    · rintro ⟨a, hp, b, hf, hb⟩
      exact ⟨b, ⟨a, hp, hf⟩, hb⟩
    · rintro ⟨b, ⟨a, hp, hf⟩, hb⟩
      exact ⟨a, hp, b, hf, hb⟩

theorem ofCursor_spells {spelling : List Char} {token : Token} (h : Scan.Spells spelling token)
    (offset : Nat) (back : List Char) :
    ofCursor ⟨offset, spelling ++ ' ' :: back⟩ =
      next ⟨token, offset, offset + Text.width spelling⟩
        (ofCursor ⟨offset + Text.width spelling + 1, back⟩) := by
  obtain ⟨first, rest, rfl, hs, hc, ht⟩ := h
  have hhead : first = '/' → (rest ++ ' ' :: back).head? ≠ some '/' ∧
      (rest ++ ' ' :: back).head? ≠ some '*' := by
    intro hf
    cases rest with
    | nil => simp
    | cons c tail => exact hc hf
  have hgap : Scan.skipGap ⟨offset, first :: rest ++ ' ' :: back⟩ =
      ⟨offset, first :: (rest ++ ' ' :: back)⟩ := by
    rw [List.cons_append, Scan.skipGap_cons hhead, hs]
    rfl
  have hd : Scan.isDelimiter ' ' := by decide
  have htoken : Scan.token first (rest ++ ' ' :: back) = .ok (token, rest.length) :=
    (Scan.token_delimited hd (Nat.le_refl rest.length)).mpr ht
  rw [ofCursor_eq_next]
  refine ⟨offset, first, _, token, rest.length, ⟨hgap, fun h => (hhead h.1).2 h.2⟩, htoken, ?_, ?_⟩
  · simp
  · rw [List.drop_left]
    refine ofCursor_congr ?_
    have hspace : Scan.isSpace ' ' := by decide
    rw [Scan.skipGap_cons (fun h => by cases h), if_pos hspace]
    rfl

-- Reading the text of tokens that have a spelling gives the tokens back, up to the end.
theorem reads_write {tokens : List Token} (h : ∀ token ∈ tokens, token.Spellable) (offset : Nat) :
    ∃ stop, (ofCursor ⟨offset, Token.write tokens⟩).Intact ∧
      Reads tokens (ofCursor ⟨offset, Token.write tokens⟩) (done stop) := by
  induction tokens generalizing offset with
  | nil =>
    have hd : ofCursor ⟨offset, []⟩ = done offset := ofCursor_eq_done.mpr Scan.skipGap_nil
    refine ⟨offset, ?_, hd⟩
    change (ofCursor ⟨offset, []⟩).Intact
    rw [hd]
    trivial
  | cons token tokens ih =>
    rw [List.forall_mem_cons] at h
    obtain ⟨stop, hi, hr⟩ := ih h.2 (offset + Text.width token.spelling + 1)
    have hw : Token.write (token :: tokens) = token.spelling ++ ' ' :: Token.write tokens := by
      simp [Token.write]
    rw [hw, ofCursor_spells (Scan.spells_spelling h.1)]
    exact ⟨stop, trivial, _, ⟨_, rfl, rfl, hi⟩, hr⟩

end Stream

end ScriptEngine
