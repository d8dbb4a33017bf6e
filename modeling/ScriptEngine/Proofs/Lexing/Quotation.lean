import ScriptEngine.Proofs.Lexing.Locality
import ScriptEngine.Proofs.Lexing.Step
import Mathlib.Algebra.Group.Nat.Even

-- String literals by their quotes. Where a literal closes is a matter of parity: a quote behind an
-- even number of backslashes closes it, and no other one does. So a text in which every quote and
-- every backslash has got one more backslash can stand between quotes, and it is what is read.

namespace ScriptEngine

-- The characters that stand around string literals.
inductive Quote where
  | double
  | single

def Quote.char : Quote → Char
  | double => '"'
  | single => '\''

theorem Quote.char_ne_backslash (quote : Quote) : quote.char ≠ '\\' := by
  cases quote <;> decide

namespace Scan

-- How many backslashes a text ends in.
def backslashes (front : List Char) : Nat :=
  (front.reverse.takeWhile (· = '\\')).length

-- What stands behind the text belongs to no backslash of it.
def Unescaped (front : List Char) : Prop :=
  Even (backslashes front)

instance (front : List Char) : Decidable (Unescaped front) :=
  inferInstanceAs (Decidable (Even (backslashes front)))

-- The rest of a text from a place on where no backslash takes what follows.
def Free (text rest : List Char) : Prop :=
  ∃ front, text = front ++ rest ∧ Unescaped front

-- A quote in the text closes it.
def Closed (quote : Char) (text : List Char) : Prop :=
  ∃ rest, Free text (quote :: rest)

-- A text as it is written between quotes of one kind.
def quoted (quote : Char) (text : List Char) : List Char :=
  text.flatMap fun c => if c = '\\' ∨ c = quote then ['\\', c] else [c]

section Parity

variable {c : Char} {front : List Char}

theorem backslashes_le_length (front : List Char) : backslashes front ≤ front.length := by
  have hle : (front.reverse.takeWhile (· = '\\')).length ≤ front.reverse.length :=
    (List.takeWhile_sublist _).length_le
  rwa [List.length_reverse] at hle

-- A character in front adds to the run only if it is a backslash and the run reaches it.
theorem backslashes_cons (c : Char) (front : List Char) :
    backslashes (c :: front) =
      if c = '\\' ∧ backslashes front = front.length then front.length + 1
      else backslashes front := by
  rw [backslashes, backslashes, List.reverse_cons, List.takeWhile_append, List.length_reverse]
  split
  · next h =>
    by_cases hc : c = '\\' <;> simp [hc, h]
  · next h => rw [if_neg fun hc => h hc.2]

theorem unescaped_nil : Unescaped [] :=
  Even.zero

theorem not_unescaped_backslash : ¬ Unescaped ['\\'] := by
  decide

theorem unescaped_cons (hc : c ≠ '\\') : Unescaped (c :: front) ↔ Unescaped front := by
  rw [Unescaped, Unescaped, backslashes_cons, if_neg fun h => hc h.1]

-- A backslash and the character behind it go together.
theorem unescaped_pair : Unescaped ('\\' :: c :: front) ↔ Unescaped front := by
  have hle := backslashes_le_length front
  simp only [Unescaped, Nat.even_iff, backslashes_cons, List.length_cons, true_and]
  by_cases hc : c = '\\'
  · by_cases hrun : backslashes front = front.length
    · simp only [hc, hrun, true_and, if_true]
      omega
    · simp only [hc, hrun, and_false, if_false]
      rw [if_neg (by omega)]
  · simp only [hc, false_and, if_false]
    rw [if_neg (by omega)]

end Parity

section Free

variable {c : Char} {text rest : List Char}

theorem free_nil : Free [] rest ↔ rest = [] := by
  constructor
  · rintro ⟨front, ht, -⟩
    exact (List.append_eq_nil_iff.mp ht.symm).2
  · rintro rfl
    exact ⟨[], rfl, unescaped_nil⟩

theorem free_cons (hc : c ≠ '\\') : Free (c :: text) rest ↔ rest = c :: text ∨ Free text rest := by
  constructor
  · rintro ⟨front, ht, hf⟩
    match front with
    | [] => exact .inl ht.symm
    | b :: front =>
      rw [List.cons_append, List.cons.injEq] at ht
      obtain ⟨rfl, ht⟩ := ht
      exact .inr ⟨front, ht, (unescaped_cons hc).mp hf⟩
  · rintro (rfl | ⟨front, rfl, hf⟩)
    · exact ⟨[], rfl, unescaped_nil⟩
    · exact ⟨c :: front, rfl, (unescaped_cons hc).mpr hf⟩

theorem free_pair : Free ('\\' :: c :: text) rest ↔ rest = '\\' :: c :: text ∨ Free text rest := by
  constructor
  · rintro ⟨front, ht, hf⟩
    match front with
    | [] => exact .inl ht.symm
    | [b] =>
      rw [List.cons_append, List.cons.injEq] at ht
      obtain ⟨rfl, -⟩ := ht
      exact absurd hf not_unescaped_backslash
    | b :: d :: front =>
      rw [List.cons_append, List.cons_append, List.cons.injEq, List.cons.injEq] at ht
      obtain ⟨rfl, rfl, ht⟩ := ht
      exact .inr ⟨front, ht, unescaped_pair.mp hf⟩
  · rintro (rfl | ⟨front, rfl, hf⟩)
    · exact ⟨[], rfl, unescaped_nil⟩
    · exact ⟨'\\' :: c :: front, rfl, unescaped_pair.mpr hf⟩

theorem free_backslash : Free ['\\'] rest ↔ rest = ['\\'] := by
  constructor
  · rintro ⟨front, ht, hf⟩
    match front with
    | [] => exact ht.symm
    | b :: front =>
      rw [List.cons_append, List.cons.injEq] at ht
      obtain ⟨rfl, ht⟩ := ht
      obtain ⟨rfl, rfl⟩ := List.append_eq_nil_iff.mp ht.symm
      exact absurd hf not_unescaped_backslash
  · rintro rfl
    exact ⟨[], rfl, unescaped_nil⟩

end Free

section Closing

variable {quote c : Char} {text rest : List Char}

theorem closed_quote : Closed quote (quote :: rest) :=
  ⟨rest, [], rfl, unescaped_nil⟩

theorem closed_cons (hc : c ≠ '\\') (hq : c ≠ quote) :
    Closed quote (c :: rest) ↔ Closed quote rest := by
  simp [Closed, free_cons hc, hq.symm]

theorem closed_pair (hq : quote ≠ '\\') : Closed quote ('\\' :: c :: rest) ↔ Closed quote rest := by
  simp [Closed, free_pair, hq]

-- What is neither a last backslash nor a pair starts with another character.
theorem ne_backslash_of_unpaired (hlast : c = '\\' → rest = [] → False)
    (hpair : ∀ next tail, c = '\\' → rest = next :: tail → False) : c ≠ '\\' := by
  rintro rfl
  cases rest with
  | nil => exact hlast rfl rfl
  | cons next tail => exact hpair next tail rfl rfl

-- The reader finds no end exactly if no quote closes the text.
theorem stringBody?_eq_none (hq : quote ≠ '\\') :
    stringBody? quote text = none ↔ ¬ Closed quote text := by
  -- What is left behind a pair or a character is closed exactly if the whole is.
  induction text using stringBody?.induct quote with
  | case1 => simp [stringBody?, Closed, free_nil]
  | case2 => simp [stringBody?, Closed, free_backslash, hq]
  | case3 c rest ih =>
    rw [closed_pair hq, ← ih]
    simp [stringBody?]
  | case4 rest hlast hpair => simp [stringBody?_cons hq, closed_quote]
  | case5 c rest hlast hpair hc ih =>
    have hne := ne_backslash_of_unpaired hlast hpair
    rw [closed_cons hne hc, ← ih, stringBody?_cons hne, if_neg hc, Option.map_eq_none_iff]

-- The inside of a literal leaves the closing quote free and holds no other one that is.
theorem isQuotable_iff (hq : quote ≠ '\\') :
    isQuotable quote text ↔ ¬ Closed quote text ∧ Unescaped text := by
  induction text using isQuotable.induct with
  | case1 => simp [isQuotable, Closed, free_nil, unescaped_nil]
  | case2 => simp [isQuotable, not_unescaped_backslash]
  | case3 c rest ih => rw [isQuotable, ih, closed_pair hq, unescaped_pair]
  | case4 c rest hlast hpair ih =>
    have hne := ne_backslash_of_unpaired hlast hpair
    rw [isQuotable_cons hne, Bool.and_eq_true, ih, unescaped_cons hne]
    by_cases hc : c = quote
    · subst hc
      simp [closed_quote]
    · rw [closed_cons hne hc]
      simp [hc]

end Closing

section Quoted

variable {quote c : Char} {text : List Char}

theorem quoted_cons_special (h : c = '\\' ∨ c = quote) :
    quoted quote (c :: text) = '\\' :: c :: quoted quote text := by
  simp [quoted, h]

theorem quoted_cons_plain (h : ¬ (c = '\\' ∨ c = quote)) :
    quoted quote (c :: text) = c :: quoted quote text := by
  simp [quoted, h]

theorem isQuotable_quoted (text : List Char) : isQuotable quote (quoted quote text) := by
  induction text with
  | nil => rfl
  | cons c rest ih =>
    by_cases h : c = '\\' ∨ c = quote
    · rw [quoted_cons_special h, isQuotable]
      exact ih
    · rw [quoted_cons_plain h]
      rw [not_or] at h
      simp [isQuotable_cons h.1, ih, h.2]

-- Neither a quote nor a backslash means anything else behind a backslash.
theorem unescape_quoted (hq : quote = '"' ∨ quote = '\'') (text : List Char) :
    unescape (quoted quote text) = .ok text := by
  induction text with
  | nil => rfl
  | cons c rest ih =>
    by_cases h : c = '\\' ∨ c = quote
    · have hself : c ≠ 'u' ∧ escaped c = c := by
        obtain rfl | rfl := h
        · decide
        · obtain rfl | rfl := hq <;> decide
      simp [quoted_cons_special h, unescape, hself.1, hself.2, ih, Except.map]
    · rw [quoted_cons_plain h]
      rw [not_or] at h
      simp [unescape, h.1, ih, Except.map]

end Quoted

end Scan

end ScriptEngine
