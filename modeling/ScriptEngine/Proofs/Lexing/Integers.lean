import ScriptEngine.Eval
import ScriptEngine.Proofs.Heap.Walks
import ScriptEngine.Proofs.Lexing.Digits
import ScriptEngine.Proofs.Lexing.Isolated

-- Integer literals by the number that their digits spell. There are three ways to write one, each
-- with a radix of its own; the lexer and the conversion of a text to an integer go separate ways and
-- come to the same number, wrapped to 64 bits.

namespace ScriptEngine

open Number

-- The ways to write an integer: behind `0x`, behind a leading zero, or with no zero in front.
inductive IntegerForm where
  | hexadecimal (upper : Bool)
  | octal
  | decimal

namespace IntegerForm

def radix : IntegerForm → Nat
  | hexadecimal _ => 16
  | octal => 8
  | decimal => 10

theorem radix_le (form : IntegerForm) : form.radix ≤ 16 := by
  cases form <;> simp [radix]

def opening : IntegerForm → List Char
  | hexadecimal upper => ['0', if upper then 'X' else 'x']
  | octal => ['0']
  | decimal => []

-- The literal with the given digits.
def text (form : IntegerForm) (digits : List Char) : List Char :=
  form.opening ++ digits

-- The digits that a literal of the form can have.
def allows (form : IntegerForm) (digits : List Char) : Bool :=
  digits.all (digitRank · < form.radix) && match form with
    | hexadecimal _ => !digits.isEmpty
    | octal => true
    | decimal => !digits.isEmpty && digits.head? ≠ some '0'

-- The texts that a literal of the form ends in front of.
def endsBefore (form : IntegerForm) (rest : List Char) : Bool :=
  rest.head?.all fun c => match form with
    | hexadecimal _ => 16 ≤ digitRank c
    | octal | decimal => !c.isAlphanum && c ≠ '.'

end IntegerForm

namespace Scan

section Ended

variable {digits rest : List Char}

theorem endsBefore_octal (h : IntegerForm.octal.endsBefore rest) :
    ∀ c ∈ rest.head?, c.isAlphanum = false ∧ c ≠ '.' := by
  intro c hc
  simpa [IntegerForm.endsBefore, Option.mem_def.mp hc] using h

theorem isDigit_ended (h : IntegerForm.octal.endsBefore rest) :
    ∀ c ∈ rest.head?, c.isDigit = false := by
  intro c hc
  have := (endsBefore_octal h c hc).1
  simp_all [Char.isAlphanum]

-- Digits in front of such a text are no fraction.
theorem double?_ended (hd : ∀ c ∈ digits, c.isDigit) (h : IntegerForm.octal.endsBefore rest) :
    double? (digits ++ rest) = none := by
  have hr := endsBefore_octal h
  have hdigit := isDigit_ended h
  have hexponent : exponent? rest = none := by
    cases rest with
    | nil => rfl
    | cons c tail =>
      have hc := (hr c rfl).1
      rw [exponent?_cons, if_neg]
      rintro (rfl | rfl) <;> revert hc <;> decide
  have hfraction : fraction? (digits ++ rest) = none := by
    simp only [fraction?, takeWhile_run hd hdigit, dropWhile_run hd hdigit]
    split
    · exact absurd rfl (hr '.' rfl).2
    · rw [hexponent, Option.map_none, ite_self]
  rw [double?_eq, hfraction, Option.map_none]

-- Nor do they start a hexadecimal number.
theorem hexDigits_ended (hd : ∀ c ∈ digits, c.isDigit) (h : IntegerForm.octal.endsBefore rest)
    (first : Char) : hexDigits first (digits ++ rest) = [] := by
  have hmark : ∀ c ∈ (digits ++ rest).head?, ¬ (c = 'x' ∨ c = 'X') := by
    intro c hc
    cases digits with
    | nil =>
      have hr := (endsBefore_octal h c hc).1
      rintro (rfl | rfl) <;> revert hr <;> decide
    | cons digit tail =>
      have hdigit : c.isDigit := hd c (by simp_all)
      rintro (rfl | rfl) <;> revert hdigit <;> decide
  cases ht : digits ++ rest with
  | nil => exact hexDigits_nil first
  | cons c tail =>
    rw [ht] at hmark
    rw [hexDigits_cons, if_neg fun hc => hmark c rfl hc.2]

theorem number_hexadecimal {mark : Char} (hm : mark = 'x' ∨ mark = 'X') (hne : digits ≠ [])
    (hd : ∀ c ∈ digits, isDigitIn 16 c) (hr : ∀ c ∈ rest.head?, isDigitIn 16 c = false) :
    number '0' (mark :: (digits ++ rest)) = .ok (integer 16 digits, digits.length + 1) := by
  have hhex : hexDigits '0' (mark :: (digits ++ rest)) = digits := by
    rw [hexDigits_cons, if_pos ⟨rfl, hm⟩, takeWhile_run hd hr]
  have hempty : digits.isEmpty = false := by simpa using hne
  simp only [number, hhex, hempty, Bool.not_false, if_true]

-- Behind a leading zero the digits below eight count, and another digit behind them is a fault.
theorem number_zero (hd : ∀ c ∈ digits, c.isDigit) (h : IntegerForm.octal.endsBefore rest) :
    number '0' (digits ++ rest) = octal (digits ++ rest) := by
  have hall : ∀ c ∈ '0' :: digits, c.isDigit := List.forall_mem_cons.mpr ⟨by decide, hd⟩
  have hdouble : double? ('0' :: (digits ++ rest)) = none := double?_ended hall h
  simp only [number, hexDigits_ended hd h, List.isEmpty_nil, Bool.not_true, Bool.false_eq_true,
    if_false, hdouble, if_true]

theorem number_decimal {first : Char} (hf : first.isDigit) (h0 : first ≠ '0')
    (hd : ∀ c ∈ digits, c.isDigit) (h : IntegerForm.octal.endsBefore rest) :
    number first (digits ++ rest) = .ok (integer 10 (first :: digits), digits.length) := by
  have hall : ∀ c ∈ first :: digits, c.isDigit := List.forall_mem_cons.mpr ⟨hf, hd⟩
  have hdouble : double? (first :: (digits ++ rest)) = none := double?_ended hall h
  have hrun : (digits ++ rest).takeWhile Char.isDigit = digits :=
    takeWhile_run hd (isDigit_ended h)
  simp only [number, hexDigits_ended hd h, List.isEmpty_nil, Bool.not_true, Bool.false_eq_true,
    if_false, hdouble, h0, decimal_eq hf, hrun]

theorem octal_run (hd : ∀ c ∈ digits, isDigitIn 8 c)
    (hr : ∀ c ∈ rest.head?, isDigitIn 8 c = false) :
    octal (digits ++ rest) =
      if rest.head?.any Char.isDigit then .error (.decimalDigitInOctal, digits.length + 1)
      else .ok (integer 8 digits, digits.length) := by
  simp only [octal, takeWhile_run hd hr, List.drop_left]
  cases rest with
  | nil => rfl
  | cons c tail => rfl

end Ended

-- Each form is read as the number that its digits spell.
theorem number_integer {form : IntegerForm} {digits rest : List Char} (ha : form.allows digits)
    (he : form.endsBefore rest) :
    ∃ first tail, form.text digits = first :: tail ∧ first.isDigit ∧
      number first (tail ++ rest) =
        .ok (.literal (.number (.int (Int64.ofNat (valueIn form.radix digits)))), tail.length) := by
  obtain ⟨hd, ha⟩ := Bool.and_eq_true_iff.mp ha
  simp only [List.all_eq_true, decide_eq_true_eq] at hd
  have hradix := form.radix_le
  have hin : ∀ c ∈ digits, isDigitIn form.radix c := fun c hc => (isDigitIn_iff hradix).mpr (hd c hc)
  rw [← digitsValue_eq hradix hd, ← foldDigits_eq]
  cases form with
  | hexadecimal upper =>
    have hend : ∀ c ∈ rest.head?, isDigitIn 16 c = false := fun c hc => by
      have hc : 16 ≤ digitRank c := by simpa [IntegerForm.endsBefore, Option.mem_def.mp hc] using he
      rw [Bool.eq_false_iff, ne_eq, isDigitIn_iff (by decide)]
      omega
    refine ⟨'0', (if upper then 'X' else 'x') :: digits, rfl, by decide, ?_⟩
    exact number_hexadecimal (by cases upper <;> simp) (by simpa using ha) hin hend
  | octal =>
    have hdigit : ∀ c ∈ digits, c.isDigit := fun c hc => isDigit_octal (hin c hc)
    have hend := isDigit_ended he
    have hany : rest.head?.any Char.isDigit = false := by
      cases rest with
      | nil => rfl
      | cons c tail => exact hend c rfl
    have hoctal : ∀ c ∈ rest.head?, isDigitIn 8 c = false := fun c hc =>
      Bool.eq_false_iff.mpr fun ho => by simpa [isDigit_octal ho] using hend c hc
    refine ⟨'0', digits, rfl, by decide, ?_⟩
    rw [number_zero hdigit he, octal_run hin hoctal, hany]
    rfl
  | decimal =>
    have hdigit : ∀ c ∈ digits, c.isDigit := fun c hc => isDigit_iff.mpr (hd c hc)
    cases digits with
    | nil => cases ha
    | cons first tail =>
      rw [List.forall_mem_cons] at hdigit
      exact ⟨first, tail, rfl, hdigit.1, number_decimal hdigit.1 (by simpa using ha) hdigit.2 he⟩

theorem isDigitIn_eight {c : Char} (h : c.isDigit) :
    isDigitIn 8 c = false ↔ c = '8' ∨ c = '9' := by
  have hall : ∀ c ∈ digitCharacters, c.isDigit → (isDigitIn 8 c = false ↔ c = '8' ∨ c = '9') :=
    forall_digitCharacters (by decide +kernel)
  exact hall c (mem_of_digitRank_lt (by have := isDigit_iff.mp h; omega)) h

-- Behind a leading zero an eight or a nine is a fault.
theorem number_decimalInOctal {digits rest : List Char} (hd : ∀ c ∈ digits, c.isDigit)
    (hm : '8' ∈ digits ∨ '9' ∈ digits) (he : IntegerForm.octal.endsBefore rest) :
    number '0' (digits ++ rest) =
      .error (.decimalDigitInOctal, ('0' :: digits).findIdx fun c => c = '8' ∨ c = '9') := by
  obtain ⟨front, other, rfl, hf, ho⟩ := exists_run (isDigitIn 8) digits
  have hfront : ∀ c ∈ '0' :: front, ¬ (c = '8' ∨ c = '9') := by
    intro c hc
    have hoctal : isDigitIn 8 c := by
      obtain rfl | hc := List.mem_cons.mp hc
      · decide
      · exact hf c hc
    rw [← isDigitIn_eight (isDigit_octal hoctal), hoctal]
    decide
  cases other with
  | nil =>
    rw [List.append_nil] at hm
    obtain hm | hm := hm
    · exact absurd (.inl rfl) (hfront _ (List.mem_cons_of_mem _ hm))
    · exact absurd (.inr rfl) (hfront _ (List.mem_cons_of_mem _ hm))
  | cons c tail =>
    have hdigit : c.isDigit := hd c (by simp)
    have hc : c = '8' ∨ c = '9' := (isDigitIn_eight hdigit).mp (ho c rfl)
    have hindex : ('0' :: (front ++ c :: tail)).findIdx (fun c => decide (c = '8' ∨ c = '9')) =
        front.length + 1 := by
      rw [← List.cons_append, List.findIdx_append, List.findIdx_eq_length_of_false, List.findIdx_cons]
      · simp [hc]
      · intro c hc
        simpa using hfront c hc
    rw [number_zero hd he, List.append_assoc, octal_run hf (by simpa using ho), hindex]
    simp [hdigit]

end Scan

namespace Stream

-- What starts with a digit is a number.
theorem ofCursor_digit {first : Char} (hf : first.isDigit) (offset : Nat) (rest : List Char) :
    ofCursor ⟨offset, first :: rest⟩ = match Scan.number first rest with
      | .error (fault, size) => broken ⟨fault, offset + Text.width ((first :: rest).take size)⟩
      | .ok (token, size) =>
        next ⟨token, offset, offset + Text.width (first :: rest.take size)⟩
          (ofCursor ⟨offset + Text.width (first :: rest.take size), rest.drop size⟩) := by
  obtain ⟨hspace, hname, hslash⟩ := Scan.isDigit_characters hf
  have htoken : Scan.token first rest = Scan.number first rest := by
    simp only [Scan.token, hname, hf, Bool.false_eq_true, if_false, if_true]
  rw [← htoken]
  exact ofCursor_cons hspace (fun h => absurd h hslash) offset

end Stream

namespace Text

theorem trim_eq_self {text : List Char} (h : ∀ c ∈ text, isBlank c = false) : trim text = text := by
  have hself {other : List Char} (ho : ∀ c ∈ other, isBlank c = false) :
      other.dropWhile isBlank = other := by
    cases other with
    | nil => rfl
    | cons c rest => exact List.dropWhile_cons_of_neg (by simp [ho c List.mem_cons_self])
  have hreverse : ∀ c ∈ text.reverse, isBlank c = false := by simpa using h
  rw [trim, hself h, hself hreverse, List.reverse_reverse]

end Text

namespace IntegerForm

variable {form : IntegerForm} {digits : List Char}

theorem isBlank_text (ha : form.allows digits) : ∀ c ∈ form.text digits, Text.isBlank c = false := by
  have hall : ∀ c ∈ 'x' :: 'X' :: digitCharacters, Text.isBlank c = false :=
    List.forall_mem_cons.mpr ⟨by decide, List.forall_mem_cons.mpr
      ⟨by decide, forall_digitCharacters (by decide +kernel)⟩⟩
  obtain ⟨hd, -⟩ := Bool.and_eq_true_iff.mp ha
  simp only [List.all_eq_true, decide_eq_true_eq] at hd
  have hdigits : digits ⊆ digitCharacters := fun c hc =>
    mem_of_digitRank_lt (Nat.lt_of_lt_of_le (hd c hc) form.radix_le)
  intro c hc
  refine hall c ?_
  obtain hc | hc := List.mem_append.mp hc
  · have hopening : form.opening ⊆ 'x' :: 'X' :: digitCharacters := by
      match form with
      | .hexadecimal true | .hexadecimal false | .octal | .decimal => decide
    exact hopening hc
  · exact List.mem_cons_of_mem _ (List.mem_cons_of_mem _ (hdigits hc))

end IntegerForm

namespace Number

-- A text that is such a literal as a whole stands for the same integer.
theorem leadingInt?_integer {form : IntegerForm} {digits : List Char} (ha : form.allows digits) :
    leadingInt? (form.text digits) = some (Int64.ofNat (valueIn form.radix digits)) := by
  obtain ⟨hd, hc⟩ := Bool.and_eq_true_iff.mp ha
  simp only [List.all_eq_true, decide_eq_true_eq] at hd
  have hin : ∀ c ∈ digits, isDigitIn form.radix c :=
    fun c hc => (isDigitIn_iff form.radix_le).mpr (hd c hc)
  have hrun := Scan.takeWhile_whole hin
  rw [← digitsValue_eq form.radix_le hd, ← foldDigits_eq]
  cases form with
  | hexadecimal upper =>
    cases digits with
    | nil => cases hc
    | cons first rest =>
      rw [IntegerForm.radix] at hrun ⊢
      cases upper <;>
        simp [leadingInt?, IntegerForm.text, IntegerForm.opening, sign, hrun]
  | octal =>
    rw [IntegerForm.radix] at hrun ⊢
    -- The zero is a digit of the number here.
    have hzero : ('0' :: digits).takeWhile (isDigitIn 8) = '0' :: digits := by
      rw [List.takeWhile_cons_of_pos (by decide), hrun]
    have hmark : ∀ c ∈ digits.head?, c ≠ 'x' ∧ c ≠ 'X' := fun c hc => by
      have hoctal := hin c (List.mem_of_mem_head? hc)
      constructor <;> rintro rfl <;> revert hoctal <;> decide
    cases digits with
    | nil => rfl
    | cons first rest =>
      obtain ⟨hlower, hupper⟩ := hmark first rfl
      have hvalue : foldDigits 8 ('0' :: first :: rest) = foldDigits 8 (first :: rest) := rfl
      simp [leadingInt?, IntegerForm.text, IntegerForm.opening, sign, hzero, hlower, hupper, hvalue]
  | decimal =>
    cases digits with
    | nil => cases hc
    | cons first rest =>
      have hf : first ≠ '0' := by simpa using hc
      have hs : sign (first :: rest) = (false, first :: rest) :=
        Scan.sign_of_digit (.inl (isDigit_iff.mpr (hd first List.mem_cons_self)))
      rw [IntegerForm.radix] at hrun ⊢
      simp [leadingInt?, IntegerForm.text, IntegerForm.opening, hs, hrun, hf]

end Number

-- Converting a text that has an integer in front, whatever else the call passes.
theorem Native.apply_parseInt {σ : Type} (host : Host σ) (below : Below σ) (receiver : Value)
    (others : List Value) (machine : Machine σ) {text : String} {value : Int64}
    (h : leadingInt? (Text.trim text.toList) = some value) :
    Native.apply host below receiver (.string text :: others) (.global .parseInt) machine =
      (.done (.number (.int value)), machine) := by
  have hvalue : argument (.string text :: others) 0 = .string text := rfl
  simp only [Native.apply, GlobalFunction.apply, hvalue, Heap.toText_string, h]
  rfl

-- A literal of any form is one token, which stands for the number that its digits spell, wrapped to
-- 64 bits; converting its text to an integer gives the same. Behind a leading zero the first eight or
-- nine is a fault.
theorem IntegerForm.reads_value :
    (∀ (form : IntegerForm) (digits rest : List Char) (offset : Nat),
      form.allows digits → form.endsBefore rest →
      ∃ value : Int64, value.toInt = (valueIn form.radix digits : Int).bmod (2 ^ 64) ∧
        Stream.ofCursor ⟨offset, form.text digits ++ rest⟩ =
          .next ⟨.literal (.number (.int value)), offset, offset + Text.width (form.text digits)⟩
            (.ofCursor ⟨offset + Text.width (form.text digits), rest⟩) ∧
        ∀ {σ : Type} (host : Host σ) (below : Below σ) (receiver : Value) (others : List Value)
          (machine : Machine σ),
          Native.apply host below receiver (.string (String.ofList (form.text digits)) :: others)
            (.global .parseInt) machine = (.done (.number (.int value)), machine)) ∧
    (∀ (digits rest : List Char) (offset : Nat), (∀ c ∈ digits, c.isDigit) →
      '8' ∈ digits ∨ '9' ∈ digits → IntegerForm.octal.endsBefore rest →
      Stream.ofCursor ⟨offset, '0' :: digits ++ rest⟩ =
        .broken ⟨.decimalDigitInOctal,
          offset + ('0' :: digits).findIdx fun c => c = '8' ∨ c = '9'⟩) ∧
    ParseFault.message .decimalDigitInOctal = "Decimal digit in octal constant" := by
  refine ⟨fun form digits rest offset ha he => ?_, fun digits rest offset hd hm he => ?_, rfl⟩
  · obtain ⟨first, tail, htext, hf, hnumber⟩ := Scan.number_integer ha he
    refine ⟨Int64.ofNat (valueIn form.radix digits), ?_, ?_, fun host below receiver others machine => ?_⟩
    · rw [← Int64.ofInt_eq_ofNat, Int64.toInt_ofInt]
      rfl
    · rw [htext, List.cons_append, Stream.ofCursor_digit hf, hnumber]
      simp only [List.take_left, List.drop_left]
    · refine Native.apply_parseInt host below receiver others machine ?_
      rw [String.toList_ofList, Text.trim_eq_self (isBlank_text ha), leadingInt?_integer ha]
  · have hall : ∀ c ∈ '0' :: digits, c.isDigit := List.forall_mem_cons.mpr ⟨by decide, hd⟩
    generalize hindex : ('0' :: digits).findIdx (fun c => decide (c = '8' ∨ c = '9')) = index
    have hle : index ≤ ('0' :: digits).length := hindex ▸ List.findIdx_le_length
    have hwidth : Text.width (('0' :: (digits ++ rest)).take index) = index := by
      rw [← List.cons_append, List.take_append_of_le_length hle,
        Text.width_digits fun c hc => hall c (List.mem_of_mem_take hc), List.length_take_of_le hle]
    rw [List.cons_append, Stream.ofCursor_digit (by decide), Scan.number_decimalInOctal hd hm he, hindex]
    dsimp only
    rw [hwidth]

theorem IntegerForm.reads_value_wrapped :
    (IntegerForm.hexadecimal true).allows "8000000000000001".toList ∧
      (IntegerForm.hexadecimal true).endsBefore ['g'] ∧
      (∃ value : Int64, value.toInt = -9223372036854775807 ∧
        Stream.ofText "0X8000000000000001g".toList =
          .next ⟨.literal (.number (.int value)), 0, 18⟩ (.ofCursor ⟨18, ['g']⟩) ∧
        ∀ machine : Machine Unit, Native.apply .bare (Below.ofFuel .bare 0) .undefined
          [.string "0X8000000000000001"] (.global .parseInt) machine =
            (.done (.number (.int value)), machine)) ∧
      (∀ c ∈ "1793".toList, c.isDigit) ∧ '9' ∈ "1793".toList ∧ IntegerForm.octal.endsBefore [';'] ∧
      Stream.ofText "01793;".toList = .broken ⟨.decimalDigitInOctal, 3⟩ := by
  have ha : (IntegerForm.hexadecimal true).allows "8000000000000001".toList := by decide
  have he : (IntegerForm.hexadecimal true).endsBefore ['g'] := by decide
  obtain ⟨value, hvalue, hstream, hconverts⟩ := reads_value.1 _ _ _ 0 ha he
  have hd : ∀ c ∈ "1793".toList, c.isDigit := List.all_eq_true.mp (by decide)
  have hm : '9' ∈ "1793".toList := by decide
  have hs : IntegerForm.octal.endsBefore [';'] := by decide
  exact ⟨ha, he, ⟨value, hvalue.trans (by decide), hstream, hconverts .bare _ _ []⟩, hd, hm, hs,
    reads_value.2.1 _ _ 0 hd (.inr hm) hs⟩

end ScriptEngine
