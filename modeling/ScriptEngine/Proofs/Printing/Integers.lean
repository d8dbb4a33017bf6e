import ScriptEngine.Engine
import ScriptEngine.Proofs.Lexing.Integers
import ScriptEngine.Proofs.Reading.Completeness

-- Integers that are printed and read again. There are three readers, the lexer with a sign in front, the
-- conversion of the start of a text and the conversion of a whole text, and each gives back the
-- integer that was printed. The least of all has a magnitude that does not fit and comes back by
-- wrapping.

namespace ScriptEngine

namespace Number

open Scan (isDigit_toDigits digitsValue_toDigits exists_toDigits)

section Text

variable (n : Int)

theorem sign_intText : sign (intText n) = (decide (n < 0), Nat.toDigits 10 n.natAbs) := by
  unfold intText
  split
  · next h => simp [sign, h]
  · next h =>
    obtain ⟨first, rest, hd, hf⟩ := exists_toDigits n.natAbs
    rw [hd, Scan.sign_of_digit (.inl hf), decide_eq_false h]

theorem signed_natAbs : (if decide (n < 0) then -(n.natAbs : Int) else n.natAbs) = n := by
  by_cases h : n < 0
  · rw [if_pos (decide_eq_true h)]
    omega
  · rw [if_neg (by simpa using h)]
    omega

theorem isBlank_intText : ∀ c ∈ intText n, Text.isBlank c = false := by
  have hall : ∀ c ∈ '-' :: digitCharacters, Text.isBlank c = false :=
    List.forall_mem_cons.mpr ⟨by decide, forall_digitCharacters (by decide +kernel)⟩
  have hdigits : Nat.toDigits 10 n.natAbs ⊆ digitCharacters := fun c hc => by
    have hrank : digitRank c < 10 := isDigit_iff.mp (isDigit_toDigits _ c hc)
    exact mem_of_digitRank_lt (by omega)
  intro c hc
  refine hall c ?_
  unfold intText at hc
  split at hc
  · obtain rfl | hc := List.mem_cons.mp hc
    · exact List.mem_cons_self
    · exact List.mem_cons_of_mem _ (hdigits hc)
  · exact List.mem_cons_of_mem _ (hdigits hc)

theorem intText_ne_nil : intText n ≠ [] := by
  unfold intText
  split
  · exact List.cons_ne_nil _ _
  · exact Nat.toDigits_ne_nil

end Text

variable (value : Int64)

-- The text as a whole.
theorem readInt?_intText : readInt? (intText value.toInt) = some value := by
  obtain ⟨first, rest, hd, -⟩ := exists_toDigits value.toInt.natAbs
  have hdigits : (Nat.toDigits 10 value.toInt.natAbs).all Char.isDigit :=
    List.all_eq_true.mpr (isDigit_toDigits _)
  have hempty : (Nat.toDigits 10 value.toInt.natAbs).isEmpty = false := by rw [hd]; rfl
  have hrange : Int64.minValue.toInt ≤ value.toInt ∧ value.toInt ≤ Int64.maxValue.toInt :=
    ⟨value.minValue_le_toInt, value.toInt_le⟩
  simp only [readInt?, sign_intText, hempty, hdigits, digitsValue_toDigits, signed_natAbs]
  rw [if_pos hrange, Int64.ofInt_toInt]
  rfl

theorem ofText_intText : ofText (intText value.toInt) = .int value := by
  have hempty : (intText value.toInt).isEmpty = false := by simpa using intText_ne_nil value.toInt
  simp only [ofText, Text.trim_eq_self (isBlank_intText value.toInt), hempty, readInt?_intText]
  rfl

-- The start of the text. Zero goes by the octal rule, which gives the same.
theorem leadingInt?_intText : leadingInt? (intText value.toInt) = some value := by
  by_cases h0 : value.toInt.natAbs = 0
  · have hzero : value = 0 := Int64.toInt_inj.mp (Int.natAbs_eq_zero.mp h0)
    subst hzero
    decide
  · obtain ⟨first, rest, hd, -⟩ := exists_toDigits value.toInt.natAbs
    have hfirst : first ≠ '0' := by
      rintro rfl
      exact Scan.head?_toDigits h0 (by rw [hd]; rfl)
    have hrun : (first :: rest).takeWhile (isDigitIn 10) = first :: rest := by
      rw [← hd]
      refine Scan.takeWhile_whole fun c hc => ?_
      exact (isDigitIn_iff (by decide)).mpr (isDigit_iff.mp (isDigit_toDigits _ c hc))
    have hfold : foldDigits 10 (first :: rest) = Int64.ofInt value.toInt.natAbs := by
      rw [foldDigits_eq, ← hd, digitsValue_toDigits, Int64.ofInt_eq_ofNat]
    have hsign := sign_intText value.toInt
    rw [hd] at hsign
    have hradix : leadingInt? (intText value.toInt) =
        some (if decide (value.toInt < 0) then -Int64.ofInt value.toInt.natAbs
          else Int64.ofInt value.toInt.natAbs) := by
      simp [leadingInt?, hsign, hfirst, hrun, hfold]
    rw [hradix, ← Int64.ofInt_neg, ← apply_ite Int64.ofInt, signed_natAbs, Int64.ofInt_toInt]

end Number

namespace Stream

-- The text of one token alone.
theorem ofCursor_spelled {spelling : List Char} {token : Token} (h : Scan.Spells spelling token)
    (offset : Nat) :
    ofCursor ⟨offset, spelling⟩ =
      next ⟨token, offset, offset + Text.width spelling⟩
        (done (offset + Text.width spelling)) := by
  obtain ⟨first, rest, rfl, hs, hc, ht⟩ := h
  rw [ofCursor_cons hs hc, ht]
  dsimp only
  rw [List.take_length, List.drop_length, ofCursor_eq_done.mpr Scan.skipGap_nil]

-- A minus in front of a digit is a token of its own.
theorem ofCursor_minus {first : Char} (hf : first.isDigit) (rest : List Char) (offset : Nat) :
    ofCursor ⟨offset, '-' :: first :: rest⟩ =
      next ⟨.symbol .minus, offset, offset + 1⟩ (ofCursor ⟨offset + 1, first :: rest⟩) := by
  -- No symbol has a digit in it.
  have hprefix (mark : Symbol) : mark.text.toList.isPrefixOf (['-'] ++ first :: rest) =
      mark.text.toList.isPrefixOf ['-'] := by
    refine Scan.isPrefixOf_delimited fun hm => ?_
    have hmark : mark.text.toList.all (!·.isDigit) := by cases mark <;> decide
    have hfirst := List.all_eq_true.mp hmark first hm
    rw [hf] at hfirst
    cases hfirst
  have hsymbol : Scan.symbol '-' (first :: rest) = .ok (.symbol .minus, 0) := by
    have hlongest : Symbol.longestPrefix? ('-' :: first :: rest) = Symbol.longestPrefix? ['-'] := by
      simp only [Symbol.longestPrefix?, ← hprefix, List.singleton_append]
    have hminus : Symbol.longestPrefix? ['-'] = some .minus := by decide
    rw [Scan.symbol, hlongest, hminus]
    rfl
  have htoken : Scan.token '-' (first :: rest) = .ok (.symbol .minus, 0) := by
    have hname : Scan.startsName '-' = false := by decide +kernel
    rw [← hsymbol]
    simp [Scan.token, hname]
  rw [ofCursor_cons (by decide) fun h => absurd h (by decide), htoken]
  rfl

end Stream

namespace Grammar

variable {script : List Char}

theorem derives_literal (start stop : Nat) (value : Number) :
    Derives script (.unary (.literal start (.number value)))
      (.next ⟨.literal (.number value), start, stop⟩ (.done stop)) (.done stop) := by
  have hpasses : (Stream.next ⟨.literal (.number value), start, stop⟩ (.done stop)).Passes
      (.literal (.number value)) (.done stop) := ⟨_, rfl, rfl, trivial⟩
  refine .unsigned ?_ (.atom (.literal (.number value)) hpasses (.noSuffix rfl))
  rw [hpasses.token?]
  rfl

theorem derives_negated (start middle stop : Nat) (value : Number) :
    Derives script
      (.unary (.binary start .subtract (integer start 0) (.literal middle (.number value))))
      (.next ⟨.symbol .minus, start, middle⟩
        (.next ⟨.literal (.number value), middle, stop⟩ (.done stop))) (.done stop) := by
  have hpasses : (Stream.next ⟨.symbol .minus, start, middle⟩
      (.next ⟨.literal (.number value), middle, stop⟩ (.done stop))).Passes (.symbol .minus)
      (.next ⟨.literal (.number value), middle, stop⟩ (.done stop)) := ⟨_, rfl, rfl, trivial⟩
  exact .signed .minus hpasses (derives_literal middle stop value)

-- An operand alone is an expression.
theorem derives_alone {value : Expr} {stream : Stream} {stop : Nat}
    (h : Derives script (.unary value) stream (.done stop)) :
    Derives script (.expression value) stream (.done stop) :=
  .chain h (.noLinks rfl) rfl

end Grammar

open Grammar in
-- The text of an integer spells a literal, or for a negative one zero minus a literal.
theorem Expr.read_intText (value : Int64) :
    Expr.read (String.ofList (Number.intText value.toInt)) = .ok
      (if value.toInt < 0 then
        .binary 0 .subtract (integer 0 0) (.literal 1 (.number (.int (-value))))
      else .literal 0 (.number (.int value))) := by
  have hspells := Scan.spells_digits value.toInt.natAbs
  rw [Expr.read_eq_ok, String.toList_ofList, Number.intText, Stream.ofText]
  split
  · next hneg =>
    have hvalue : Int64.ofNat value.toInt.natAbs = -value := by
      rw [← Int64.ofInt_eq_ofNat, Int.ofNat_natAbs_of_nonpos (by omega), Int64.ofInt_neg,
        Int64.ofInt_toInt]
    obtain ⟨first, rest, hd, hf⟩ := Scan.exists_toDigits value.toInt.natAbs
    rw [hd, Stream.ofCursor_minus hf, ← hd, Stream.ofCursor_spelled hspells, hvalue]
    exact ⟨trivial, _, _, derives_alone (derives_negated _ _ _ _), .inl ⟨rfl, rfl⟩, rfl⟩
  · next hneg =>
    have hvalue : Int64.ofNat value.toInt.natAbs = value := by
      rw [← Int64.ofInt_eq_ofNat, Int.natAbs_of_nonneg (by omega), Int64.ofInt_toInt]
    rw [Stream.ofCursor_spelled hspells, hvalue]
    exact ⟨trivial, _, _, derives_alone (derives_literal _ _ _), .inl ⟨rfl, rfl⟩, rfl⟩

-- Subtracting the opposite from zero wraps back to the integer.
theorem Expr.eval_negated {σ : Type} (host : Host σ) (below : Below σ) (context : Context)
    (machine : Machine σ) (value : Int64) :
    (Expr.binary 0 .subtract (Grammar.integer 0 0) (.literal 1 (.number (.int (-value))))).eval
      host below context machine = (.done (.int value), machine) := by
  have hliteral (offset : Nat) (number : Number) :
      (Expr.literal offset (.number number)).eval host below context = pure (.number number) := by
    rw [Expr.eval]
    rfl
  have hsubtract : machine.heap.applyBinary host .subtract (.int 0) (.int (-value)) =
      .ok (.int value) := by
    have hwraps : machine.heap.applyBinary host .subtract (.int 0) (.int (-value)) =
        .ok (.int (0 - -value)) := rfl
    rw [hwraps, Int64.zero_sub, Int64.neg_neg]
  rw [Expr.eval, Grammar.integer, hliteral, hliteral]
  change Run.locate (context.at 0) (Run.ofExcept
    (machine.heap.applyBinary host .subtract (.int 0) (.int (-value)))) machine = _
  rw [hsubtract]
  rfl

theorem Heap.toText_int (heap : Heap) (value : Int64) :
    heap.toText (.int value) = String.ofList (Number.intText value.toInt) := by
  rw [toText, textWithin, heap.unwrap_of_ne_object fun _ => Value.noConfusion]
  rfl

-- The text of an integer gives it back, evaluated as an expression, converted from its start and
-- converted as a whole.
theorem Number.returns_from_text (value : Int64) :
    (∀ {σ : Type} (host : Host σ) (fuel : Nat) (engine : Engine σ),
      engine.evaluate host fuel (engine.heap.toText (.int value)) =
        (.done (.int value),
          { engine with machine := engine.machine.restart host engine.timeout })) ∧
    (∀ {σ : Type} (host : Host σ) (below : Below σ) (receiver : Value) (others : List Value)
      (machine : Machine σ),
      Native.apply host below receiver (.string (machine.heap.toText (.int value)) :: others)
        (.global .parseInt) machine = (.done (.int value), machine)) ∧
    ∀ heap : Heap, heap.toNumber (.string (heap.toText (.int value))) = .int value := by
  refine ⟨fun host fuel engine => ?_, fun host below receiver others machine => ?_, fun heap => ?_⟩
  · rw [Heap.toText_int, Engine.evaluate, Expr.read_intText]
    dsimp only
    generalize Context.mk _ _ = context
    by_cases hneg : value.toInt < 0
    · rw [if_pos hneg, Engine.enter, Expr.eval_negated]
    · rw [if_neg hneg, Expr.eval]
      rfl
  · refine Native.apply_parseInt host below receiver others machine ?_
    rw [Heap.toText_int, String.toList_ofList, Text.trim_eq_self (isBlank_intText value.toInt),
      leadingInt?_intText]
  · rw [Heap.toNumber, heap.unwrap_of_ne_object fun _ => Value.noConfusion, Heap.toText_int]
    dsimp only
    rw [String.toList_ofList, ofText_intText]

end ScriptEngine
