import ScriptEngine.Number.Reader
import ScriptEngine.Text.Width
import Mathlib.Data.List.Induction
import Mathlib.Data.Nat.Digits.Defs
import Mathlib.Tactic.Ring

-- Digits and the numbers that they spell, apart from any reader: a digit is worth its place among
-- the sixteen, and a run of digits is worth what positional notation says. Reading a run from left
-- to right gives that number.

namespace ScriptEngine

namespace Number

-- The value of a digit is its place among the sixteen, in either case. All other characters come
-- behind them.
def digitRank (c : Char) : Nat :=
  min ("0123456789abcdef".toList.idxOf c) ("0123456789ABCDEF".toList.idxOf c)

-- The number with the given digits in a radix; the last digit weighs least.
def valueIn (radix : Nat) (digits : List Char) : Nat :=
  Nat.ofDigits radix (digits.reverse.map digitRank)

-- The characters that are a digit in some radix.
def digitCharacters : List Char := "0123456789abcdefABCDEF".toList

section Characters

variable {c : Char}

theorem forall_digitCharacters {p : Char → Prop} [DecidablePred p]
    (h : digitCharacters.all (p ·) = true) : ∀ c ∈ digitCharacters, p c :=
  fun c hc => of_decide_eq_true (List.all_eq_true.mp h c hc)

theorem digitRank_of_notMem (h : c ∉ digitCharacters) : digitRank c = 16 := by
  have hlower : "0123456789abcdef".toList ⊆ digitCharacters := by decide
  have hupper : "0123456789ABCDEF".toList ⊆ digitCharacters := by decide
  rw [digitRank, List.idxOf_eq_length fun hm => h (hlower hm),
    List.idxOf_eq_length fun hm => h (hupper hm)]
  rfl

theorem mem_of_digitRank_lt (h : digitRank c < 16) : c ∈ digitCharacters := by
  by_contra hm
  rw [digitRank_of_notMem hm] at h
  omega

-- The ranges of the reader hold no other characters.
theorem outside_of_notMem (h : c ∉ digitCharacters) :
    c.isDigit = false ∧ ¬ ('a' ≤ c ∧ c ≤ 'f') ∧ ¬ ('A' ≤ c ∧ c ≤ 'F') := by
  have hall : ∀ code < 128, Char.ofNat code ∉ digitCharacters →
      (Char.ofNat code).isDigit = false ∧ ¬ ('a' ≤ Char.ofNat code ∧ Char.ofNat code ≤ 'f') ∧
        ¬ ('A' ≤ Char.ofNat code ∧ Char.ofNat code ≤ 'F') := by
    decide +kernel
  by_cases hlt : c.toNat < 128
  · have hc := hall c.toNat hlt (by rwa [Char.ofNat_toNat])
    rwa [Char.ofNat_toNat] at hc
  · have hle (d : Char) (hd : d.toNat < 128) : ¬ c ≤ d := fun hc => hlt (Nat.lt_of_le_of_lt hc hd)
    refine ⟨?_, fun hc => hle 'f' (by decide) hc.2, fun hc => hle 'F' (by decide) hc.2⟩
    exact Bool.eq_false_iff.mpr fun hc => hle '9' (by decide) (Char.isDigit_iff_toNat.mp hc).2

theorem digitValue?_eq {radix : Nat} (hr : radix ≤ 16) (c : Char) :
    digitValue? radix c = if digitRank c < radix then some (digitRank c) else none := by
  by_cases h : c ∈ digitCharacters
  · have hall : ∀ c ∈ digitCharacters, ∀ radix ≤ 16,
        digitValue? radix c = if digitRank c < radix then some (digitRank c) else none :=
      forall_digitCharacters (by decide +kernel)
    exact hall c h radix hr
  · obtain ⟨hd, hl, hu⟩ := outside_of_notMem h
    rw [digitRank_of_notMem h, if_neg (by omega)]
    simp [digitValue?, hd, hl, hu]

theorem isDigitIn_iff {radix : Nat} (hr : radix ≤ 16) : isDigitIn radix c ↔ digitRank c < radix := by
  rw [isDigitIn, digitValue?_eq hr]
  split <;> simp_all

theorem isDigit_iff : c.isDigit ↔ digitRank c < 10 := by
  by_cases h : c ∈ digitCharacters
  · have hall : ∀ c ∈ digitCharacters, c.isDigit ↔ digitRank c < 10 :=
      forall_digitCharacters (by decide +kernel)
    exact hall c h
  · rw [(outside_of_notMem h).1, digitRank_of_notMem h]
    decide

end Characters

-- Reading from left to right gives the number that the digits spell.
theorem digitsValue_eq {radix : Nat} (hr : radix ≤ 16) {digits : List Char}
    (h : ∀ c ∈ digits, digitRank c < radix) : digitsValue radix digits = valueIn radix digits := by
  induction digits using List.reverseRecOn with
  | nil => rfl
  | append_singleton front last ih =>
    have hlast : (digitValue? radix last).getD 0 = digitRank last := by
      rw [digitValue?_eq hr, if_pos (h last (by simp))]
      rfl
    have hfront : digitsValue radix front = valueIn radix front :=
      ih fun c hc => h c (List.mem_append_left _ hc)
    calc digitsValue radix (front ++ [last])
        = digitsValue radix front * radix + digitRank last := by
          rw [digitsValue, List.foldl_append, List.foldl_cons, List.foldl_nil, hlast]
          rfl
      _ = digitRank last + radix * valueIn radix front := by rw [hfront]; ring
      _ = valueIn radix (front ++ [last]) := by
          rw [valueIn, valueIn, List.reverse_append, List.reverse_singleton, List.singleton_append,
            List.map_cons, Nat.ofDigits_cons]

end Number

open Number in
-- Digits are one byte wide.
theorem Text.width_digits {digits : List Char} (h : ∀ c ∈ digits, c.isDigit) :
    Text.width digits = digits.length := by
  have hall : ∀ c ∈ digitCharacters, c.utf8Size = 1 := forall_digitCharacters (by decide)
  induction digits with
  | nil => rfl
  | cons c rest ih =>
    rw [List.forall_mem_cons] at h
    have hrank : digitRank c < 16 := by
      have := isDigit_iff.mp h.1
      omega
    rw [width_cons, hall c (mem_of_digitRank_lt hrank), ih h.2, List.length_cons, Nat.add_comm]

end ScriptEngine
