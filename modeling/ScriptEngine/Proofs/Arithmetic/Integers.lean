import Mathlib.Data.Int.Bitwise
import Mathlib.Data.Int.ModEq
import ScriptEngine.Proofs.Comparison.Mirrored

-- Arithmetic on integers. Every operator of the ladder answers, and what it gives is the exact result
-- wrapped to 64 bits, also where the operands are extreme or a shift is negative or too wide.

namespace ScriptEngine

variable {σ : Type}

-- Integers as words of 64 bits.
namespace Word

section Shifts

variable (a b : Int64)

-- Modulo what divides the size of a word, the sign of the word does not matter.
theorem toInt_emod {n : Nat} (h : n ∣ 2 ^ 64) :
    a.toInt % n = (a.toUInt64.toNat % n : Nat) := by
  have hword : a.toInt = (a.toUInt64.toNat : Int).bmod (2 ^ 64) := BitVec.toInt_eq_toNat_bmod _
  have hdvd : (n : Int) ∣ ((2 ^ 64 : Nat) : Int) := Int.natCast_dvd_natCast.mpr h
  rw [hword, ← Int.emod_emod_of_dvd _ hdvd, Int.bmod_emod, Int.emod_emod_of_dvd _ hdvd,
    Int.natCast_emod]

-- A shift goes by the six low bits of its count. They are no negative number, so that the count is
-- taken as it is.
theorem toNat_count : ((b &&& 63).toBitVec.smod 64).toNat = (b.toInt % 64).toNat := by
  have hlow : (b &&& 63).toBitVec.toNat = b.toUInt64.toNat % 64 :=
    Nat.and_two_pow_sub_one_eq_mod _ 6
  have hlt : (b &&& 63).toBitVec.toNat < 64 := hlow ▸ Nat.mod_lt _ (by decide)
  have hmsb : (b &&& 63).toBitVec.msb = false := by
    rw [BitVec.msb_eq_false_iff_two_mul_lt]
    omega
  have hcount : (64#64).toNat = 64 := rfl
  have hrest := toInt_emod b (n := 64) (by decide)
  rw [BitVec.smod_eq, hmsb]
  change ((b &&& 63).toBitVec % 64#64).toNat = _
  rw [BitVec.toNat_umod, hlow, hcount, Nat.mod_mod]
  exact (Int.toNat_natCast _).symm.trans (congrArg Int.toNat hrest.symm)

theorem toInt_shiftLeft :
    (a <<< (b &&& 63)).toInt = (a.toInt * 2 ^ (b.toInt % 64).toNat).bmod (2 ^ 64) := by
  have hword : a.toInt = (a.toUInt64.toNat : Int).bmod (2 ^ 64) := BitVec.toInt_eq_toNat_bmod _
  rw [← Int64.toInt_toBitVec, Int64.toBitVec_shiftLeft]
  change (a.toBitVec <<< ((b &&& 63).toBitVec.smod 64).toNat).toInt = _
  rw [BitVec.toInt_shiftLeft, toNat_count, Nat.shiftLeft_eq, hword, Int.bmod_mul_bmod]
  push_cast
  rfl

theorem toInt_shiftRight :
    (a >>> (b &&& 63)).toInt = a.toInt.fdiv (2 ^ (b.toInt % 64).toNat) := by
  rw [← Int64.toInt_toBitVec, Int64.toBitVec_shiftRight, BitVec.toInt_sshiftRight', toNat_count,
    Int.shiftRight_eq_div_pow, Int.fdiv_eq_ediv_of_nonneg _ (Int.pow_nonneg (by decide))]
  push_cast
  rw [Int64.toInt_toBitVec]

theorem toInt_shiftRightUnsigned :
    (Int64.ofNat ((a.toUInt64.toNat % UInt32.size) >>> (b.toUInt64.toNat % 32))).toInt =
      (a.toInt % 2 ^ 32).fdiv (2 ^ (b.toInt % 32).toNat) := by
  have ha := toInt_emod a (n := 2 ^ 32) (by decide)
  have hb := toInt_emod b (n := 32) (by decide)
  have hlt : a.toUInt64.toNat % UInt32.size < 2 ^ 32 := Nat.mod_lt _ (by decide)
  rw [Int64.toInt_ofNat_of_lt, Int.fdiv_eq_ediv_of_nonneg _ (Int.pow_nonneg (by decide)),
    Nat.shiftRight_eq_div_pow]
  · push_cast at ha hb ⊢
    rw [ha, hb]
    rfl
  · refine Nat.lt_of_le_of_lt (Nat.shiftRight_le _ _) ?_
    omega

end Shifts

section Bits

-- Two words without a common bit are added by taking the bits of either.
theorem and_add_andNot (x y : BitVec 64) : (x &&& y) + (x &&& ~~~y) = x := by
  rw [BitVec.add_eq_or_of_and_eq_zero] <;> ext i hi <;> cases h : y[i] <;> simp [h]

theorem andNot_add (x y : BitVec 64) : (x &&& ~~~y) + y = x ||| y := by
  rw [BitVec.add_eq_or_of_and_eq_zero] <;> ext i hi <;> cases h : y[i] <;> simp [h]

theorem xor_add_and (x y : BitVec 64) : (x ^^^ y) + (x &&& y) = x ||| y := by
  rw [BitVec.add_eq_or_of_and_eq_zero] <;> ext i hi <;> cases h : y[i] <;> simp [h]

variable (a b : Int64)

theorem and_add_or : (a &&& b) + (a ||| b) = a + b := by
  refine Int64.toBitVec_inj.mp ?_
  rw [Int64.toBitVec_add, Int64.toBitVec_add, Int64.toBitVec_and, Int64.toBitVec_or, ← andNot_add,
    ← BitVec.add_assoc, and_add_andNot]

theorem or_sub_and : (a ||| b) - (a &&& b) = a ^^^ b := by
  refine Int64.toBitVec_inj.mp ?_
  rw [Int64.toBitVec_sub, Int64.toBitVec_and, Int64.toBitVec_or, Int64.toBitVec_xor, ← xor_add_and,
    BitVec.add_sub_cancel]

-- The bits of an integer are those of its word, above which the sign goes on.
theorem testBit_toInt (i : Nat) : a.toInt.testBit i = a.toBitVec.getLsbD (min i 63) := by
  have hlt := a.toBitVec.isLt
  have hsign : a.toBitVec.msb = a.toBitVec.getLsbD 63 := BitVec.msb_eq_getLsbD_last _
  rw [← Int64.toInt_toBitVec, BitVec.toInt_eq_msb_cond]
  split
  · next hneg =>
    have hsucc : (a.toBitVec.toNat : Int) - ((2 ^ 64 : Nat) : Int) =
        Int.negSucc (2 ^ 64 - (a.toBitVec.toNat + 1)) := by omega
    rw [hsucc]
    change (!(2 ^ 64 - (a.toBitVec.toNat + 1)).testBit i) = _
    rw [Nat.testBit_two_pow_sub_succ hlt, BitVec.testBit_toNat]
    by_cases hi : i < 64
    · simp [hi, Nat.min_eq_left (Nat.le_of_lt_succ hi)]
    · simp [hi, Nat.min_eq_right (by omega : 63 ≤ i), ← hsign, hneg]
  · next hpos =>
    refine (BitVec.testBit_toNat _).trans ?_
    by_cases hi : i < 64
    · rw [Nat.min_eq_left (Nat.le_of_lt_succ hi)]
    · rw [Nat.min_eq_right (by omega), ← hsign, Bool.eq_false_iff.mpr hpos,
        BitVec.getLsbD_of_ge _ _ (by omega)]

theorem modEq_bmod (value : Int) : Int.ModEq (2 ^ 64) value (value.bmod (2 ^ 64)) :=
  (Int.bmod_emod (m := 2 ^ 64)).symm

end Bits

end Word

namespace Heap

open Ladder

-- The operator gives an integer.
def Gives (host : Host σ) (heap : Heap) (operator : BinaryOp) (x y : Value) (result : Int) : Prop :=
  ∃ value : Int64, heap.applyBinary host operator x y = .ok (.int value) ∧ value.toInt = result

-- What the operators give on operands that count as the integers `a` and `b`.
structure Exact (host : Host σ) (heap : Heap) (x y : Value) (a b : Int) : Prop where
  total (operator : BinaryOp) : operator.usesLadder →
    ∃ value, heap.applyBinary host operator x y = .ok value
  add : heap.Gives host .add x y ((a + b).bmod (2 ^ 64))
  subtract : heap.Gives host .subtract x y ((a - b).bmod (2 ^ 64))
  multiply : heap.Gives host .multiply x y ((a * b).bmod (2 ^ 64))
  modulo : b ≠ 0 → ∃ rest : Int, heap.Gives host .modulo x y rest ∧ rest.natAbs < b.natAbs ∧
    (rest = 0 ∨ rest.sign = a.sign) ∧ b ∣ a - rest
  shiftLeft : heap.Gives host .shiftLeft x y ((a * 2 ^ (b % 64).toNat).bmod (2 ^ 64))
  shiftRight : heap.Gives host .shiftRight x y (a.fdiv (2 ^ (b % 64).toNat))
  shiftRightUnsigned : ∃ rest : Int, heap.Gives host .shiftRightUnsigned x y rest ∧
    rest = (a % 2 ^ 32).fdiv (2 ^ (b % 32).toNat) ∧ 0 ≤ rest ∧ rest ≤ 2 ^ 32 - 1
  bits : ∃ both either one : Int, heap.Gives host .bitAnd x y both ∧
    heap.Gives host .bitOr x y either ∧ heap.Gives host .bitXor x y one ∧
    (∀ i, both.testBit i = (a.testBit i && b.testBit i) ∧
      either.testBit i = (a.testBit i || b.testBit i) ∧
      one.testBit i = (a.testBit i ^^ b.testBit i)) ∧
    Int.ModEq (2 ^ 64) (a + b) (both + either) ∧ Int.ModEq (2 ^ 64) one (either - both)

section

variable {host : Host σ} {heap : Heap} {operator : BinaryOp} {x y : Value} {a b : Int64}

theorem gives_of_onInts (hx : CountsAs x a) (hy : CountsAs y b)
    (hn : (x.isNothing && y.isNothing) = false) (h : operator.usesLadder) {value : Int64}
    (hv : onInts operator a b = .ok (.int value)) : heap.Gives host operator x y value.toInt :=
  ⟨value, (applyBinary_integers h hx hy hn).trans hv, rfl⟩

theorem exists_onInts (h : operator.usesLadder) (a b : Int64) :
    ∃ value, onInts operator a b = .ok value := by
  cases operator <;> first | exact ⟨_, rfl⟩ | cases h

-- Operands that count as integers, not both being nothing, are combined exactly.
theorem exact_of_countsAs (host : Host σ) (heap : Heap) (hx : CountsAs x a) (hy : CountsAs y b)
    (hn : (x.isNothing && y.isNothing) = false) : heap.Exact host x y a.toInt b.toInt := by
  have gives {operator : BinaryOp} (h : operator.usesLadder) {value : Int64}
      (hv : onInts operator a b = .ok (.int value)) : heap.Gives host operator x y value.toInt :=
    gives_of_onInts hx hy hn h hv
  constructor
  case total =>
    intro operator h
    rw [applyBinary_integers h hx hy hn]
    exact exists_onInts h a b
  case add => exact Int64.toInt_add a b ▸ gives rfl rfl
  case subtract => exact Int64.toInt_sub a b ▸ gives rfl rfl
  case multiply => exact Int64.toInt_mul a b ▸ gives rfl rfl
  case modulo =>
    intro hb
    have hzero : b ≠ 0 := by
      rintro rfl
      exact hb rfl
    refine ⟨a.toInt.tmod b.toInt, ?_, ?_, ?_, Int.dvd_self_sub_tmod⟩
    · exact Int64.toInt_mod a b ▸ gives rfl (congrArg Except.ok (if_neg hzero))
    · rw [Int.natAbs_tmod]
      exact Nat.mod_lt _ (Int.natAbs_pos.mpr hb)
    · by_cases hdvd : b.toInt ∣ a.toInt
      · exact .inl (Int.tmod_eq_zero_of_dvd hdvd)
      · exact .inr (by rw [Int.sign_tmod, if_neg hdvd])
  case shiftLeft => exact Word.toInt_shiftLeft a b ▸ gives rfl rfl
  case shiftRight => exact Word.toInt_shiftRight a b ▸ gives rfl rfl
  case shiftRightUnsigned =>
    have hlow : 0 ≤ a.toInt % 2 ^ 32 ∧ a.toInt % 2 ^ 32 ≤ 2 ^ 32 - 1 := by omega
    have hpow : (0 : Int) ≤ 2 ^ (b.toInt % 32).toNat := Int.pow_nonneg (by decide)
    refine ⟨_, Word.toInt_shiftRightUnsigned a b ▸ gives rfl rfl, rfl, ?_⟩
    rw [Int.fdiv_eq_ediv_of_nonneg _ hpow]
    exact ⟨Int.ediv_nonneg hlow.1 hpow, (Int.ediv_le_self _ hlow.1).trans hlow.2⟩
  case bits =>
    refine ⟨_, _, _, gives rfl rfl, gives rfl rfl, gives rfl rfl, fun i => ?_, ?_, ?_⟩
    · simp only [Word.testBit_toInt, Int64.toBitVec_and, Int64.toBitVec_or, Int64.toBitVec_xor,
        BitVec.getLsbD_and, BitVec.getLsbD_or, BitVec.getLsbD_xor, and_self]
    · have hsum := congrArg Int64.toInt (Word.and_add_or a b)
      rw [Int64.toInt_add, Int64.toInt_add] at hsum
      exact (Word.modEq_bmod _).trans (hsum ▸ (Word.modEq_bmod _).symm)
    · rw [← Word.or_sub_and, Int64.toInt_sub]
      exact (Word.modEq_bmod _).symm

-- The least integer by minus one: the quotient would not fit a word, and nothing is left over. The
-- count of the shifts is 63.
theorem exact_of_countsAs_extremes :
    CountsAs (.int Int64.minValue) Int64.minValue ∧ CountsAs (.int (-1)) (-1) ∧
    ((Value.int Int64.minValue).isNothing && (Value.int (-1)).isNothing) = false ∧
    Heap.empty.Gives Host.bare .multiply (.int Int64.minValue) (.int (-1)) (-2 ^ 63) ∧
    (∃ rest : Int, Heap.empty.Gives Host.bare .modulo (.int Int64.minValue) (.int (-1)) rest ∧
      rest.natAbs < 1) ∧
    Heap.empty.Gives Host.bare .shiftLeft (.int Int64.minValue) (.int (-1)) 0 ∧
    Heap.empty.Gives Host.bare .shiftRight (.int Int64.minValue) (.int (-1)) (-1) := by
  have hx : CountsAs (.int Int64.minValue) Int64.minValue := .integer _
  have hy : CountsAs (.int (-1)) (-1) := .integer _
  have h := exact_of_countsAs Host.bare Heap.empty hx hy rfl
  obtain ⟨rest, hgives, hlt, -⟩ := h.modulo (by decide)
  exact ⟨hx, hy, rfl, h.multiply, ⟨rest, hgives, hlt⟩, h.shiftLeft, h.shiftRight⟩

end

end Heap

end ScriptEngine
