import ScriptEngine.Proofs.Comparison.Strict

-- Loose equality beside strict equality. What is the same is loosely equal. An instance that has
-- answered for what it wraps is on the heap, where the ladder knows things by identity alone.

namespace ScriptEngine

open Ladder

variable {σ : Type}

namespace Ladder

theorem onInts_equal_self (value : Int64) : onInts .equal value value = .ok (.boolean true) := by
  simp [onInts, BinaryOp.compare?, orderInts]

theorem onTexts_equal_self (text : String) : onTexts .equal text text = .ok (.boolean true) := by
  simp [onTexts, BinaryOp.compare?, orderTexts]

theorem onDoubles_equal_of_order {a b : Float} (h : Double.order a b = some .eq) :
    onDoubles .equal a b = .ok (.boolean true) := by
  simp [onDoubles, BinaryOp.compare?, orderDoubles_eq_order, h]

-- What is on the heap is neither nothing nor a number.
theorem isNothing_of_isReference {value : Value} (h : isReference value) :
    value.isNothing = false := by
  cases value <;> first | rfl | cases h

theorem isNumeric_of_isReference {value : Value} (h : isReference value) :
    isNumeric value = false := by
  cases value <;> first | rfl | cases h

theorem same_eq_sameReference {a b : Value} (h : isReference a) : a.same b = a.sameReference b := by
  cases a with
  | object _ | array _ | native _ => cases b <;> rfl
  | _ => cases h

end Ladder

namespace Heap

variable {host : Host σ} {heap : Heap} {a b : Value}

-- With anything on the heap, equality is identity.
theorem equal_of_isReference (h : isReference a ∨ isReference b) :
    heap.applyBinary host .equal a b = .ok (.boolean (a.sameReference b)) := by
  have hsteps : (a.isNothing && b.isNothing) = false ∧ (isNumeric a && isNumeric b) = false := by
    simp only [Bool.and_eq_false_iff]
    obtain h | h := h
    · exact ⟨.inl (isNothing_of_isReference h), .inl (isNumeric_of_isReference h)⟩
    · exact ⟨.inr (isNothing_of_isReference h), .inr (isNumeric_of_isReference h)⟩
  simp [applyBinary, hsteps, h, onReferences]

theorem equal_of_same_number {x y : Number} (h : x.same y) :
    heap.applyBinary host .equal (.number x) (.number y) = .ok (.boolean true) := by
  cases x with
  | int x =>
    cases y with
    | int y =>
      obtain rfl := eq_of_beq h
      exact onInts_equal_self x
    | double _ => cases h
  | double x =>
    cases y with
    | int _ => cases h
    | double y => exact onDoubles_equal_of_order (Double.beq_iff.mp h)

-- What is the same is equal on each of the four steps of the ladder.
theorem equal_of_same (h : a.same b) :
    heap.applyBinary host .equal a b = .ok (.boolean true) := by
  cases a with
  | undefined | null =>
    cases b with
    | undefined | null => rfl
    | _ => cases h
  | boolean x =>
    cases b with
    | boolean y =>
      obtain rfl := of_decide_eq_true h
      exact onInts_equal_self _
    | _ => cases h
  | number x =>
    cases b with
    | number y => exact equal_of_same_number h
    | _ => cases h
  | string x =>
    cases b with
    | string y =>
      obtain rfl := of_decide_eq_true h
      exact onTexts_equal_self _
    | _ => cases h
  | object _ | array _ | native _ =>
    rw [equal_of_isReference (.inl rfl), ← same_eq_sameReference rfl, h]

-- Whether an instance on one of the two sides answers the comparison itself.
def answers (host : Host σ) (heap : Heap) (a b : Value) : Bool :=
  ((heap.wrapperSame host a b).or (heap.wrapperSame host b a)).isSome

theorem isReference_of_wrapperSame {same : Bool} (h : heap.wrapperSame host a b = some same) :
    isReference a := by
  cases a with
  | object _ => rfl
  | _ => cases h

theorem isReference_of_answers (h : heap.answers host a b) : isReference a ∨ isReference b := by
  unfold answers at h
  cases ha : heap.wrapperSame host a b with
  | some same => exact .inl (isReference_of_wrapperSame ha)
  | none =>
    rw [ha, Option.none_or] at h
    obtain ⟨same, hb⟩ := Option.isSome_iff_exists.mp h
    exact .inr (isReference_of_wrapperSame hb)

-- Strict equality implies loose equality as long as no instance has answered for what it wraps. Where
-- one has, the two sides are loosely equal only if they are the same object.
theorem equal_of_strictEqual
    (h : heap.applyBinary host .strictEqual a b = .ok (.boolean true)) :
    (heap.answers host a b = false → heap.applyBinary host .equal a b = .ok (.boolean true)) ∧
    (heap.answers host a b = true →
      heap.applyBinary host .equal a b = .ok (.boolean (a.sameReference b))) := by
  refine ⟨fun hnone => ?_, fun hanswers => equal_of_isReference (isReference_of_answers hanswers)⟩
  have hstrict : heap.strictlyEqual host a b = true := Value.boolean.inj (Except.ok.inj h)
  have hasked : (heap.wrapperSame host a b).or (heap.wrapperSame host b a) = none :=
    Option.isNone_iff_eq_none.mp (Option.isSome_eq_false_iff.mp hnone)
  rw [strictlyEqual_eq, hasked] at hstrict
  exact equal_of_same hstrict

-- An instance of a truth value, as `new Boolean(1)` makes one.
def wrappedTruth : Heap :=
  ⟨#[⟨.wrapper (.boolean true), .empty⟩], #[], #[]⟩

-- It is strictly equal to `true` and not loosely.
theorem wrappedTruth_strictly_only :
    wrappedTruth.applyBinary Host.bare .strictEqual (.object ⟨0⟩) (.boolean true) =
      .ok (.boolean true) ∧
    wrappedTruth.applyBinary Host.bare .equal (.object ⟨0⟩) (.boolean true) =
      .ok (.boolean false) :=
  ⟨rfl, rfl⟩

-- Of a text the instance is not asked, and of itself it says that it is true.
theorem equal_of_strictEqual_wrappedTruth :
    wrappedTruth.applyBinary Host.bare .strictEqual (.string "a") (.string "a") =
      .ok (.boolean true) ∧
    wrappedTruth.answers Host.bare (.string "a") (.string "a") = false ∧
    wrappedTruth.applyBinary Host.bare .equal (.string "a") (.string "a") = .ok (.boolean true) ∧
    wrappedTruth.applyBinary Host.bare .strictEqual (.object ⟨0⟩) (.object ⟨0⟩) =
      .ok (.boolean true) ∧
    wrappedTruth.answers Host.bare (.object ⟨0⟩) (.object ⟨0⟩) = true ∧
    wrappedTruth.applyBinary Host.bare .equal (.object ⟨0⟩) (.object ⟨0⟩) = .ok (.boolean true) :=
  ⟨rfl, rfl, (equal_of_strictEqual rfl).1 rfl, rfl, rfl, (equal_of_strictEqual rfl).2 rfl⟩

end Heap

end ScriptEngine
