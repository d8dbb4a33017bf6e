import ScriptEngine.Proofs.Comparison.Loose
import ScriptEngine.Proofs.Heap.Walks

-- The laws of the comparisons. Which step of the ladder decides does not depend on the side of an
-- operand, and each step reads its answers off an order or an identity. So equality is symmetric, a
-- comparison agrees with its mirror image, and integers and texts have exactly one of three orders.

namespace ScriptEngine

variable {σ : Type}

namespace BinaryOp

-- Strict equality and its negation decide before the ladder.
def usesLadder : BinaryOp → Bool
  | strictEqual | strictUnequal => false
  | _ => true

-- Equality, inequality and the four comparisons by size.
def compares : BinaryOp → Bool
  | equal | unequal | less | lessEqual | greater | greaterEqual => true
  | _ => false

-- The operator that asks the same from the other side.
def mirrored : BinaryOp → BinaryOp
  | less => .greater
  | greater => .less
  | lessEqual => .greaterEqual
  | greaterEqual => .lessEqual
  | operator => operator

variable {operator : BinaryOp}

theorem usesLadder_of_compares (h : operator.compares) : operator.usesLadder := by
  cases operator <;> first | rfl | cases h

theorem compares_mirrored (h : operator.compares) : operator.mirrored.compares := by
  cases operator <;> first | rfl | cases h

theorem exists_compare? (h : operator.compares) (order : Option Ordering) :
    ∃ answer, operator.compare? order = some answer := by
  cases operator <;> first | exact ⟨_, rfl⟩ | cases h

theorem compare?_mirrored (operator : BinaryOp) (order : Option Ordering) :
    operator.mirrored.compare? (order.map Ordering.swap) = operator.compare? order := by
  cases operator <;> rcases order with _ | _ | _ | _ <;> rfl

end BinaryOp

namespace Ladder

-- Both give the same value, or both refuse the type of an operand.
inductive Agree : Except Fault Value → Except Fault Value → Prop where
  | value (value : Value) : Agree (.ok value) (.ok value)
  | refused {fault other : Fault} (hf : fault.kind = .typeError) (ho : other.kind = .typeError) :
      Agree (.error fault) (.error other)

-- What operators give that compare by an order.
def ReadsOff (order : Option Ordering) (apply : BinaryOp → Except Fault Value) : Prop :=
  ∀ ⦃operator answer⦄, operator.compare? order = some answer → apply operator = .ok (.boolean answer)

theorem readsOff_onInts (a b : Int64) : ReadsOff (some (compare a b)) (onInts · a b) := by
  intro operator answer h
  have h : operator.compare? (some (orderInts a b)) = some answer := h
  simp only [onInts, h]

theorem readsOff_onDoubles (a b : Float) : ReadsOff (Double.order a b) (onDoubles · a b) := by
  intro operator answer h
  rw [← orderDoubles_eq_order] at h
  simp only [onDoubles, h]

theorem readsOff_onTexts (a b : String) : ReadsOff (some (compare a b)) (onTexts · a b) := by
  intro operator answer h
  have h : operator.compare? (some (orderTexts a b)) = some answer := h
  simp only [onTexts, h]

theorem some_compare_swap {α : Type} [Ord α] [Std.OrientedOrd α] (a b : α) :
    some (compare b a) = (some (compare a b)).map Ordering.swap := by
  rw [Option.map_some, ← Std.OrientedOrd.eq_swap]

theorem onNothing_mirrored (operator : BinaryOp) :
    onNothing operator.mirrored = onNothing operator := by
  cases operator <;> rfl

-- Things on the heap have no order. Whose type is refused may depend on the side.
theorem agree_onReferences {operator : BinaryOp} (h : operator.compares) (a b : Value) :
    Agree (onReferences operator a b) (onReferences operator.mirrored b a) := by
  cases operator with
  | equal | unequal =>
    simp only [BinaryOp.mirrored, onReferences, a.sameReference_comm b]
    exact .value _
  | less | lessEqual | greater | greaterEqual => exact .refused rfl rfl
  | _ => cases h

-- What counts as an integer, and as which one.
inductive CountsAs : Value → Int64 → Prop where
  | integer (value : Int64) : CountsAs (.int value) value
  | truth (value : Bool) : CountsAs (.boolean value) (if value then 1 else 0)
  | undefined : CountsAs .undefined 0

variable {a b : Value} {m n : Int64}

theorem CountsAs.isNumeric (h : CountsAs a m) : Ladder.isNumeric a = true := by
  cases h <;> rfl

theorem CountsAs.isDouble (h : CountsAs a m) : Ladder.isDouble a = false := by
  cases h <;> rfl

theorem CountsAs.toInt (h : CountsAs a m) : Ladder.toInt a = m := by
  cases h <;> rfl

end Ladder

namespace Heap

open Ladder

variable {host : Host σ} {heap : Heap} {operator : BinaryOp} {a b : Value}

theorem applyBinary_of_usesLadder (host : Host σ) (heap : Heap) (a b : Value)
    (h : operator.usesLadder) :
    heap.applyBinary host operator a b =
      if a.isNothing && b.isNothing then .ok (onNothing operator)
      else if isNumeric a && isNumeric b then
        if isDouble a || isDouble b then onDoubles operator (toDouble a) (toDouble b)
        else onInts operator (toInt a) (toInt b)
      else if isReference a || isReference b then onReferences operator a b
      else onTexts operator (heap.toText a) (heap.toText b) := by
  have hstrict : operator ≠ .strictEqual ∧ operator ≠ .strictUnequal := by
    constructor <;> rintro rfl <;> cases h
  rw [applyBinary, if_neg hstrict.1, if_neg hstrict.2]

-- Two operands that count as integers meet on the step for integers.
theorem applyBinary_integers (h : operator.usesLadder) {m n : Int64} (ha : CountsAs a m)
    (hb : CountsAs b n) (hn : (a.isNothing && b.isNothing) = false) :
    heap.applyBinary host operator a b = onInts operator m n := by
  rw [applyBinary_of_usesLadder _ _ _ _ h]
  simp only [hn, ha.isNumeric, hb.isNumeric, ha.isDouble, hb.isDouble, ha.toInt, hb.toInt,
    Bool.and_self, Bool.or_self, Bool.false_eq_true, if_false, if_true]

theorem applyBinary_texts (h : operator.usesLadder) (s t : String) :
    heap.applyBinary host operator (.string s) (.string t) = onTexts operator s t := by
  rw [applyBinary_of_usesLadder _ _ _ _ h, heap.toText_string, heap.toText_string]
  rfl

-- How the ladder compares two values, seen from both sides.
inductive Comparison (host : Host σ) (heap : Heap) (a b : Value) : Prop where
  | nothing (ha : ∀ operator, operator.compares →
      heap.applyBinary host operator a b = .ok (onNothing operator))
      (hb : ∀ operator, operator.compares →
        heap.applyBinary host operator b a = .ok (onNothing operator))
  | order (order : Option Ordering) (ha : ReadsOff order (heap.applyBinary host · a b))
      (hb : ReadsOff (order.map Ordering.swap) (heap.applyBinary host · b a))
  | identity (ha : ∀ operator, operator.compares →
      heap.applyBinary host operator a b = onReferences operator a b)
      (hb : ∀ operator, operator.compares →
        heap.applyBinary host operator b a = onReferences operator b a)

theorem readsOff_applyBinary {order : Option Ordering} {rung : BinaryOp → Except Fault Value}
    (hr : ReadsOff order rung)
    (h : ∀ operator, operator.compares → heap.applyBinary host operator a b = rung operator) :
    ReadsOff order (heap.applyBinary host · a b) := by
  intro operator answer he
  have hc : operator.compares := by cases operator <;> first | rfl | cases he
  exact (h operator hc).trans (hr he)

-- The tests that choose the step come out the same from both sides.
theorem comparison (host : Host σ) (heap : Heap) (a b : Value) : Comparison host heap a b := by
  have forth (operator : BinaryOp) (h : operator.compares) :=
    applyBinary_of_usesLadder host heap a b (BinaryOp.usesLadder_of_compares h)
  have back (operator : BinaryOp) (h : operator.compares) :=
    applyBinary_of_usesLadder host heap b a (BinaryOp.usesLadder_of_compares h)
  simp only [b.isNothing.and_comm, (isNumeric b).and_comm, (isDouble b).or_comm,
    (isReference b).or_comm] at back
  by_cases hn : (a.isNothing && b.isNothing) = true
  · simp only [hn, if_true] at forth back
    exact .nothing forth back
  simp only [hn] at forth back
  by_cases hnum : (isNumeric a && isNumeric b) = true
  · simp only [hnum, if_true] at forth back
    by_cases hd : (isDouble a || isDouble b) = true
    · simp only [hd, if_true] at forth back
      refine .order _ (readsOff_applyBinary (readsOff_onDoubles _ _) forth) ?_
      rw [← Double.order_swap]
      exact readsOff_applyBinary (readsOff_onDoubles _ _) back
    · simp only [hd] at forth back
      refine .order _ (readsOff_applyBinary (readsOff_onInts _ _) forth) ?_
      rw [← some_compare_swap]
      exact readsOff_applyBinary (readsOff_onInts _ _) back
  simp only [hnum] at forth back
  by_cases hr : (isReference a || isReference b) = true
  · simp only [hr, if_true] at forth back
    exact .identity forth back
  · simp only [hr] at forth back
    refine .order _ (readsOff_applyBinary (readsOff_onTexts _ _) forth) ?_
    rw [← some_compare_swap]
    exact readsOff_applyBinary (readsOff_onTexts _ _) back

theorem Comparison.equality (h : Comparison host heap a b) :
    ∃ same : Bool, heap.applyBinary host .equal a b = .ok (.boolean same) ∧
      heap.applyBinary host .equal b a = .ok (.boolean same) ∧
      heap.applyBinary host .unequal a b = .ok (.boolean !same) := by
  cases h with
  | nothing ha hb => exact ⟨true, ha _ rfl, hb _ rfl, ha _ rfl⟩
  | order order ha hb =>
    refine ⟨order == some .eq, ha rfl, (hb rfl).trans ?_, ha rfl⟩
    rcases order with _ | _ | _ | _ <;> rfl
  | identity ha hb =>
    refine ⟨a.sameReference b, ha _ rfl, ?_, ha _ rfl⟩
    rw [hb _ rfl, onReferences, b.sameReference_comm a]

theorem Comparison.agree (h : Comparison host heap a b) (hc : operator.compares) :
    Agree (heap.applyBinary host operator a b)
      (heap.applyBinary host operator.mirrored b a) := by
  have hm := BinaryOp.compares_mirrored hc
  cases h with
  | nothing ha hb =>
    rw [ha _ hc, hb _ hm, onNothing_mirrored]
    exact .value _
  | order order ha hb =>
    obtain ⟨answer, he⟩ := BinaryOp.exists_compare? hc order
    have hforth : heap.applyBinary host operator a b = .ok (.boolean answer) := ha he
    have hback : heap.applyBinary host operator.mirrored b a = .ok (.boolean answer) :=
      hb ((operator.compare?_mirrored order).trans he)
    rw [hforth, hback]
    exact .value _
  | identity ha hb =>
    rw [ha _ hc, hb _ hm]
    exact agree_onReferences hc a b

-- The comparisons answer as one order of the operands says. Exactly one of less, equal and greater
-- holds.
structure Ranked (host : Host σ) (heap : Heap) (a b : Value) (order : Ordering) : Prop where
  less : heap.applyBinary host .less a b = .ok (.boolean (order == .lt))
  equal : heap.applyBinary host .equal a b = .ok (.boolean (order == .eq))
  greater : heap.applyBinary host .greater a b = .ok (.boolean (order == .gt))
  lessEqual : heap.applyBinary host .lessEqual a b = .ok (.boolean (order == .lt || order == .eq))
  greaterEqual :
    heap.applyBinary host .greaterEqual a b = .ok (.boolean (order == .gt || order == .eq))

theorem ranked_of_readsOff {order : Ordering}
    (h : ReadsOff (some order) (heap.applyBinary host · a b)) : Ranked host heap a b order := by
  constructor <;> refine (h rfl).trans ?_ <;> cases order <;> rfl

-- Equality never fails, is symmetric and is what inequality denies. A comparison by size agrees with
-- its mirror image, or both refuse the operands. Values that count as integers, unless both are
-- nothing, stand in the order of the integers, and texts in theirs.
theorem comparison_laws (host : Host σ) (heap : Heap) (a b : Value) :
    (∃ same : Bool, heap.applyBinary host .equal a b = .ok (.boolean same) ∧
      heap.applyBinary host .equal b a = .ok (.boolean same) ∧
      heap.applyBinary host .unequal a b = .ok (.boolean !same)) ∧
    Agree (heap.applyBinary host .less a b) (heap.applyBinary host .greater b a) ∧
    Agree (heap.applyBinary host .lessEqual a b) (heap.applyBinary host .greaterEqual b a) ∧
    (∀ m n : Int64, CountsAs a m → CountsAs b n → (a.isNothing && b.isNothing) = false →
      Ranked host heap a b (compare m n)) ∧
    (∀ s t : String, a = .string s → b = .string t → Ranked host heap a b (compare s t)) := by
  have h := comparison host heap a b
  refine ⟨h.equality, h.agree rfl, h.agree rfl, fun m n ha hb hn => ?_, ?_⟩
  · refine ranked_of_readsOff (readsOff_applyBinary (readsOff_onInts m n) fun operator hc => ?_)
    exact applyBinary_integers (BinaryOp.usesLadder_of_compares hc) ha hb hn
  · rintro s t rfl rfl
    refine ranked_of_readsOff (readsOff_applyBinary (readsOff_onTexts s t) fun operator hc => ?_)
    exact applyBinary_texts (BinaryOp.usesLadder_of_compares hc) s t

-- Undefined is below true although neither is a number, and texts compare by their characters.
theorem comparison_laws_mixed :
    CountsAs .undefined 0 ∧ CountsAs (.boolean true) 1 ∧
    (Value.undefined.isNothing && (Value.boolean true).isNothing) = false ∧
    Ranked Host.bare Heap.empty .undefined (.boolean true) .lt ∧
    Ranked Host.bare Heap.empty (.string "9") (.string "10") .gt := by
  have hx : CountsAs .undefined 0 := .undefined
  have hy : CountsAs (.boolean true) 1 := .truth true
  have hnumbers := (comparison_laws Host.bare Heap.empty .undefined (.boolean true)).2.2.2.1
  have htexts := (comparison_laws Host.bare Heap.empty (.string "9") (.string "10")).2.2.2.2
  exact ⟨hx, hy, rfl, hnumbers 0 1 hx hy rfl, htexts "9" "10" rfl rfl⟩

end Heap

end ScriptEngine
