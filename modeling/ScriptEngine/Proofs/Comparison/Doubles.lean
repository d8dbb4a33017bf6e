import ScriptEngine.Heap.Ladder

-- The order of doubles. Seen from the other side it is the other way round, and a NaN has none with
-- anything. Equality and the four steps of the ladder read it off.

namespace ScriptEngine

open Float.Model (UnpackedFloat)

namespace Double

-- Both zeros are equal, and a NaN has no place in the order.
def order (a b : Float) : Option Ordering :=
  a.toModel.unpack.compare b.toModel.unpack

theorem compare_swap (a b : UnpackedFloat) : b.compare a = (a.compare b).map Ordering.swap := by
  cases a with
  | notANumber => cases b <;> rfl
  | infinity sign =>
    cases b with
    | infinity sign' => cases sign <;> cases sign' <;> rfl
    | _ => cases sign <;> rfl
  | zero sign =>
    cases b with
    | infinity sign' | finite sign' _ _ _ => cases sign' <;> rfl
    | _ => rfl
  | finite sign mantissa exponent _ =>
    cases b with
    | finite sign' mantissa' exponent' _ =>
      have hsize : (compare exponent' exponent).then (compare mantissa' mantissa) =
          ((compare exponent exponent').then (compare mantissa mantissa')).swap := by
        rw [Ordering.swap_then, ← Std.OrientedOrd.eq_swap, ← Std.OrientedOrd.eq_swap]
      cases sign with
      | negative =>
        cases sign' with
        | negative => exact congrArg (fun size => some size.swap) hsize
        | positive => rfl
      | positive =>
        cases sign' with
        | negative => rfl
        | positive => exact congrArg some hsize
    | infinity sign' => cases sign <;> cases sign' <;> rfl
    | zero _ | notANumber => cases sign <;> rfl

theorem order_swap (a b : Float) : order b a = (order a b).map Ordering.swap :=
  compare_swap _ _

theorem lt_iff {a b : Float} : a < b ↔ order a b = some .lt := by
  change decide (a.toModel < b.toModel) = true ↔ _
  rw [decide_eq_true_iff]
  change (order a b == some .lt) = true ↔ _
  rw [beq_iff_eq]

theorem beq_iff {a b : Float} : (a == b) = true ↔ order a b = some .eq := by
  change (order a b == some .eq) = true ↔ _
  rw [beq_iff_eq]

theorem beq_comm (a b : Float) : (a == b) = (b == a) := by
  rw [Bool.eq_iff_iff, beq_iff, beq_iff, order_swap a b]
  rcases order a b with _ | _ | _ | _ <;> simp

end Double

-- What the ladder asks one after the other is the order.
theorem Ladder.orderDoubles_eq_order (a b : Float) : orderDoubles a b = Double.order a b := by
  unfold orderDoubles
  simp only [gt_iff_lt, Double.lt_iff, Double.beq_iff, Double.order_swap a b]
  rcases Double.order a b with _ | _ | _ | _ <;> simp

end ScriptEngine
