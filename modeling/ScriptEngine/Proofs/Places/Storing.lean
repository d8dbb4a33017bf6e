import ScriptEngine.Proofs.Heap.Elements
import ScriptEngine.Proofs.Places.Updates
import ScriptEngine.Proofs.Scopes.Assignment

-- Assignments to elements and properties, and what is read behind them. A write and a read turn a key
-- into an index or a name each on its own, and they come to the same one.

namespace ScriptEngine

namespace Heap

variable {before after : Heap} {ref : ObjectRef} {name : String} {value : Value}

namespace Binds

variable (h : before.Binds ref name value after)
include h

end Binds

end Heap

variable {σ : Type} {host : Host σ} {below : Below σ} {context : Context}

namespace Place

end Place

namespace Expr

variable {value target : Expr} {machine middle last : Machine σ} {new : Value} {place : Place}

section Parts

variable (hvalue : value.eval host below context machine = (.done new, middle))
  (hplace : target.findPlace host below context middle = (.done place, last)) (offset : Nat)
include hvalue hplace

-- An assignment with its parts evaluated comes to one write, unless the key clashes.

theorem eval_assign_of_clashes (hc : place.clashes last.heap) :
    (assign offset target value).eval host below context machine = (.crashed, last) := by
  rw [eval]
  simp only [Run.bind_apply, hvalue, store_eq_findPlace, hplace, Place.hold_apply, hc, if_true]

end Parts

section Sample

end Sample

end Expr

end ScriptEngine
