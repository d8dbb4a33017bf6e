import ScriptEngine.Eval
import ScriptEngine.Proofs.Heap.Arrays
import ScriptEngine.Proofs.Heap.Elements

-- How long arrays become. A write of an element keeps to the limit that it checks, and so does taking
-- an element away; what makes or extends an array in another way does not look at the limit.

namespace ScriptEngine

-- What scripts do to arrays.
inductive ArrayAction where
  | literal (elements : List Value)
  | push (ref : ArrayRef) (arguments : List Value)
  | pop (ref : ArrayRef)
  | split (receiver : Value) (arguments : List Value)
  | keys (arguments : List Value)
  | write (ref : ArrayRef) (key value : Value)

namespace ArrayAction

variable {σ : Type} (host : Host σ)

-- The heap after an action. A write that fails leaves it as it was.
def apply (heap : Heap) : ArrayAction → Heap
  | literal elements => (heap.addArrayValue elements).2
  | push ref arguments => (ArrayFunction.push.onArray host ref arguments heap).2
  | pop ref => (ArrayFunction.pop.onArray host ref [] heap).2
  | split receiver arguments => (StringFunction.split.apply receiver arguments heap).2
  | keys arguments => (ObjectFunction.keys.apply .undefined arguments heap).2
  | write ref key value =>
    match heap.setSubscript (.array ref) key value with
    | .ok after => after
    | .error _ => heap

-- The length of the array that an action makes or extends.
def extent (heap : Heap) : ArrayAction → Nat
  | literal elements => elements.length
  | push ref arguments =>
    if ref.index < heap.arrays.size then (heap.array ref).size + arguments.length else 0
  | split receiver arguments =>
    (StringFunction.pieces heap (heap.toText receiver).toList arguments).length
  | keys arguments => (ObjectFunction.keysOf heap (argument arguments 0)).length
  | pop _ | write _ _ _ => 0

end ArrayAction

namespace Heap

variable {σ : Type} {host : Host σ} {heap start : Heap}

-- The heap after a sequence of actions.
def afterAll (host : Host σ) (heap : Heap) (actions : List ArrayAction) : Heap :=
  actions.foldl (ArrayAction.apply host) heap

-- The number of elements up to the last index that a write reaches.
def lengthLimit : Nat :=
  indexLimit.toNatClampNeg

def Short (heap : Heap) : Prop :=
  ∀ ref, (heap.array ref).size ≤ lengthLimit

-- Every element that can be read can be overwritten.
def Overwritable (heap : Heap) : Prop :=
  ∀ ref index value, 0 ≤ index → index.toNatClampNeg < (heap.array ref).size →
    ∃ after, heap.setElement ref index value = .ok after

theorem lt_indexLimit_iff {index : Int64} (h : 0 ≤ index) :
    index < indexLimit ↔ index.toNatClampNeg < lengthLimit := by
  have hlimit : indexLimit.toInt = 16777216 := by decide
  have hlength : lengthLimit = 16777216 := by decide
  rw [Int64.le_iff_toInt_le, Int64.toInt_zero] at h
  rw [Int64.lt_iff_toInt_lt, hlimit, hlength, ← Int64.toNat_toInt]
  omega

theorem writable_of_lt {index : Int64} (h : 0 ≤ index) (hlt : index.toNatClampNeg < lengthLimit) :
    Writable index :=
  ⟨h, (lt_indexLimit_iff h).mpr hlt⟩

-- The first element behind the limit is there to be read and cannot be written.
theorem overwritable_iff_short : heap.Overwritable ↔ heap.Short := by
  constructor
  · refine fun h ref => Nat.le_of_not_lt fun hlong => ?_
    obtain ⟨after, hset⟩ := h ref indexLimit .undefined (by decide) hlong
    rw [setElement_of_not_writable (by decide)] at hset
    cases hset
  · intro h ref index value hi hlt
    exact ⟨_, setElement_of_writable (writable_of_lt hi (Nat.lt_of_lt_of_le hlt (h ref)))⟩

section Step

variable (hshort : heap.Short)
include hshort

theorem short_addArrayValue_iff (elements : List Value) :
    (heap.addArrayValue elements).2.Short ↔ elements.length ≤ lengthLimit := by
  have harray (ref : ArrayRef) : (heap.addArrayValue elements).2.array ref =
      if ref.index = heap.arrays.size then elements.toArray else heap.array ref :=
    heap.array_addArray _ _
  constructor
  · intro h
    have hnew := h ⟨heap.arrays.size⟩
    rwa [harray, if_pos rfl, List.size_toArray] at hnew
  · intro h ref
    rw [harray]
    split
    · rwa [List.size_toArray]
    · exact hshort ref

theorem short_modifyArray_iff (ref : ArrayRef) (change : Array Value → Array Value) :
    (heap.modifyArray ref change).Short ↔
      (ref.index < heap.arrays.size → (change (heap.array ref)).size ≤ lengthLimit) := by
  constructor
  · intro h hr
    have hnew := h ref
    rwa [array_modifyArray, if_pos ⟨rfl, hr⟩] at hnew
  · intro h other
    rw [array_modifyArray]
    split
    · next ho =>
      obtain ⟨rfl, hr⟩ := ho
      exact h hr
    · exact hshort other

theorem short_setSubscript {ref : ArrayRef} {key value : Value} {after : Heap}
    (h : heap.setSubscript (.array ref) key value = .ok after) : after.Short := by
  rw [setSubscript] at h
  cases hi : key.toIndex? with
  | none =>
    rw [hi] at h
    cases h
  | some index =>
    rw [hi] at h
    by_cases hw : Writable index
    · have hafter := (setElement_of_writable hw).symm.trans h
      obtain rfl := Except.ok.inj hafter
      refine (short_modifyArray_iff hshort ref _).mpr fun _ => ?_
      rw [size_place]
      exact Nat.max_le.mpr ⟨hshort ref, (lt_indexLimit_iff hw.1).mp hw.2⟩
    · have hafter := (setElement_of_not_writable hw).symm.trans h
      cases hafter

-- One action keeps all arrays within the limit exactly if it does so where it makes or extends one.
theorem short_apply_iff (action : ArrayAction) :
    (action.apply host heap).Short ↔ action.extent heap ≤ lengthLimit := by
  cases action with
  | literal elements => exact short_addArrayValue_iff hshort elements
  | push ref arguments =>
    refine (short_modifyArray_iff hshort ref _).trans ?_
    rw [ArrayAction.extent, Array.size_append, List.size_toArray]
    split
    · next hr => exact ⟨fun h => h hr, fun h _ => h⟩
    · next hr => exact ⟨fun _ => Nat.zero_le _, fun _ h => absurd h hr⟩
  | pop ref =>
    refine (short_modifyArray_iff hshort ref _).trans ⟨fun _ => Nat.zero_le _, fun _ _ => ?_⟩
    rw [Array.size_pop]
    exact Nat.le_trans (Nat.sub_le _ _) (hshort ref)
  | split receiver arguments =>
    refine (short_addArrayValue_iff hshort _).trans ?_
    rw [List.length_map]
    rfl
  | keys arguments =>
    refine (short_addArrayValue_iff hshort _).trans ?_
    rw [List.length_map]
    rfl
  | write ref key value =>
    refine ⟨fun _ => Nat.zero_le _, fun _ => ?_⟩
    rw [ArrayAction.apply]
    split
    · next after h => exact short_setSubscript hshort h
    · exact hshort

end Step

-- Along the actions no array is made or extended past the limit.
def Moderate (host : Host σ) : Heap → List ArrayAction → Prop
  | _, [] => True
  | heap, action :: rest =>
    action.extent heap ≤ lengthLimit ∧ Moderate host (action.apply host heap) rest

theorem short_afterAll_iff (hshort : start.Short) (actions : List ArrayAction) :
    (∀ front, front <+: actions → (start.afterAll host front).Short) ↔
      Moderate host start actions := by
  induction actions generalizing start with
  | nil =>
    refine ⟨fun _ => trivial, fun _ front hf => ?_⟩
    rw [List.prefix_nil.mp hf]
    exact hshort
  | cons action rest ih =>
    constructor
    · intro h
      have hfirst : (action.apply host start).Short :=
        h [action] (List.prefix_append [action] rest)
      refine ⟨(short_apply_iff hshort action).mp hfirst, (ih hfirst).mp fun front hf => ?_⟩
      exact h (action :: front) (List.cons_prefix_cons.mpr ⟨rfl, hf⟩)
    · rintro ⟨hextent, hrest⟩ front hf
      have hfirst : (action.apply host start).Short := (short_apply_iff hshort action).mpr hextent
      cases front with
      | nil => exact hshort
      | cons other front =>
        obtain ⟨rfl, hrest'⟩ := List.cons_prefix_cons.mp hf
        exact (ih hfirst).mpr hrest front hrest'

-- A full array still takes an element by `push`, which is read and cannot be overwritten.
theorem element_push_full (host : Host σ) {ref : ArrayRef} (hr : ref.index < heap.arrays.size)
    (hfull : (heap.array ref).size = lengthLimit) (value : Value) :
    let after := (ArrayAction.push ref [value]).apply host heap
    (after.array ref).size = lengthLimit + 1 ∧ after.element ref indexLimit = value ∧
      ∀ other, after.setElement ref indexLimit other = .error (.invalidIndex indexLimit) := by
  have harray : ((ArrayAction.push ref [value]).apply host heap).array ref =
      (heap.array ref).push value := (array_modifyArray ..).trans (if_pos ⟨rfl, hr⟩)
  refine ⟨?_, ?_, fun other => setElement_of_not_writable (by decide)⟩
  · rw [harray, Array.size_push, hfull]
  · have hlast : indexLimit.toNatClampNeg = (heap.array ref).size := hfull.symm
    rw [element, if_neg (by decide), harray, Array.getElem?_push, if_pos hlast]
    rfl

theorem apply_write {ref : ArrayRef} {key value : Value} {index : Int64}
    (hi : key.toIndex? = some index) (hw : Writable index) :
    (ArrayAction.write ref key value).apply host heap =
      heap.modifyArray ref (place · index.toNatClampNeg value) := by
  rw [ArrayAction.apply, setSubscript, hi]
  dsimp only
  rw [setElement_of_writable hw]

-- From arrays whose elements can all be overwritten, they can all be all along exactly if no literal,
-- `push`, `split` or list of keys comes to more elements than the limit. Writes and `pop` never do.
theorem overwritable_afterAll_iff (host : Host σ) {start : Heap} (h : start.Overwritable)
    (actions : List ArrayAction) :
    (∀ front, front <+: actions → (start.afterAll host front).Overwritable) ↔
      Moderate host start actions := by
  simp only [overwritable_iff_short] at h ⊢
  exact short_afterAll_iff h actions

section Sample

def sampleActions : List ArrayAction :=
  [.literal [.int 1], .push ⟨0⟩ [.int 2, .int 3], .write ⟨0⟩ (.int 5) (.int 4), .pop ⟨0⟩,
    .split (.string "a,b") [.string ","], .keys [.array ⟨0⟩]]

theorem overwritable_afterAll_sample :
    Heap.empty.Overwritable ∧ Moderate Host.bare .empty sampleActions ∧
      (Heap.empty.afterAll Host.bare sampleActions).Overwritable ∧
      ((Heap.empty.afterAll Host.bare sampleActions).array ⟨0⟩).size = 5 := by
  have hempty : Heap.empty.Overwritable := by
    intro ref index value _ hlt
    rw [Heap.array_of_size_le (Nat.zero_le _)] at hlt
    exact absurd hlt (Nat.not_lt_zero _)
  have hmoderate : Moderate Host.bare .empty sampleActions := by
    refine ⟨?_, ?_, ?_, ?_, ?_, ?_, trivial⟩ <;> decide +kernel
  exact ⟨hempty, hmoderate,
    (overwritable_afterAll_iff Host.bare hempty sampleActions).mpr hmoderate _ List.prefix_rfl,
    by decide +kernel⟩

-- A write to the last index in reach, and an element pushed behind it.
def pushedPast : Heap :=
  Heap.empty.afterAll Host.bare
    [.literal [], .write ⟨0⟩ (.int 16777215) (.int 1), .push ⟨0⟩ [.int 2]]

theorem pushedPast_not_overwritable :
    (pushedPast.array ⟨0⟩).size = 16777217 ∧ pushedPast.element ⟨0⟩ 16777216 = .int 2 ∧
      (∀ value, pushedPast.setElement ⟨0⟩ 16777216 value = .error (.invalidIndex 16777216)) ∧
      ¬ pushedPast.Overwritable := by
  have hputs : (Heap.empty.addArrayValue []).2.Puts ⟨0⟩ 16777215 (.int 1)
      ((ArrayAction.write ⟨0⟩ (.int 16777215) (.int 1)).apply Host.bare
        (Heap.empty.addArrayValue []).2) := by
    rw [apply_write rfl (by decide)]
    exact puts_modifyArray (by decide) (by decide)
  obtain ⟨hsize, hread, hrefused⟩ : (pushedPast.array ⟨0⟩).size = 16777217 ∧
      pushedPast.element ⟨0⟩ 16777216 = .int 2 ∧
      ∀ value, pushedPast.setElement ⟨0⟩ 16777216 value = .error (.invalidIndex 16777216) :=
    element_push_full Host.bare (by rw [hputs.size]; decide) hputs.length (.int 2)
  refine ⟨hsize, hread, hrefused, fun h => ?_⟩
  obtain ⟨after, hset⟩ := h ⟨0⟩ 16777216 .undefined (by decide) (by rw [hsize]; decide)
  rw [hrefused] at hset
  cases hset

end Sample

end Heap

end ScriptEngine
