import ScriptEngine.Engine
import ScriptEngine.Proofs.Comparison.Strict
import ScriptEngine.Proofs.Heap.Extension
import ScriptEngine.Proofs.Logging.Log

-- Instances of truth values beside texts. What `new Boolean(...)` gives is true if an argument counts
-- as true. A true one is strictly equal to the texts that spell its value, in letters of either case.
-- A false one is strictly equal to every text that does not spell the other value.

namespace ScriptEngine

variable {σ : Type}

-- The text is the word, given in small letters, but for the case of its letters.
def Spells (text word : String) : Prop :=
  text.toList.map Char.toLower = word.toList

instance (text word : String) : Decidable (Spells text word) :=
  inferInstanceAs (Decidable (_ = _))

theorem equalsIgnoringCase_true_iff (text : String) :
    equalsIgnoringCase text "true" ↔ Spells text "true" :=
  decide_eq_true_iff

-- The instance that a class of truth values makes of arguments.
def truthWrapper (class_ : ObjectRef) (arguments : List Value) : Object :=
  Object.set ⟨.wrapper (.boolean (arguments.any Value.isTruthy)), .empty⟩ "prototype" (.object class_)

namespace Heap

theorem object_addObject (heap : Heap) (object : Object) :
    (heap.addObject object).2.object ⟨heap.objects.size⟩ = object := by
  simp [addObject, Heap.object]

-- The kind of a new object is there to stay.
theorem instance?_of_extends {heap later : Heap} {object : Object}
    (h : (heap.addObject object).2.Extends later) :
    (later.object ⟨heap.objects.size⟩).instance? = object.instance? := by
  have hkind := h.kind ⟨heap.objects.size⟩ (by simp [addObject])
  rw [object_addObject] at hkind
  unfold Object.instance?
  rw [hkind]

-- Whichever side it stands on, the instance answers for its value.
theorem strictlyEqual_truth {heap : Heap} {ref : ObjectRef} {truth : Bool}
    (h : (heap.object ref).instance? = some (.boolean truth)) (host : Host σ) (text : String) :
    heap.strictlyEqual host (.object ref) (.string text) =
      (truth == equalsIgnoringCase text "true") ∧
    heap.strictlyEqual host (.string text) (.object ref) =
      (truth == equalsIgnoringCase text "true") := by
  have hanswer : heap.wrapperSame host (.object ref) (.string text) =
      some (truth == equalsIgnoringCase text "true") := by
    rw [wrapperSame_eq, instanceOf?, h]
    rfl
  have hnone : heap.wrapperSame host (.string text) (.object ref) = none := rfl
  constructor <;> rw [strictlyEqual_eq, hanswer, hnone] <;> rfl

end Heap

section Construct

variable {machine : Machine σ} {class_ : ObjectRef}

theorem construct_truth (host : Host σ) (name : String) (arguments : List Value)
    (hclass : (machine.heap.object class_).nativeClass? = Registry.booleanClass.nativeClass) :
    construct host name class_ arguments machine =
      (.done (.object ⟨machine.heap.objects.size⟩),
        { machine with heap := (machine.heap.addObject (truthWrapper class_ arguments)).2 }) := by
  simp only [construct, bind, Run.andThen, Run.getHeap, hclass, Registry.booleanClass]
  rfl

-- An instance that is made of an argument that counts as true equals just the texts that spell its
-- value. One that is not equals all the other texts, and not only those that spell its own value.
theorem construct_truth_strictEqual (host : Host σ) (name : String) (arguments : List Value)
    (hclass : (machine.heap.object class_).nativeClass? = Registry.booleanClass.nativeClass) :
    ∃ (wrapper : Value) (after : Machine σ),
      construct host name class_ arguments machine = (.done wrapper, after) ∧
      ∀ later : Heap, after.heap.Extends later → ∀ text : String, ∃ same : Bool,
        later.applyBinary host .strictEqual wrapper (.string text) = .ok (.boolean same) ∧
        later.applyBinary host .strictEqual (.string text) wrapper = .ok (.boolean same) ∧
        ((∃ argument ∈ arguments, argument.isTruthy) → (same ↔ Spells text "true")) ∧
        ((∀ argument ∈ arguments, argument.isTruthy = false) → (same ↔ ¬ Spells text "true")) := by
  refine ⟨_, _, construct_truth host name arguments hclass, fun later hlater text => ?_⟩
  have hinstance : (later.object ⟨machine.heap.objects.size⟩).instance? =
      some (.boolean (arguments.any Value.isTruthy)) := Heap.instance?_of_extends hlater
  obtain ⟨hleft, hright⟩ := Heap.strictlyEqual_truth hinstance host text
  refine ⟨arguments.any Value.isTruthy == equalsIgnoringCase text "true", ?_, ?_, ?_, ?_⟩
  · exact congrArg (Except.ok ∘ Value.boolean) hleft
  · exact congrArg (Except.ok ∘ Value.boolean) hright
  · intro hsome
    rw [List.any_eq_true.mpr hsome, Bool.true_beq]
    exact equalsIgnoringCase_true_iff text
  · intro hnone
    have hany : arguments.any Value.isTruthy = false := List.any_eq_false.mpr fun argument hm =>
      Bool.eq_false_iff.mp (hnone argument hm)
    rw [hany, Bool.false_beq, Bool.not_eq_true', ← equalsIgnoringCase_true_iff,
      Bool.not_eq_true]

end Construct

section Sample

def standardEngine : Engine Unit :=
  Engine.create .standard ()

-- The class of truth values among the standard globals makes an instance of two arguments.
theorem construct_truth_strictEqual_shouted :
    (standardEngine.heap.object ⟨5⟩).nativeClass? = Registry.booleanClass.nativeClass ∧
    ∃ (wrapper : Value) (after : Machine Unit),
      construct Host.bare "Boolean" ⟨5⟩ [.int 0, .string "x"] standardEngine.machine =
        (.done wrapper, after) ∧
      after.heap.applyBinary Host.bare .strictEqual wrapper (.string "TRUE") = .ok (.boolean true) ∧
      after.heap.applyBinary Host.bare .strictEqual (.string "yes") wrapper =
        .ok (.boolean false) := by
  have hclass : (standardEngine.heap.object ⟨5⟩).nativeClass? =
    Registry.booleanClass.nativeClass := by decide +kernel
  obtain ⟨wrapper, after, hconstruct, hequal⟩ :=
    construct_truth_strictEqual Host.bare "Boolean" [.int 0, .string "x"] hclass
  have htruthy : ∃ argument ∈ [Value.int 0, .string "x"], argument.isTruthy :=
    ⟨.string "x", by simp, by decide⟩
  refine ⟨hclass, wrapper, after, hconstruct, ?_, ?_⟩
  · obtain ⟨same, hleft, -, htrue, -⟩ := hequal after.heap (.refl _) "TRUE"
    rwa [(htrue htruthy).mpr (by decide)] at hleft
  · obtain ⟨same, -, hright, htrue, -⟩ := hequal after.heap (.refl _) "yes"
    have hsame : same = false := Bool.eq_false_iff.mpr fun h => absurd ((htrue htruthy).mp h) (by decide)
    rwa [hsame] at hright

-- A text that spells neither value equals the instance that is false.
theorem falseWrapper_equals_other :
    ((standardEngine.evaluate Host.bare 10 "new Boolean(0) === \"x\"").1.value?.map
      Heap.empty.toText) = some "true" ∧
    ((standardEngine.evaluate Host.bare 10 "\"x\" === new Boolean()").1.value?.map
      Heap.empty.toText) = some "true" ∧
    ¬ Spells "x" "false" := by
  decide +kernel

end Sample

end ScriptEngine
