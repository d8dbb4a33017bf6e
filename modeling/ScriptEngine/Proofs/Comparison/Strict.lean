import ScriptEngine.Eval
import ScriptEngine.Proofs.Comparison.Doubles

-- Strict equality. An instance of a native class may answer the comparison itself, the one on the left
-- first; where none does, types, functions and contents are compared step by step, and that comes to
-- sameness of values.

namespace ScriptEngine

variable {σ : Type}

theorem Number.same_comm (a b : Number) : a.same b = b.same a := by
  cases a with
  | int x =>
    cases b with
    | int y => exact BEq.comm
    | double _ => rfl
  | double x =>
    cases b with
    | int _ => rfl
    | double y => exact Double.beq_comm x y

theorem Value.sameReference_comm (a b : Value) : a.sameReference b = b.sameReference a := by
  cases a <;> cases b <;> simp [sameReference, eq_comm]

theorem Value.same_comm (a b : Value) : a.same b = b.same a := by
  cases a <;> cases b <;> simp [same, eq_comm, Number.same_comm, sameReference_comm]

namespace Heap

variable {host : Host σ} {heap : Heap}

-- Values that are the same have the same type, and both are functions or neither is.
theorem typeTag_of_same {a b : Value} (h : a.same b) :
    heap.typeTag a = heap.typeTag b ∧ heap.isFunction a = heap.isFunction b := by
  cases a <;> cases b <;> simp_all [Value.same, Value.sameReference, typeTag, isFunction]

-- Where no instance answers, equality is sameness: the types and the functions add nothing to it.
theorem strictlyEqual_eq (a b : Value) : heap.strictlyEqual host a b =
    ((heap.wrapperSame host a b).or (heap.wrapperSame host b a)).getD (a.same b) := by
  unfold strictlyEqual
  cases (heap.wrapperSame host a b).or (heap.wrapperSame host b a) with
  | some same => rfl
  | none =>
    rw [Option.getD_none]
    dsimp only
    split
    · next hapart =>
      refine (Bool.eq_false_iff.mpr fun hsame => ?_).symm
      obtain ⟨htag, hfunction⟩ := heap.typeTag_of_same hsame
      exact hapart.elim (absurd htag) (absurd hfunction)
    · cases a <;> cases b <;> rfl

-- Only an instance on the left is asked.
theorem wrapperSame_eq (a b : Value) :
    heap.wrapperSame host a b = (heap.instanceOf? a).bind (·.sameValue host heap b) := by
  unfold wrapperSame instanceOf?
  cases a with
  | object ref =>
    dsimp only
    cases (heap.object ref).instance? <;> rfl
  | _ => rfl

@[simp] theorem toNumber_number (value : Number) : heap.toNumber (.number value) = value := by
  unfold toNumber unwrap
  cases heap.objects.size <;> rfl

end Heap

namespace Instance

-- Nothing that a comparison asks of an instance tells it from the other one. An instance of a number
-- knows its own kind by the name of the class.
structure PassesFor (host : Host σ) (heap : Heap) (content model : Instance) : Prop where
  className : content.className = model.className
  primitive : content.primitive = model.primitive
  sameValue (other : Value) : content.sameValue host heap other = model.sameValue host heap other

-- It answers as an instance of a number or of a truth value does.
def AnswersByValue (host : Host σ) (heap : Heap) (content : Instance) : Prop :=
  (∃ mine, content.PassesFor host heap (.number mine)) ∨
    ∃ mine, content.PassesFor host heap (.boolean mine)

-- It has itself compared as any object.
def NeverAnswers (host : Host σ) (heap : Heap) (content : Instance) : Prop :=
  ∀ other, content.sameValue host heap other = none

variable {host : Host σ} {heap : Heap} {mine theirs : Instance}

-- Two instances that answer by their values agree about each other: of one class they compare the
-- same two values, and of two classes both say no.
theorem sameValue_comm (hm : mine.AnswersByValue host heap) (ht : theirs.AnswersByValue host heap)
    {a b : ObjectRef} (ha : (heap.object a).instance? = some mine)
    (hb : (heap.object b).instance? = some theirs) :
    mine.sameValue host heap (.object b) = theirs.sameValue host heap (.object a) := by
  obtain ⟨x, hx⟩ | ⟨x, hx⟩ := hm <;> obtain ⟨y, hy⟩ | ⟨y, hy⟩ := ht <;>
    rw [hx.sameValue, hy.sameValue] <;>
    simp only [Instance.sameValue, ha, hb, hx.className, hx.primitive, hy.className, hy.primitive]
  · simp [Instance.className, Instance.primitive, Double.beq_comm x.toDouble]
  · simp [Instance.className]
  · simp [Instance.className]
  · simp [Instance.className, Instance.primitive, Value.same_comm (.boolean x)]

end Instance

namespace Heap

-- Every instance on the heap answers as one of a number or of a truth value does, or never.
def Conventional (host : Host σ) (heap : Heap) : Prop :=
  ∀ ref content, (heap.object ref).instance? = some content →
    content.AnswersByValue host heap ∨ content.NeverAnswers host heap

-- The value is an instance of a number or of a truth value.
def Wraps (host : Host σ) (heap : Heap) (value : Value) : Prop :=
  ∃ content, heap.instanceOf? value = some content ∧ content.AnswersByValue host heap

variable {host : Host σ} {heap : Heap}

theorem Conventional.wrapperSame_eq_none (hc : heap.Conventional host) {a : Value}
    (h : ¬heap.Wraps host a) (b : Value) : heap.wrapperSame host a b = none := by
  rw [wrapperSame_eq]
  cases a with
  | object ref =>
    cases hi : heap.instanceOf? (.object ref) with
    | none => rfl
    | some content =>
      obtain hvalue | hnever := hc ref content hi
      · exact absurd ⟨content, hi, hvalue⟩ h
      · exact hnever b
  | _ => rfl

-- If both sides are asked, they give the same answer.
theorem wrapperSame_comm {a b : Value} (ha : heap.Wraps host a) (hb : heap.Wraps host b) :
    heap.wrapperSame host a b = heap.wrapperSame host b a := by
  obtain ⟨mine, hm, hmine⟩ := ha
  obtain ⟨theirs, ht, htheirs⟩ := hb
  rw [wrapperSame_eq, wrapperSame_eq, hm, ht, Option.bind_some, Option.bind_some]
  cases a with
  | object a =>
    cases b with
    | object b => exact Instance.sameValue_comm hmine htheirs hm ht
    | _ => cases ht
  | _ => cases hm

-- Strict equality is symmetric, the operator of inequality is its negation, and where no instance of
-- a number or a truth value takes part it is sameness: an integer is no double, and things on the
-- heap are compared by identity.
theorem strictlyEqual_laws (hc : heap.Conventional host) (a b : Value) :
    heap.strictlyEqual host a b = heap.strictlyEqual host b a ∧
    heap.applyBinary host .strictEqual a b = .ok (.boolean (heap.strictlyEqual host a b)) ∧
    heap.applyBinary host .strictUnequal a b = .ok (.boolean !(heap.strictlyEqual host a b)) ∧
    (¬heap.Wraps host a → ¬heap.Wraps host b → heap.strictlyEqual host a b = a.same b) := by
  refine ⟨?_, rfl, rfl, fun ha hb => ?_⟩
  · rw [strictlyEqual_eq, strictlyEqual_eq, b.same_comm]
    by_cases ha : heap.Wraps host a
    · by_cases hb : heap.Wraps host b
      · rw [wrapperSame_comm ha hb]
      · rw [hc.wrapperSame_eq_none hb, Option.or_none, Option.none_or]
    · rw [hc.wrapperSame_eq_none ha, Option.or_none, Option.none_or]
  · rw [strictlyEqual_eq, hc.wrapperSame_eq_none ha, hc.wrapperSame_eq_none hb]
    rfl

end Heap

section Sample

-- A host whose instances of numbers answer as the engine's own do, while its others never answer.
def mirroring : Host Unit :=
  { Host.bare with
    sameValue := fun _ primitive heap other =>
      match primitive with
      | .number mine => (Instance.number mine).sameValue Host.bare heap other
      | _ => none }

-- A number and a truth value of the engine, and a number and a text of the host.
def mixedInstances : Heap :=
  let wrapped (content : Instance) : Object := ⟨.wrapper content, .empty⟩
  ⟨#[wrapped (.number (.double 2.5)), wrapped (.boolean true),
      wrapped (.host ⟨"", 0⟩ "Number" (.number (.double 2.5))),
      wrapped (.host ⟨"", 1⟩ "Label" (.string "2.5"))], #[], #[]⟩

theorem conventional_mixedInstances : mixedInstances.Conventional mirroring := by
  have hdangling (index : Nat) (content : Instance) :
      (mixedInstances.object ⟨index + 4⟩).instance? ≠ some content := nofun
  rintro ⟨_ | _ | _ | _ | index⟩ content h
  · obtain rfl := Option.some.inj h
    exact .inl (.inl ⟨.double 2.5, rfl, rfl, fun _ => rfl⟩)
  · obtain rfl := Option.some.inj h
    exact .inl (.inr ⟨true, rfl, rfl, fun _ => rfl⟩)
  · obtain rfl := Option.some.inj h
    exact .inl (.inl ⟨.double 2.5, rfl, rfl, fun _ => rfl⟩)
  · obtain rfl := Option.some.inj h
    exact .inr fun _ => rfl
  · exact absurd h (hdangling index content)

-- The two numbers equal each other, and the text equals nothing but itself.
theorem strictlyEqual_laws_mixedInstances :
    mixedInstances.Conventional mirroring ∧
    mixedInstances.strictlyEqual mirroring (.object ⟨0⟩) (.object ⟨2⟩) = true ∧
    mixedInstances.strictlyEqual mirroring (.object ⟨2⟩) (.object ⟨0⟩) = true ∧
    ¬mixedInstances.Wraps mirroring (.object ⟨3⟩) ∧ ¬mixedInstances.Wraps mirroring (.string "2.5") ∧
    mixedInstances.strictlyEqual mirroring (.object ⟨3⟩) (.object ⟨3⟩) = true ∧
    mixedInstances.strictlyEqual mirroring (.object ⟨3⟩) (.string "2.5") = false := by
  have hc := conventional_mixedInstances
  have hlabel : ¬mixedInstances.Wraps mirroring (.object ⟨3⟩) := by
    rintro ⟨content, hi, hvalue⟩
    obtain rfl := Option.some.inj hi
    obtain ⟨mine, hmine⟩ | ⟨mine, hmine⟩ := hvalue <;> cases hmine.primitive
  have htext : ¬mixedInstances.Wraps mirroring (.string "2.5") := nofun
  have hequal : mixedInstances.strictlyEqual mirroring (.object ⟨0⟩) (.object ⟨2⟩) = true := by
    decide +kernel
  refine ⟨hc, hequal, ?_, hlabel, htext, ?_, ?_⟩
  · rw [← (Heap.strictlyEqual_laws hc (.object ⟨0⟩) (.object ⟨2⟩)).1]
    exact hequal
  · exact (Heap.strictlyEqual_laws hc _ _).2.2.2 hlabel hlabel
  · exact (Heap.strictlyEqual_laws hc _ _).2.2.2 hlabel htext

end Sample

end ScriptEngine
