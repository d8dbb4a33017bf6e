import ScriptEngine.Proofs.Heap.Walks

-- Values unfolded. What a text shows of a value is a finite tree, although arrays may hold themselves:
-- a branch ends where an array comes inside itself. `Unfolds` says which tree that is, by rules that
-- know nothing of a greatest depth.

namespace ScriptEngine

-- What a text shows of a value.
inductive Shape where
  | plain (text : String)
  -- An element that is undefined or null.
  | nothing
  -- An array inside itself.
  | repeated
  | list (elements : List Shape)

mutual

def Shape.text : Shape → String
  | .plain text => text
  | .nothing | .repeated => ""
  | .list elements => ",".intercalate (Shape.texts elements)

def Shape.texts : List Shape → List String
  | [] => []
  | first :: rest => first.text :: Shape.texts rest

end

namespace Heap

-- A value that holds no others: neither an array nor an instance.
def isPlain (heap : Heap) : Value → Bool
  | .array _ => false
  | .object ref => (heap.object ref).instance?.isNone
  | _ => true

mutual

-- What a value comes to inside the arrays of a path, the innermost first.
inductive Unfolds (heap : Heap) : List ArrayRef → Value → Shape → Prop where
  | plain {path : List ArrayRef} {value : Value} : heap.isPlain value →
    Unfolds heap path value (.plain (heap.plainText value))
  | content {path : List ArrayRef} {ref : ObjectRef} {content : Instance} {shape : Shape} :
    (heap.object ref).instance? = some content → Unfolds heap path content.primitive shape →
    Unfolds heap path (.object ref) shape
  | repeated {path : List ArrayRef} {ref : ArrayRef} : ref ∈ path →
    Unfolds heap path (.array ref) .repeated
  | list {path : List ArrayRef} {ref : ArrayRef} {elements : List Shape} : ref ∉ path →
    UnfoldsAll heap (ref :: path) (heap.array ref).toList elements →
    Unfolds heap path (.array ref) (.list elements)

-- What the elements of the innermost array of a path come to.
inductive UnfoldsAll (heap : Heap) : List ArrayRef → List Value → List Shape → Prop where
  | nil {path : List ArrayRef} : UnfoldsAll heap path [] []
  | nothing {path : List ArrayRef} {value : Value} {rest : List Value} {shapes : List Shape} :
    value.isNothing → UnfoldsAll heap path rest shapes →
    UnfoldsAll heap path (value :: rest) (.nothing :: shapes)
  | something {path : List ArrayRef} {value : Value} {rest : List Value} {shape : Shape}
    {shapes : List Shape} : value.isNothing = false → Unfolds heap path value shape →
    UnfoldsAll heap path rest shapes → UnfoldsAll heap path (value :: rest) (shape :: shapes)

end

variable {heap : Heap} {path : List ArrayRef} {value : Value} {shape : Shape}

section Rules

-- The value decides which rule applies.

theorem Unfolds.eq_of_isPlain (h : heap.Unfolds path value shape) (hp : heap.isPlain value) :
    shape = .plain (heap.plainText value) := by
  cases h with
  | plain _ => rfl
  | content hi _ => simp [isPlain, hi] at hp
  | repeated _ | list _ _ => cases hp

theorem Unfolds.of_instance? {ref : ObjectRef} {content : Instance}
    (h : heap.Unfolds path (.object ref) shape)
    (hi : (heap.object ref).instance? = some content) :
    heap.Unfolds path content.primitive shape := by
  cases h with
  | plain hp => simp [isPlain, hi] at hp
  | content hi' hc =>
    obtain rfl := Option.some.inj (hi'.symm.trans hi)
    exact hc

theorem Unfolds.eq_of_mem {ref : ArrayRef} (h : heap.Unfolds path (.array ref) shape)
    (hm : ref ∈ path) : shape = .repeated := by
  cases h with
  | plain hp => cases hp
  | repeated _ => rfl
  | list hn _ => exact absurd hm hn

theorem Unfolds.of_not_mem {ref : ArrayRef} (h : heap.Unfolds path (.array ref) shape)
    (hn : ref ∉ path) : ∃ elements, shape = .list elements ∧
      heap.UnfoldsAll (ref :: path) (heap.array ref).toList elements := by
  cases h with
  | plain hp => cases hp
  | repeated hm => exact absurd hm hn
  | list _ hall => exact ⟨_, rfl, hall⟩

variable {rest : List Value} {shapes : List Shape}

theorem UnfoldsAll.of_isNothing (h : heap.UnfoldsAll path (value :: rest) shapes)
    (hn : value.isNothing) : ∃ others, shapes = .nothing :: others ∧
      heap.UnfoldsAll path rest others := by
  cases h with
  | nothing _ hrest => exact ⟨_, rfl, hrest⟩
  | something hs _ _ => exact absurd hn (Bool.eq_false_iff.mp hs)

theorem UnfoldsAll.of_isNothing_eq_false (h : heap.UnfoldsAll path (value :: rest) shapes)
    (hs : value.isNothing = false) : ∃ shape others, shapes = shape :: others ∧
      heap.Unfolds path value shape ∧ heap.UnfoldsAll path rest others := by
  cases h with
  | nothing hn _ => exact absurd hn (Bool.eq_false_iff.mp hs)
  | something _ hvalue hrest => exact ⟨_, _, rfl, hvalue, hrest⟩

end Rules

mutual

theorem Unfolds.unique {path : List ArrayRef} {value : Value} {first second : Shape}
    (h : heap.Unfolds path value first) (h' : heap.Unfolds path value second) : first = second :=
  match h with
  | .plain hp => (h'.eq_of_isPlain hp).symm
  | .content hi hc => hc.unique (h'.of_instance? hi)
  | .repeated hm => (h'.eq_of_mem hm).symm
  | .list hn hall => by
    obtain ⟨elements, rfl, hall'⟩ := h'.of_not_mem hn
    rw [hall.unique hall']

theorem UnfoldsAll.unique {path : List ArrayRef} {values : List Value} {first second : List Shape}
    (h : heap.UnfoldsAll path values first) (h' : heap.UnfoldsAll path values second) :
    first = second :=
  match h with
  | .nil => by
    cases h'
    rfl
  | .nothing hn hrest => by
    obtain ⟨others, rfl, hrest'⟩ := h'.of_isNothing hn
    rw [hrest.unique hrest']
  | .something hs hvalue hrest => by
    obtain ⟨shape, others, rfl, hvalue', hrest'⟩ := h'.of_isNothing_eq_false hs
    rw [hvalue.unique hvalue', hrest.unique hrest']

end

-- Every instance was made after the object that it wraps.
def WrapsEarlier (heap : Heap) : Prop :=
  ∀ ref content inner, (heap.object ref).instance? = some content →
    content.primitive = .object inner → inner.index < ref.index

-- Following wrappers does not change what a value comes to.
theorem Unfolds.of_unwrapWithin (steps : Nat)
    (h : heap.Unfolds path (heap.unwrapWithin steps value) shape) :
    heap.Unfolds path value shape := by
  induction steps generalizing value with
  | zero => cases value <;> exact h
  | succ steps ih =>
    cases value with
    | object ref =>
      rw [unwrapWithin] at h
      cases hi : (heap.object ref).instance? with
      | none =>
        rw [hi] at h
        exact h
      | some content =>
        rw [hi] at h
        exact .content hi (ih h)
    | _ => exact h

-- The wrappers in a row lead to earlier and earlier objects, and so out of the instances.
theorem isPlain_unwrapWithin (h : heap.WrapsEarlier) {steps : Nat}
    (hs : ∀ ref, value = .object ref → (heap.object ref).instance?.isSome → ref.index < steps) :
    (∃ ref, heap.unwrapWithin steps value = .array ref) ∨
      heap.isPlain (heap.unwrapWithin steps value) := by
  induction steps generalizing value with
  | zero =>
    cases value with
    | array ref => exact .inl ⟨ref, rfl⟩
    | object ref =>
      have hnone : (heap.object ref).instance? = none :=
        Option.not_isSome_iff_eq_none.mp fun hi => absurd (hs ref rfl hi) (Nat.not_lt_zero _)
      exact .inr (by simp [unwrapWithin, isPlain, hnone])
    | _ => exact .inr rfl
  | succ steps ih =>
    cases value with
    | array ref => exact .inl ⟨ref, rfl⟩
    | object ref =>
      rw [unwrapWithin]
      cases hi : (heap.object ref).instance? with
      | none => exact .inr (by simp [isPlain, hi])
      | some content =>
        have hlt : ref.index < steps + 1 := hs ref rfl (by rw [hi]; rfl)
        exact ih fun inner hinner _ => Nat.lt_of_lt_of_le (h ref content inner hi hinner)
          (Nat.le_of_lt_succ hlt)
    | _ => exact .inr rfl

theorem isPlain_unwrap (h : heap.WrapsEarlier) (value : Value) :
    (∃ ref, heap.unwrap value = .array ref) ∨ heap.isPlain (heap.unwrap value) :=
  isPlain_unwrapWithin h fun _ _ hi =>
    have ⟨_, hc⟩ := Option.isSome_iff_exists.mp hi
    index_lt_of_instance? hc

theorem textWithin_of_isPlain {depth : Nat} (h : heap.isPlain (heap.unwrap value)) :
    heap.textWithin (depth + 1) path value = heap.plainText (heap.unwrap value) := by
  rw [textWithin]
  cases hu : heap.unwrap value with
  | array ref =>
    rw [hu] at h
    cases h
  | _ => rfl

-- Elements one by one.
theorem exists_unfoldsAll {text : Value → String}
    (h : ∀ value, ∃ shape, heap.Unfolds path value shape ∧ text value = shape.text)
    (values : List Value) :
    ∃ shapes, heap.UnfoldsAll path values shapes ∧
      (values.map fun value => if value.isNothing then "" else text value) =
        Shape.texts shapes := by
  induction values with
  | nil => exact ⟨[], .nil, rfl⟩
  | cons value rest ih =>
    obtain ⟨shapes, hrest, htexts⟩ := ih
    rw [List.map_cons, htexts]
    cases hn : value.isNothing with
    | true => exact ⟨.nothing :: shapes, .nothing hn hrest, rfl⟩
    | false =>
      obtain ⟨shape, hvalue, htext⟩ := h value
      refine ⟨shape :: shapes, .something hn hvalue hrest, ?_⟩
      rw [if_neg Bool.false_ne_true, htext, Shape.texts]

-- A reference that leads nowhere is an array without elements.
theorem exists_unfoldsAll_array {ref : ArrayRef} {text : Value → String}
    (h : ref.index < heap.arrays.size →
      ∀ value, ∃ shape, heap.Unfolds path value shape ∧ text value = shape.text) :
    ∃ shapes, heap.UnfoldsAll path (heap.array ref).toList shapes ∧
      ((heap.array ref).toList.map fun value => if value.isNothing then "" else text value) =
        Shape.texts shapes := by
  by_cases hlt : ref.index < heap.arrays.size
  · exact exists_unfoldsAll (h hlt) _
  · rw [array_of_size_le (Nat.le_of_not_lt hlt)]
    exact ⟨[], .nil, rfl⟩

-- With room for the arrays around which the value does not stand, the text is that of what the value
-- comes to.
theorem exists_unfolds (h : heap.WrapsEarlier) {path : List ArrayRef} (hn : path.Nodup)
    (hi : ∀ ref ∈ path, ref.index < heap.arrays.size) {depth : Nat}
    (hd : heap.arrays.size < depth + path.length) (value : Value) :
    ∃ shape, heap.Unfolds path value shape ∧ heap.textWithin depth path value = shape.text := by
  have hlength : path.length ≤ heap.arrays.size :=
    length_le_of_nodup ArrayRef.mk hn fun ref hm => ⟨ref.index, hi ref hm, rfl⟩
  obtain ⟨depth, rfl⟩ := Nat.exists_eq_add_of_le' (show 1 ≤ depth by omega)
  obtain ⟨ref, hu⟩ | hplain := isPlain_unwrap h value
  · suffices hshape : ∃ shape, heap.Unfolds path (.array ref) shape ∧
        heap.textWithin (depth + 1) path value = shape.text by
      obtain ⟨shape, hunfolds, htext⟩ := hshape
      exact ⟨shape, .of_unwrapWithin heap.objects.size (by rwa [← hu] at hunfolds), htext⟩
    rw [textWithin, hu]
    dsimp only
    by_cases hm : ref ∈ path
    · exact ⟨.repeated, .repeated hm, if_pos hm⟩
    · have hinside (hlt : ref.index < heap.arrays.size) (element : Value) :
          ∃ shape, heap.Unfolds (ref :: path) element shape ∧
            heap.textWithin depth (ref :: path) element = shape.text :=
        exists_unfolds h (List.nodup_cons.mpr ⟨hm, hn⟩) (List.forall_mem_cons.mpr ⟨hlt, hi⟩)
          (by rw [List.length_cons]; omega) element
      obtain ⟨shapes, hall, htexts⟩ := exists_unfoldsAll_array hinside
      refine ⟨.list shapes, .list hm hall, ?_⟩
      rw [if_neg hm, htexts, Shape.text]
  · exact ⟨.plain (heap.plainText (heap.unwrap value)),
      .of_unwrapWithin heap.objects.size (.plain hplain), textWithin_of_isPlain hplain⟩
termination_by depth

theorem joinArray_comma (ref : ArrayRef) : heap.joinArray ref "," = heap.toText (.array ref) := by
  have hself : heap.unwrap (.array ref) = .array ref := by
    unfold unwrap
    cases heap.objects.size <;> rfl
  rw [toText, textWithin, hself]
  exact (if_neg List.not_mem_nil).symm

-- Whatever arrays hold one another, every value comes to exactly one finite tree, and its text is what
-- that tree shows. So do the elements of an array inside of it, whatever stands between them.
theorem text_unfolds (h : heap.WrapsEarlier) :
    (∀ value, ∃ shape, heap.toText value = shape.text ∧
      ∀ other, heap.Unfolds [] value other ↔ other = shape) ∧
    ∀ ref, heap.joinArray ref "," = heap.toText (.array ref) ∧
      ∃ shapes, (∀ separator, heap.joinArray ref separator =
          separator.intercalate (Shape.texts shapes)) ∧
        ∀ others, heap.UnfoldsAll [ref] (heap.array ref).toList others ↔ others = shapes := by
  refine ⟨fun value => ?_, fun ref => ⟨joinArray_comma ref, ?_⟩⟩
  · obtain ⟨shape, hshape, htext⟩ :=
      exists_unfolds h List.nodup_nil nofun (Nat.lt_succ_self _) value
    exact ⟨shape, htext, fun other => ⟨(·.unique hshape), fun he => he ▸ hshape⟩⟩
  · have hinside (hlt : ref.index < heap.arrays.size) (element : Value) :
        ∃ shape, heap.Unfolds [ref] element shape ∧
          heap.textWithin heap.arrays.size [ref] element = shape.text :=
      exists_unfolds h (List.nodup_cons.mpr ⟨List.not_mem_nil, List.nodup_nil⟩)
        (List.forall_mem_singleton.mpr hlt) (Nat.lt_succ_self _) element
    obtain ⟨shapes, hall, htexts⟩ := exists_unfoldsAll_array hinside
    refine ⟨shapes, fun separator => ?_, fun others => ⟨(·.unique hall), fun he => he ▸ hall⟩⟩
    rw [joinArray, htexts]

section Sample

-- Two arrays that hold each other, the second also itself and nothing, and a third that holds the
-- second twice. Around the first there are two wrappers, the inner one held by the second array.
def ring : Heap where
  objects := #[⟨.wrapper (.host ⟨"inner", 0⟩ "Box" (.array ⟨0⟩)), .empty⟩,
    ⟨.wrapper (.host ⟨"outer", 1⟩ "Box" (.object ⟨0⟩)), .empty⟩]
  arrays := #[#[.string "a", .array ⟨1⟩], #[.array ⟨1⟩, .string "b", .null, .object ⟨0⟩],
    #[.array ⟨1⟩, .array ⟨1⟩]]
  natives := #[]

theorem ring_wrapsEarlier : ring.WrapsEarlier := by
  intro ref content inner hi hinner
  obtain ⟨index⟩ := ref
  match index with
  | 0 =>
    obtain rfl := Option.some.inj hi
    cases hinner
  | 1 =>
    obtain rfl := Option.some.inj hi
    obtain rfl := Value.object.inj hinner
    decide
  | index + 2 => cases hi

theorem text_unfolds_ring :
    ring.WrapsEarlier ∧
    (∃ shape, ring.toText (.object ⟨1⟩) = shape.text ∧
      ∀ other, ring.Unfolds [] (.object ⟨1⟩) other ↔ other = shape) ∧
    ring.toText (.object ⟨1⟩) = "a,,b,," ∧
    ring.toText (.array ⟨2⟩) = ",b,,a,,,b,,a," ∧
    ring.joinArray ⟨1⟩ "," = ring.toText (.array ⟨1⟩) ∧
    ring.joinArray ⟨1⟩ "-" = "-b--a," :=
  ⟨ring_wrapsEarlier, (text_unfolds ring_wrapsEarlier).1 _, by decide, by decide,
    ((text_unfolds ring_wrapsEarlier).2 ⟨1⟩).1, by decide⟩

end Sample

end Heap

end ScriptEngine
