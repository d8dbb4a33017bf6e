import Mathlib.Data.List.Basic
import Mathlib.Data.List.Induction
import ScriptEngine.Proofs.Heap.Extension
import ScriptEngine.Proofs.Properties.History
import ScriptEngine.Registry

-- Objects that entries are put on one after the other, and objects built from their blueprints. What
-- is put under a name last is what the name has in the end, and the names stand in the order in which
-- they were first put.

namespace ScriptEngine

-- What is put under a name.
inductive Content where
  | value (value : Value)
  | native (native : Native)
  | object (blueprint : Blueprint)

namespace Content

-- What constants, native functions and objects put under their names.

def valueEntry (entry : String × Value) : String × Content :=
  (entry.1, .value entry.2)

def nativeEntry (entry : String × Native) : String × Content :=
  (entry.1, .native entry.2)

def objectEntry (blueprint : Blueprint) : String × Content :=
  (blueprint.name, .object blueprint)

-- Whether a value of the heap is what was to be put, for a notion of an object built from its
-- blueprint.
def ShownBy (heap : Heap) (built : Blueprint → ObjectRef → Prop) :
    Content → Value → Prop
  | .value expected, shown => shown = expected
  | .native expected, shown => ∃ ref, shown = .native ref ∧ heap.native? ref = some expected
  | .object blueprint, shown => ∃ ref, shown = .object ref ∧ built blueprint ref

theorem ShownBy.mono {before after : Heap} {built built' : Blueprint → ObjectRef → Prop}
    (hnatives : ∀ ref native, before.native? ref = some native → after.native? ref = some native)
    (hbuilt : ∀ blueprint ref, built blueprint ref → built' blueprint ref) (content : Content)
    (shown : Value) (h : content.ShownBy before built shown) :
    content.ShownBy after built' shown := by
  cases content with
  | value expected => exact h
  | native expected =>
    obtain ⟨ref, hshown, hnative⟩ := h
    exact ⟨ref, hshown, hnatives ref expected hnative⟩
  | object blueprint =>
    obtain ⟨ref, hshown, hobject⟩ := h
    exact ⟨ref, hshown, hbuilt blueprint ref hobject⟩

end Content

-- Properties that come from putting entries one after the other: the names in the order of their first
-- entries, each with what its last entry says.
structure Properties.Replays (shows : Content → Value → Prop) (entries : List (String × Content))
    (properties : Properties) : Prop where
  names (name : String) : name ∈ properties.names ↔ name ∈ entries.map Prod.fst
  ordered : properties.names.Pairwise fun first second =>
    (entries.map Prod.fst).idxOf first < (entries.map Prod.fst).idxOf second
  values (name : String) : Option.Rel shows (entries.reverse.lookup name) (properties.get? name)

namespace Properties.Replays

variable {shows other : Content → Value → Prop} {entries : List (String × Content)}
  {properties : Properties}

theorem empty : Replays shows [] .empty :=
  ⟨fun _ => Iff.rfl, .nil, fun _ => .none⟩

theorem mono (h : properties.Replays shows entries)
    (hs : ∀ content value, shows content value → other content value) :
    properties.Replays other entries := by
  refine ⟨h.names, h.ordered, fun name => ?_⟩
  have hvalues := h.values name
  generalize entries.reverse.lookup name = content, properties.get? name = value at hvalues ⊢
  cases hvalues with
  | some hshows => exact .some (hs _ _ hshows)
  | none => exact .none

theorem nodup (h : properties.Replays shows entries) : properties.names.Nodup := by
  refine List.Pairwise.imp (fun hlt he => ?_) h.ordered
  exact Nat.ne_of_lt hlt (by rw [he])

-- One more entry.
theorem set (h : properties.Replays shows entries) {content : Content} {value : Value}
    (hs : shows content value) (name : String) :
    (properties.set name value).Replays shows (entries ++ [(name, content)]) := by
  have hold : properties.names.Pairwise fun first second =>
      ((entries ++ [(name, content)]).map Prod.fst).idxOf first <
        ((entries ++ [(name, content)]).map Prod.fst).idxOf second := by
    refine List.Pairwise.imp_of_mem (fun ha hb hlt => ?_) h.ordered
    rw [List.map_append, List.idxOf_append_of_mem ((h.names _).mp ha),
      List.idxOf_append_of_mem ((h.names _).mp hb)]
    exact hlt
  refine ⟨fun key => ?_, ?_, fun key => ?_⟩
  · rw [mem_names_set, h.names]
    simp [or_comm]
  · rw [names_set]
    split
    · exact hold
    · next hnew =>
      refine List.pairwise_append.mpr ⟨hold, List.pairwise_singleton _ _, ?_⟩
      intro first hf last hl
      obtain rfl := List.mem_singleton.mp hl
      have hlast : last ∉ entries.map Prod.fst := fun hm => hnew ((h.names last).mpr hm)
      rw [List.map_append, List.idxOf_append_of_mem ((h.names _).mp hf),
        List.idxOf_append_of_notMem hlast]
      exact Nat.lt_add_right _ (List.idxOf_lt_length_of_mem ((h.names first).mp hf))
  · rw [List.reverse_concat, List.lookup_cons, get?_set]
    by_cases hk : key = name
    · rw [if_pos hk, beq_iff_eq.mpr hk]
      exact .some hs
    · rw [if_neg hk, beq_eq_false_iff_ne.mpr hk]
      exact h.values key

theorem exists_of_lookup (h : properties.Replays shows entries) {name : String} {content : Content}
    (hl : entries.reverse.lookup name = some content) :
    ∃ value, properties.get? name = some value ∧ shows content value := by
  have hvalues := h.values name
  rw [hl] at hvalues
  generalize properties.get? name = found at hvalues
  cases hvalues with
  | some hshows => exact ⟨_, rfl, hshows⟩

end Properties.Replays

namespace Heap

variable {before middle after heap : Heap} {ref : ObjectRef}

-- A later heap in which of all earlier things at most the properties of one object have changed.
structure Touches (before : Heap) (ref : ObjectRef) (after : Heap) : Prop where
  size : before.objects.size ≤ after.objects.size
  kind : (after.object ref).kind = (before.object ref).kind
  others (other : ObjectRef) : other ≠ ref → other.index < before.objects.size →
    after.object other = before.object other
  natives (target : NativeRef) (native : Native) :
    before.native? target = some native → after.native? target = some native

theorem Touches.refl (heap : Heap) (ref : ObjectRef) : heap.Touches ref heap :=
  ⟨Nat.le_refl _, rfl, fun _ _ _ => rfl, fun _ _ h => h⟩

theorem Touches.trans (h : before.Touches ref middle) (h' : middle.Touches ref after) :
    before.Touches ref after where
  size := Nat.le_trans h.size h'.size
  kind := h'.kind.trans h.kind
  others other hne hlt :=
    (h'.others other hne (Nat.lt_of_lt_of_le hlt h.size)).trans (h.others other hne hlt)
  natives target native hn := h'.natives target native (h.natives target native hn)

theorem touches_set (heap : Heap) (ref : ObjectRef) (name : String) (value : Value) :
    heap.Touches ref (heap.set ref name value) := by
  refine ⟨by simp [set, modifyObject], ?_, fun other hne _ => ?_, fun _ _ h => h⟩
  · rw [object_set]
    split <;> rfl
  · rw [object_set, if_neg fun h => hne h.1.symm]

theorem touches_addNative (heap : Heap) (ref : ObjectRef) (native : Native) :
    heap.Touches ref (heap.addNative native).2 := by
  refine ⟨Nat.le_refl _, rfl, fun _ _ _ => rfl, fun target other h => ?_⟩
  obtain ⟨hlt, hother⟩ := Array.getElem?_eq_some_iff.mp h
  rw [native?, addNative, Array.getElem?_push_lt hlt, hother]

theorem touches_installNatives (heap : Heap) (ref : ObjectRef)
    (natives : List (String × Native)) : heap.Touches ref (heap.installNatives ref natives) := by
  unfold installNatives
  induction natives generalizing heap with
  | nil => exact .refl heap ref
  | cons first rest ih =>
    exact ((heap.touches_addNative ref first.2).trans (touches_set _ ref first.1 _)).trans (ih _)

-- An object that is there, with the properties that entries have put on it.
structure Carries (heap : Heap) (built : Blueprint → ObjectRef → Prop) (ref : ObjectRef)
    (entries : List (String × Content)) : Prop where
  inside : ref.index < heap.objects.size
  replays : (heap.object ref).properties.Replays (Content.ShownBy heap built) entries

variable {built built' : Blueprint → ObjectRef → Prop} {entries : List (String × Content)}

theorem Carries.set (h : heap.Carries built ref entries) {content : Content} {value : Value}
    (hc : content.ShownBy heap built value) (name : String) :
    (heap.set ref name value).Carries built ref (entries ++ [(name, content)]) := by
  refine ⟨Nat.lt_of_lt_of_le h.inside (heap.touches_set ref name value).size, ?_⟩
  rw [object_set, if_pos ⟨rfl, h.inside⟩]
  exact (h.replays.set hc name).mono fun content value =>
    Content.ShownBy.mono (fun _ _ hn => hn) (fun _ _ hb => hb) content value

-- As long as the object itself has not been touched, it carries what it did.
theorem Carries.of_object_eq (h : before.Carries built ref entries)
    (hobject : after.object ref = before.object ref)
    (hsize : before.objects.size ≤ after.objects.size)
    (hnatives : ∀ target native, before.native? target = some native →
      after.native? target = some native)
    (hbuilt : ∀ blueprint other, built blueprint other → built' blueprint other) :
    after.Carries built' ref entries := by
  refine ⟨Nat.lt_of_lt_of_le h.inside hsize, ?_⟩
  rw [hobject]
  exact h.replays.mono (Content.ShownBy.mono hnatives hbuilt)

theorem Carries.installNatives (h : heap.Carries built ref entries)
    (natives : List (String × Native)) : (heap.installNatives ref natives).Carries built ref
      (entries ++ natives.map Content.nativeEntry) := by
  unfold Heap.installNatives
  induction natives generalizing heap entries with
  | nil => simpa using h
  | cons first rest ih =>
    have hadded : (heap.addNative first.2).2.Carries built ref entries :=
      h.of_object_eq rfl (Nat.le_refl _) (heap.touches_addNative ref first.2).natives
        fun _ _ hb => hb
    have hnew : (Content.native first.2).ShownBy (heap.addNative first.2).2 built
        (.native (heap.addNative first.2).1) := ⟨_, rfl, Array.getElem?_push_size⟩
    have hrest := ih (hadded.set hnew first.1)
    rwa [List.append_assoc] at hrest

end Heap

namespace Blueprint

def kind (blueprint : Blueprint) : ObjectKind :=
  match blueprint.nativeClass with
  | some nativeClass => .native nativeClass
  | none => .ordinary

-- What is put on the object.
def entries (blueprint : Blueprint) : List (String × Content) :=
  blueprint.properties.map Content.valueEntry ++ blueprint.methods.map Content.nativeEntry

-- An object of the heap that is as its blueprint says.
def Built (heap : Heap) (blueprint : Blueprint) (ref : ObjectRef) : Prop :=
  (heap.object ref).kind = blueprint.kind ∧
    heap.Carries (fun _ _ => False) ref blueprint.entries

theorem replays_setAll {shows : Content → Value → Prop}
    (hs : ∀ value, shows (.value value) value) (entries : List (String × Value)) :
    (Properties.empty.setAll entries).Replays shows (entries.map Content.valueEntry) := by
  unfold Properties.setAll
  induction entries using List.reverseRecOn with
  | nil => exact .empty
  | append_singleton entries entry ih =>
    rw [List.foldl_append, List.map_append]
    exact ih.set (hs entry.2) entry.1

variable {heap before after : Heap} {root ref : ObjectRef}

theorem build_eq (blueprint : Blueprint) (heap : Heap) : blueprint.build heap =
    (⟨heap.objects.size⟩,
      (heap.addObject ⟨blueprint.kind, Properties.empty.setAll blueprint.properties⟩).2.installNatives
        ⟨heap.objects.size⟩ blueprint.methods) := rfl

theorem built_build (blueprint : Blueprint) (heap : Heap) :
    blueprint.Built (blueprint.build heap).2 (blueprint.build heap).1 := by
  rw [build_eq]
  dsimp only
  generalize hadded : (heap.addObject
    ⟨blueprint.kind, Properties.empty.setAll blueprint.properties⟩).2 = added
  have hobject : added.object ⟨heap.objects.size⟩ =
      ⟨blueprint.kind, Properties.empty.setAll blueprint.properties⟩ := by
    rw [← hadded]
    simp [Heap.addObject, Heap.object]
  have hcarries : added.Carries (fun _ _ => False) ⟨heap.objects.size⟩
      (blueprint.properties.map Content.valueEntry) := by
    refine ⟨by rw [← hadded]; simp [Heap.addObject], ?_⟩
    rw [hobject]
    exact replays_setAll (fun _ => rfl) _
  refine ⟨?_, hcarries.installNatives _⟩
  rw [(added.touches_installNatives _ _).kind, hobject]

section Build

variable (blueprint : Blueprint) (heap : Heap)

-- Building an object leaves all others alone.
theorem adds_build : heap.Adds (blueprint.build heap).2 := by
  rw [build_eq]
  generalize hadded : (heap.addObject
    ⟨blueprint.kind, Properties.empty.setAll blueprint.properties⟩).2 = added
  have hadds : heap.Adds added := hadded ▸ heap.adds_addObject _
  have htouches := added.touches_installNatives ⟨heap.objects.size⟩ blueprint.methods
  refine ⟨Nat.le_trans hadds.size htouches.size, fun other hlt => ?_⟩
  have hne : other ≠ ⟨heap.objects.size⟩ := fun he =>
    Nat.ne_of_lt hlt (congrArg ObjectRef.index he)
  rw [htouches.others other hne (Nat.lt_of_lt_of_le hlt hadds.size), hadds.object other hlt]

theorem touches_build (hr : root.index < heap.objects.size) :
    heap.Touches root (blueprint.build heap).2 where
  size := (blueprint.adds_build heap).size
  kind := congrArg Object.kind ((blueprint.adds_build heap).object root hr)
  others other _ hlt := (blueprint.adds_build heap).object other hlt
  natives target native hn := Heap.Touches.natives
    ((heap.addObject _).2.touches_installNatives _ blueprint.methods) target native hn

end Build

theorem Built.of_touches {blueprint : Blueprint} (h : blueprint.Built before ref)
    (ht : before.Touches root after) (hne : ref ≠ root) : blueprint.Built after ref := by
  have hobject := ht.others ref hne h.2.inside
  exact ⟨hobject ▸ h.1, h.2.of_object_eq hobject ht.size ht.natives fun _ _ hb => hb⟩

-- A method of a blueprint is a native function on the object, whatever else has its name.
theorem Built.exists_native {blueprint : Blueprint} (h : blueprint.Built heap ref) {method : String}
    (hm : blueprint.methods.any (·.1 = method)) : ∃ target native,
      heap.get? ref method = some (.native target) ∧ heap.native? target = some native := by
  obtain ⟨entry, hentry, hname⟩ := List.any_eq_true.mp hm
  obtain rfl : entry.1 = method := of_decide_eq_true hname
  have hsome : ((blueprint.methods.map Content.nativeEntry).reverse.lookup entry.1).isSome :=
    List.lookup_isSome_iff.mpr ⟨Content.nativeEntry entry,
      List.mem_reverse.mpr (List.mem_map.mpr ⟨entry, hentry, rfl⟩), beq_self_eq_true _⟩
  obtain ⟨content, hl⟩ := Option.isSome_iff_exists.mp hsome
  obtain ⟨front, back, hsplit, -⟩ := List.lookup_eq_some_iff.mp hl
  have hcontent : (entry.1, content) ∈ (blueprint.methods.map Content.nativeEntry).reverse := by
    simp [hsplit]
  obtain ⟨last, -, hlast⟩ := List.mem_map.mp (List.mem_reverse.mp hcontent)
  obtain rfl : Content.native last.2 = content := congrArg Prod.snd hlast
  have hentries : blueprint.entries.reverse.lookup entry.1 = some (.native last.2) := by
    rw [entries, List.reverse_append, List.lookup_append, hl, Option.some_or]
  obtain ⟨value, hvalue, target, rfl, hnative⟩ := h.2.replays.exists_of_lookup hentries
  exact ⟨target, last.2, hvalue, hnative⟩

end Blueprint

end ScriptEngine
