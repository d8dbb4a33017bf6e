import Mathlib.Data.List.Induction
import Mathlib.Data.List.Nodup
import ScriptEngine.Native.Standard
import ScriptEngine.Proofs.Registry.Building

-- What a registry puts on a new object. Constants, native functions and objects are registered in any
-- order and under any names, and an object that is registered again takes the place of the earlier one.

namespace ScriptEngine

namespace Registry

-- What is put on the root, in this order.
def entries (registry : Registry) : List (String × Content) :=
  registry.constants.map Content.valueEntry ++ registry.methods.map Content.nativeEntry ++
    registry.objects.map Content.objectEntry

variable {heap before after : Heap} {root : ObjectRef} {entries : List (String × Content)}

-- An object other than the root that is as its blueprint says.
def Apart (heap : Heap) (root : ObjectRef) (blueprint : Blueprint) (ref : ObjectRef) : Prop :=
  ref ≠ root ∧ blueprint.Built heap ref

-- The root carries what the entries have put on it, objects of their own included.
def Stocked (heap : Heap) (root : ObjectRef) (entries : List (String × Content)) : Prop :=
  heap.Carries (Apart heap root) root entries

theorem stocked_of_touches (h : after.Carries (Apart before root) root entries)
    (ht : before.Touches root after) : Stocked after root entries :=
  h.of_object_eq rfl (Nat.le_refl _) (fun _ _ hn => hn) fun _ _ hb =>
    ⟨hb.1, hb.2.of_touches ht hb.1⟩

namespace Stocked

theorem set (h : Stocked heap root entries) {content : Content} {value : Value}
    (hc : content.ShownBy heap (Apart heap root) value) (name : String) :
    Stocked (heap.set root name value) root (entries ++ [(name, content)]) :=
  stocked_of_touches (Heap.Carries.set h hc name) (heap.touches_set root name value)

theorem constants (h : Stocked heap root entries) (constants : List (String × Value)) :
    Stocked (constants.foldl (fun heap entry => heap.set root entry.1 entry.2) heap) root
      (entries ++ constants.map Content.valueEntry) := by
  induction constants generalizing heap entries with
  | nil => simpa using h
  | cons first rest ih =>
    have hfirst := h.set (show (Content.value first.2).ShownBy heap _ first.2 from rfl) first.1
    have hrest := ih hfirst
    rwa [List.append_assoc] at hrest

theorem methods (h : Stocked heap root entries) (natives : List (String × Native)) :
    Stocked (heap.installNatives root natives) root
      (entries ++ natives.map Content.nativeEntry) :=
  stocked_of_touches (h.installNatives natives) (heap.touches_installNatives root natives)

theorem build (h : Stocked heap root entries) (blueprint : Blueprint) :
    Stocked (blueprint.build heap).2 root entries := by
  have htouches := blueprint.touches_build heap h.inside
  exact h.of_object_eq ((blueprint.adds_build heap).object root h.inside) htouches.size
    htouches.natives fun _ _ hb => ⟨hb.1, hb.2.of_touches htouches hb.1⟩

theorem objects (h : Stocked heap root entries) (objects : List Blueprint) :
    Stocked (objects.foldl (fun heap blueprint =>
        (blueprint.build heap).2.set root blueprint.name (.object (blueprint.build heap).1)) heap)
      root (entries ++ objects.map Content.objectEntry) := by
  induction objects generalizing heap entries with
  | nil => simpa using h
  | cons first rest ih =>
    have hne : (first.build heap).1 ≠ root := fun he =>
      Nat.ne_of_gt h.inside (congrArg ObjectRef.index he)
    have hshown : (Content.object first).ShownBy (first.build heap).2
        (Apart (first.build heap).2 root) (.object (first.build heap).1) :=
      ⟨_, rfl, hne, first.built_build heap⟩
    have hrest := ih ((h.build first).set hshown first.name)
    rwa [List.append_assoc] at hrest

end Stocked

theorem stocked_install (registry : Registry) (hr : root.index < heap.objects.size)
    (he : (heap.object root).properties = .empty) :
    Stocked (registry.install heap root) root registry.entries := by
  have hstart : Stocked heap root [] := ⟨hr, he ▸ .empty⟩
  exact ((hstart.constants registry.constants).methods registry.methods).objects registry.objects

end Registry

-- A call that registers something.
inductive Registration where
  | constant (name : String) (value : Value)
  | method (name : String) (native : Native)
  | object (blueprint : Blueprint)

namespace Registration

def name : Registration → String
  | constant name _ | method name _ => name
  | object blueprint => blueprint.name

-- What calls of one kind put under their names.

def constant? : Registration → Option (String × Content)
  | constant name value => some (Content.valueEntry (name, value))
  | _ => none

def method? : Registration → Option (String × Content)
  | method name native => some (Content.nativeEntry (name, native))
  | _ => none

def object? : Registration → Option (String × Content)
  | object blueprint => some (Content.objectEntry blueprint)
  | _ => none

-- What calls leave under a name: the last object, or else the last native function, or else the last
-- constant that was registered for it.
def last? (calls : List Registration) (name : String) : Option Content :=
  ((calls.filterMap object?).reverse.lookup name).or
    (((calls.filterMap method?).reverse.lookup name).or
      ((calls.filterMap constant?).reverse.lookup name))

end Registration

namespace Registry

def register (registry : Registry) : Registration → Registry
  | .constant name value => registry.registerConstant name value
  | .method name native => registry.registerMethod name native
  | .object blueprint => registry.registerObject blueprint

-- The registry that calls make of a new one.
def ofCalls (calls : List Registration) : Registry :=
  calls.foldl register .empty

-- The names of constants, then those of native functions, in the order of their calls, and those of
-- the objects that are there in the end.
def order (calls : List Registration) : List String :=
  (calls.filterMap Registration.constant?).map Prod.fst ++
    (calls.filterMap Registration.method?).map Prod.fst ++ (ofCalls calls).objectNames

variable (calls : List Registration)

theorem ofCalls_concat (call : Registration) :
    ofCalls (calls ++ [call]) = (ofCalls calls).register call := by
  rw [ofCalls, List.foldl_append]
  rfl

theorem objectNames_registerObject (registry : Registry) (blueprint : Blueprint) :
    (registry.registerObject blueprint).objectNames =
      registry.objectNames.filter (· ≠ blueprint.name) ++ [blueprint.name] := by
  rw [objectNames, registerObject, List.map_append, objectNames, List.filter_map]
  rfl

theorem constants_ofCalls :
    (ofCalls calls).constants.map Content.valueEntry = calls.filterMap Registration.constant? := by
  induction calls using List.reverseRecOn with
  | nil => rfl
  | append_singleton calls call ih =>
    rw [ofCalls_concat, List.filterMap_append, ← ih]
    cases call <;> simp [register, registerConstant, registerMethod, registerObject,
      Registration.constant?]

theorem methods_ofCalls :
    (ofCalls calls).methods.map Content.nativeEntry = calls.filterMap Registration.method? := by
  induction calls using List.reverseRecOn with
  | nil => rfl
  | append_singleton calls call ih =>
    rw [ofCalls_concat, List.filterMap_append, ← ih]
    cases call <;> simp [register, registerConstant, registerMethod, registerObject,
      Registration.method?]

theorem nodup_objectNames_ofCalls : (ofCalls calls).objectNames.Nodup := by
  induction calls using List.reverseRecOn with
  | nil => exact .nil
  | append_singleton calls call ih =>
    rw [ofCalls_concat]
    cases call with
    | constant _ _ | method _ _ => exact ih
    | object blueprint =>
      rw [register, objectNames_registerObject]
      refine List.nodup_append.mpr ⟨ih.filter _, List.pairwise_singleton _ _, ?_⟩
      rintro name hm other ho rfl
      simp [List.mem_singleton.mp ho] at hm

-- A registration takes the place of earlier ones, which a look-up from the end does not see anyway.
theorem lookup_objects_ofCalls (name : String) :
    ((ofCalls calls).objects.map Content.objectEntry).reverse.lookup name =
      (calls.filterMap Registration.object?).reverse.lookup name := by
  induction calls using List.reverseRecOn with
  | nil => rfl
  | append_singleton calls call ih =>
    rw [ofCalls_concat, List.filterMap_append]
    cases call with
    | constant _ _ | method _ _ =>
      have hnone (call : Registration) (hc : call.object? = none) :
          calls.filterMap Registration.object? ++ [call].filterMap Registration.object? =
            calls.filterMap Registration.object? := by simp [hc]
      rw [hnone _ rfl]
      exact ih
    | object blueprint =>
      have hfilter : ((ofCalls calls).objects.filter (·.name ≠ blueprint.name)).map
          Content.objectEntry = ((ofCalls calls).objects.map Content.objectEntry).filter
            (·.1 ≠ blueprint.name) := by
        rw [List.filter_map]
        rfl
      rw [register, registerObject, List.map_append, hfilter, List.reverse_append,
        List.reverse_append, ← List.filter_reverse, List.lookup_append, List.lookup_append,
        Properties.lookup_filter _ (· ≠ blueprint.name), ih]
      by_cases hn : name = blueprint.name <;>
        simp [Registration.object?, Content.objectEntry, hn]

theorem lookup_entries_ofCalls (name : String) :
    (ofCalls calls).entries.reverse.lookup name = Registration.last? calls name := by
  rw [entries, List.reverse_append, List.reverse_append, List.lookup_append, List.lookup_append,
    lookup_objects_ofCalls, constants_ofCalls, methods_ofCalls, Registration.last?]

theorem names_entries_ofCalls : (ofCalls calls).entries.map Prod.fst = order calls := by
  rw [entries, List.map_append, List.map_append, constants_ofCalls, methods_ofCalls, List.map_map]
  rfl

theorem mem_objectNames_ofCalls (name : String) : name ∈ (ofCalls calls).objectNames ↔
    name ∈ (calls.filterMap Registration.object?).map Prod.fst := by
  induction calls using List.reverseRecOn with
  | nil => rfl
  | append_singleton calls call ih =>
    rw [ofCalls_concat, List.filterMap_append, List.map_append, List.mem_append, ← ih]
    cases call with
    | constant _ _ | method _ _ =>
      simp [register, registerConstant, registerMethod, Registration.object?, objectNames]
    | object blueprint =>
      rw [register, objectNames_registerObject]
      by_cases hn : name = blueprint.name <;>
        simp [Registration.object?, Content.objectEntry, hn]

-- The names are those of the calls.
theorem mem_order (name : String) :
    name ∈ order calls ↔ ∃ call ∈ calls, call.name = name := by
  simp only [order, List.mem_append, mem_objectNames_ofCalls, List.mem_map, List.mem_filterMap]
  constructor
  · rintro ((⟨entry, ⟨call, hm, he⟩, rfl⟩ | ⟨entry, ⟨call, hm, he⟩, rfl⟩) |
      ⟨entry, ⟨call, hm, he⟩, rfl⟩) <;> cases call <;> cases he <;> exact ⟨_, hm, rfl⟩
  · rintro ⟨call, hm, rfl⟩
    cases call with
    | constant name value => exact .inl (.inl ⟨_, ⟨_, hm, rfl⟩, rfl⟩)
    | method name native => exact .inl (.inr ⟨_, ⟨_, hm, rfl⟩, rfl⟩)
    | object blueprint => exact .inr ⟨_, ⟨_, hm, rfl⟩, rfl⟩

-- Where names are not repeated, an entry is found under its name.
theorem lookup_of_mem {entries : List (String × Content)} (hn : (entries.map Prod.fst).Nodup)
    {name : String} {content : Content} (hm : (name, content) ∈ entries) :
    entries.lookup name = some content := by
  obtain ⟨front, back, rfl⟩ := List.append_of_mem hm
  refine List.lookup_eq_some_iff.mpr ⟨front, back, rfl, fun entry hf => ?_⟩
  rw [List.map_append, List.nodup_append] at hn
  have hne := hn.2.2 entry.1 (List.mem_map.mpr ⟨entry, hf, rfl⟩) name (by simp)
  simpa using Ne.symm hne

theorem last?_of_object? {calls : List Registration} {name : String} {blueprint : Blueprint}
    (h : (ofCalls calls).object? name = some blueprint) :
    Registration.last? calls name = some (.object blueprint) := by
  have hname : blueprint.name = name := by simpa using List.find?_some h
  have hm : (name, Content.object blueprint) ∈
      ((ofCalls calls).objects.map Content.objectEntry).reverse :=
    List.mem_reverse.mpr (List.mem_map.mpr ⟨blueprint, List.mem_of_find?_eq_some h, by
      rw [Content.objectEntry, hname]⟩)
  rw [← lookup_entries_ofCalls, entries, List.reverse_append, List.lookup_append,
    lookup_of_mem ?_ hm, Option.some_or]
  rw [List.map_reverse, List.nodup_reverse, List.map_map]
  exact nodup_objectNames_ofCalls calls

-- What calls have put on an object: exactly the names of the calls, without repetitions and in the
-- order of their first entries, each with what the calls leave under it.
structure Installed (calls : List Registration) (heap : Heap) (root : ObjectRef) : Prop where
  nodup : (heap.names root).Nodup
  names (name : String) : name ∈ heap.names root ↔ ∃ call ∈ calls, call.name = name
  ordered : (heap.names root).Pairwise fun first second =>
    (order calls).idxOf first < (order calls).idxOf second
  values (name : String) : Option.Rel (Content.ShownBy heap (Apart heap root))
    (Registration.last? calls name) (heap.get? root name)

theorem installed_ofCalls {heap : Heap} {root : ObjectRef} (hr : root.index < heap.objects.size)
    (he : (heap.object root).properties = .empty) :
    Installed calls ((ofCalls calls).install heap root) root := by
  have hstocked := (stocked_install (ofCalls calls) hr he).replays
  have hordered := hstocked.ordered
  rw [names_entries_ofCalls] at hordered
  refine ⟨hstocked.nodup, fun name => ?_, hordered, fun name => ?_⟩
  · exact (hstocked.names name).trans (by rw [names_entries_ofCalls, mem_order])
  · rw [← lookup_entries_ofCalls]
    exact hstocked.values name

-- Whatever is registered in whatever order, a new object gets exactly the registered names in the order
-- of their first entries, and under each of them the last object, or else the last native function, or
-- else the last constant. The names of the objects never repeat, a repeated registration moves its name
-- to the end, and a method that an object is said to have is a native function on the installed one.
theorem install_ofCalls {heap : Heap} {root : ObjectRef} (hr : root.index < heap.objects.size)
    (he : (heap.object root).properties = .empty) :
    let after := (ofCalls calls).install heap root
    Installed calls after root ∧ (ofCalls calls).objectNames.Nodup ∧
      (∀ blueprint, (ofCalls (calls ++ [.object blueprint])).objectNames =
        (ofCalls calls).objectNames.filter (· ≠ blueprint.name) ++ [blueprint.name]) ∧
      ∀ object method, (ofCalls calls).hasMethod object method → ∃ ref target native,
        after.get? root object = some (.object ref) ∧
          after.get? ref method = some (.native target) ∧ after.native? target = some native := by
  refine ⟨installed_ofCalls calls hr he, nodup_objectNames_ofCalls calls, fun blueprint => ?_,
    fun object method hm => ?_⟩
  · rw [ofCalls_concat]
    exact objectNames_registerObject _ blueprint
  · unfold hasMethod at hm
    cases hobject : (ofCalls calls).object? object with
    | none => simp [hobject] at hm
    | some blueprint =>
      rw [hobject] at hm
      have hlast := last?_of_object? hobject
      rw [← lookup_entries_ofCalls] at hlast
      have hstocked := stocked_install (ofCalls calls) hr he
      obtain ⟨value, hvalue, ref, rfl, -, hbuilt⟩ := hstocked.replays.exists_of_lookup hlast
      obtain ⟨target, native, hmethod, hnative⟩ := hbuilt.exists_native hm
      exact ⟨ref, target, native, hvalue, hmethod, hnative⟩

section Sample

-- The calls that make a registry of its kind.
def toCalls (registry : Registry) : List Registration :=
  registry.constants.map (fun entry => .constant entry.1 entry.2) ++
    registry.methods.map (fun entry => .method entry.1 entry.2) ++ registry.objects.map .object

-- More calls under names of the standard globals, of the same kind and of others.
def collidingCalls : List Registration :=
  standard.toCalls ++
    [.constant "Math" .null, .method "NaN" (.global .isNaN),
      .object ⟨"parseInt", [("radix", .global .parseInt)], [("radix", .int 10)], none⟩,
      .object arrayProvider, .constant "eval" .undefined]

theorem install_ofCalls_colliding :
    let heap := (Heap.empty.addObject .empty).2
    let root := (Heap.empty.addObject .empty).1
    let after := (ofCalls collidingCalls).install heap root
    ofCalls standard.toCalls = standard ∧ root.index < heap.objects.size ∧
      (heap.object root).properties = .empty ∧ Installed collidingCalls after root ∧
      after.names root = ["Infinity", "NaN", "undefined", "Math", "eval", "typeof", "exec",
        "parseInt", "parseFloat", "isNaN", "isFinite", "Object", "String", "Number", "Boolean",
        "console", "Array"] ∧
      (ofCalls collidingCalls).objectNames =
        ["Object", "String", "Number", "Boolean", "Math", "console", "parseInt", "Array"] ∧
      (ofCalls collidingCalls).hasMethod "parseInt" "radix" ∧
      ∃ ref target native, after.get? root "parseInt" = some (.object ref) ∧
        after.get? ref "radix" = some (.native target) ∧ after.native? target = some native := by
  have hr : (Heap.empty.addObject .empty).1.index < (Heap.empty.addObject .empty).2.objects.size := by
    decide
  have hm : (ofCalls collidingCalls).hasMethod "parseInt" "radix" := by decide +kernel
  have hall := install_ofCalls collidingCalls hr rfl
  exact ⟨rfl, hr, rfl, hall.1, by decide +kernel, by decide +kernel, hm, hall.2.2.2 _ _ hm⟩

end Sample

end Registry

end ScriptEngine
