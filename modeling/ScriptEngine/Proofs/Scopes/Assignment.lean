import ScriptEngine.Proofs.Heap.Extension
import ScriptEngine.Proofs.Places.Place

-- Assignments along a chain of frames. A read walks the whole chain and an assignment reaches its two
-- ends only, so that a frame between them can hide what has just been assigned.

namespace ScriptEngine

-- The entries after a binding of a name: the entry of that name is replaced where it stands, and a new
-- one comes last.
inductive Properties.Binds (name : String) (value : Value) :
    List (String × Value) → List (String × Value) → Prop where
  | replaced (front back : List (String × Value)) (old : Value) : name ∉ front.map Prod.fst →
      Binds name value (front ++ (name, old) :: back) (front ++ (name, value) :: back)
  | added {entries : List (String × Value)} : name ∉ entries.map Prod.fst →
      Binds name value entries (entries ++ [(name, value)])

theorem Properties.Binds.cons {name : String} {value : Value} {before after : List (String × Value)}
    (h : Binds name value before after) {entry : String × Value} (hne : name ≠ entry.1) :
    Binds name value (entry :: before) (entry :: after) := by
  cases h with
  | replaced front back old hf => exact .replaced (entry :: front) back old (by simp [hne, hf])
  | added hr => exact .added (by simp [hne, hr])

theorem Properties.binds_setEntries (name : String) (value : Value)
    (entries : List (String × Value)) : Binds name value entries (setEntries name value entries) := by
  induction entries with
  | nil => exact .added List.not_mem_nil
  | cons entry rest ih =>
    obtain ⟨key, old⟩ := entry
    rw [setEntries]
    split
    · next hk =>
      obtain rfl : key = name := hk
      exact .replaced [] rest old List.not_mem_nil
    · next hk => exact ih.cons fun h => hk h.symm

-- A heap that differs from another one in one binding of one object.
structure Heap.Binds (before : Heap) (ref : ObjectRef) (name : String) (value : Value)
    (after : Heap) : Prop where
  arrays : after.arrays = before.arrays
  natives : after.natives = before.natives
  size : after.objects.size = before.objects.size
  others (other : ObjectRef) : other ≠ ref → after.object other = before.object other
  kind : (after.object ref).kind = (before.object ref).kind
  entries : Properties.Binds name value (before.object ref).properties.entries
    (after.object ref).properties.entries

theorem Heap.binds_set {heap : Heap} {ref : ObjectRef} (hr : ref.index < heap.objects.size)
    (name : String) (value : Value) : heap.Binds ref name value (heap.set ref name value) := by
  have hset : (heap.set ref name value).object ref = (heap.object ref).set name value := by
    rw [object_set, if_pos ⟨rfl, hr⟩]
  refine ⟨rfl, rfl, by simp [set, modifyObject], fun other ho => ?_, ?_, ?_⟩
  · rw [object_set, if_neg fun h => ho h.1.symm]
  · rw [hset]
    rfl
  · rw [hset]
    exact Properties.binds_setEntries _ _ _

namespace Scope

-- The frames of a chain, the innermost one first and the global object last.
def frames (scope : Scope) : List ObjectRef :=
  scope.inner ++ [scope.root]

-- The frames strictly between the innermost one and the root.
def between (scope : Scope) : List ObjectRef :=
  scope.inner.tail

-- The chain from one of the frames of another chain on outwards.
def IsPart (outer scope : Scope) : Prop :=
  outer.root = scope.root ∧ outer.inner <:+ scope.inner

variable {scope outer : Scope} {heap : Heap} {name : String} {value : Value}

theorem IsPart.frames_subset (h : outer.IsPart scope) : outer.frames ⊆ scope.frames := by
  intro frame hf
  obtain hi | hr := List.mem_append.mp hf
  · exact List.mem_append_left _ (h.2.subset hi)
  · rw [List.mem_singleton.mp hr, h.1]
    exact List.mem_append_right _ List.mem_cons_self

theorem find?_eq_findSome? :
    scope.find? heap name = scope.frames.findSome? (heap.get? · name) := by
  rw [find?, frames, List.findSome?_append]
  cases scope.inner.findSome? (heap.get? · name) <;> simp

-- Frames that have the same value for a name give the same answer.
theorem findSome?_get?_congr {after : Heap} {frames : List ObjectRef}
    (h : ∀ frame ∈ frames, after.get? frame name = heap.get? frame name) :
    frames.findSome? (after.get? · name) = frames.findSome? (heap.get? · name) := by
  induction frames with
  | nil => rfl
  | cons frame rest ih =>
    rw [List.forall_mem_cons] at h
    rw [List.findSome?_cons, List.findSome?_cons, h.1, ih h.2]

theorem frame_mem_frames : scope.frame ∈ scope.frames := by
  unfold frame frames
  cases scope.inner <;> simp

theorem root_mem_frames : scope.root ∈ scope.frames :=
  List.mem_append_right _ List.mem_cons_self

theorem assign_eq_set :
    scope.assign name value heap = heap.set (scope.assignee heap name) name value := by
  unfold assign assignee
  split <;> rfl

theorem assignee_mem_frames : scope.assignee heap name ∈ scope.frames := by
  unfold assignee
  split
  · exact frame_mem_frames
  · exact root_mem_frames

section Made

variable (hmade : ∀ frame ∈ scope.frames, frame.index < heap.objects.size)
include hmade

theorem get?_assign {frame : ObjectRef} (hf : frame ∈ scope.frames) (key : String) :
    (scope.assign name value heap).get? frame key =
      if scope.assignee heap name = frame ∧ name = key then some value
      else heap.get? frame key := by
  rw [assign_eq_set, Heap.get?_set _ _ _ _ _ (hmade frame hf)]

-- Only the name that is assigned changes what the parts of the chain find.
theorem find?_assign_other (hp : outer.IsPart scope) {other : String} (ho : other ≠ name) :
    outer.find? (scope.assign name value heap) other = outer.find? heap other := by
  rw [find?_eq_findSome?, find?_eq_findSome?]
  refine findSome?_get?_congr fun frame hf => ?_
  rw [get?_assign hmade (hp.frames_subset hf), if_neg fun h => ho h.2.symm]

theorem find?_assign_of_isSome (h : (heap.get? scope.frame name).isSome) :
    scope.find? (scope.assign name value heap) name = some value := by
  have htarget : scope.assignee heap name = scope.frame := if_pos h
  have hframe : (scope.assign name value heap).get? scope.frame name = some value := by
    rw [get?_assign hmade frame_mem_frames, if_pos ⟨htarget, rfl⟩]
  rw [find?]
  unfold frame at hframe
  cases hi : scope.inner with
  | nil =>
    rw [hi, List.headD_nil] at hframe
    exact hframe
  | cons first rest =>
    rw [hi, List.headD_cons] at hframe
    rw [List.findSome?_cons, hframe]

-- Where the root is bound, a frame that stands between the two ends comes first.
theorem find?_assign_of_isNone (hdistinct : scope.frames.Nodup)
    (h : heap.get? scope.frame name = none) :
    scope.find? (scope.assign name value heap) name =
      (scope.between.findSome? (heap.get? · name)).or (some value) := by
  have htarget : scope.assignee heap name = scope.root := if_neg (by simp [h])
  have hroot : (scope.assign name value heap).get? scope.root name = some value := by
    rw [get?_assign hmade root_mem_frames, if_pos ⟨htarget, rfl⟩]
  have hout : ∀ frame ∈ scope.inner, scope.root ≠ frame := fun frame hf he =>
    (List.nodup_append.mp hdistinct).2.2 frame hf scope.root List.mem_cons_self he.symm
  have hinner : scope.inner.findSome? ((scope.assign name value heap).get? · name) =
      scope.inner.findSome? (heap.get? · name) := by
    refine findSome?_get?_congr fun frame hf => ?_
    rw [get?_assign hmade (List.mem_append_left _ hf), htarget, if_neg fun h => hout frame hf h.1]
  have htail : scope.inner.findSome? (heap.get? · name) =
      scope.between.findSome? (heap.get? · name) := by
    unfold frame at h
    unfold between
    cases hi : scope.inner with
    | nil => rfl
    | cons first rest =>
      rw [hi, List.headD_cons] at h
      rw [List.findSome?_cons, h, List.tail_cons]
  rw [find?, hinner, htail, hroot]
  cases scope.between.findSome? (heap.get? · name) <;> rfl

end Made

-- An assignment sets one binding of one frame, in the innermost frame if that has the name and else in
-- the root, and leaves everything else alone. Afterwards the name has the value, unless a frame
-- between the two ends keeps its own; no other name has changed for any frame of the chain.
theorem assign_binds (hdistinct : scope.frames.Nodup)
    (hmade : ∀ frame ∈ scope.frames, frame.index < heap.objects.size) (name : String)
    (value : Value) :
    heap.Binds (if (heap.get? scope.frame name).isSome then scope.frame else scope.root) name value
        (scope.assign name value heap) ∧
      scope.find? (scope.assign name value heap) name =
        (if (heap.get? scope.frame name).isSome then some value
         else (scope.between.findSome? (heap.get? · name)).or (some value)) ∧
      ∀ outer : Scope, outer.IsPart scope → ∀ other ≠ name,
        outer.find? (scope.assign name value heap) other = outer.find? heap other := by
  refine ⟨?_, ?_, fun outer hp other ho => find?_assign_other hmade hp ho⟩
  · rw [assign_eq_set]
    exact Heap.binds_set (hmade _ assignee_mem_frames) name value
  · split
    · next h => exact find?_assign_of_isSome hmade h
    · next h => exact find?_assign_of_isNone hmade hdistinct (by simpa using h)

-- A variable of the caller is hidden from the callee's assignment, which binds the global one.
def hidingHeap : Heap :=
  ⟨#[.empty, Object.empty.set "local" (.int 1), .empty], #[], #[]⟩

def hidingScope : Scope :=
  ⟨⟨0⟩, [⟨2⟩, ⟨1⟩]⟩

theorem assign_binds_hidden :
    hidingScope.frames.Nodup ∧
      (∀ frame ∈ hidingScope.frames, frame.index < hidingHeap.objects.size) ∧
      hidingHeap.Binds ⟨0⟩ "local" (.int 3) (hidingScope.assign "local" (.int 3) hidingHeap) ∧
      hidingScope.find? (hidingScope.assign "local" (.int 3) hidingHeap) "local" =
        some (.int 1) ∧
      (Scope.ofRoot ⟨0⟩).IsPart hidingScope ∧ "leak" ≠ "local" ∧
      (Scope.ofRoot ⟨0⟩).find? (hidingScope.assign "local" (.int 3) hidingHeap) "leak" =
        (Scope.ofRoot ⟨0⟩).find? hidingHeap "leak" := by
  have hdistinct : hidingScope.frames.Nodup := by decide
  have hmade : ∀ frame ∈ hidingScope.frames, frame.index < hidingHeap.objects.size := by decide
  have hpart : (Scope.ofRoot ⟨0⟩).IsPart hidingScope := ⟨rfl, List.nil_suffix⟩
  have hname : "leak" ≠ "local" := by decide
  obtain ⟨hbinds, hfound, hother⟩ := assign_binds hdistinct hmade "local" (.int 3)
  exact ⟨hdistinct, hmade, hbinds, hfound, hpart, hname, hother _ hpart _ hname⟩

end Scope

end ScriptEngine
