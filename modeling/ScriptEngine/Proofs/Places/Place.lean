import ScriptEngine.Proofs.Runs.Computation

-- Places. A target of an assignment names one once its parts have values, and from then on the place
-- says what a read gives and which cell of the heap a write changes. A variable is read where the
-- innermost frame has it and written in the innermost frame or else in the root, so that its two
-- cells can differ; for a property and an element they are the same.

namespace ScriptEngine

variable {σ ε α β : Type}

namespace Run

-- A computation that succeeds is one that does so in each of its steps.
theorem bind_eq_done {run : Run σ ε α} {next : α → Run σ ε β} {machine after : Machine σ}
    {value : β} : (run >>= next) machine = (.done value, after) ↔
      ∃ first middle, run machine = (.done first, middle) ∧
        next first middle = (.done value, after) := by
  rw [bind_apply]
  rcases run machine with ⟨ending, middle⟩
  cases ending with
  | done first =>
    constructor
    · intro h
      exact ⟨_, middle, rfl, h⟩
    · rintro ⟨_, _, ⟨⟩, h⟩
      exact h
  | failed _ | crashed | spent => simp

theorem pure_eq_done {machine after : Machine σ} {first value : α} :
    (pure first : Run σ ε α) machine = (.done value, after) ↔ first = value ∧ machine = after := by
  change (Ending.done first, machine) = _ ↔ _
  simp

theorem getHeap_eq_done {machine after : Machine σ} {heap : Heap} :
    (getHeap : Run σ ε Heap) machine = (.done heap, after) ↔
      machine.heap = heap ∧ machine = after := by
  change (Ending.done machine.heap, machine) = _ ↔ _
  simp

theorem ofExcept_eq_done {result : Except ε α} {machine after : Machine σ} {value : α} :
    ofExcept result machine = (.done value, after) ↔ result = .ok value ∧ machine = after := by
  cases result with
  | ok first =>
    change (pure first : Run σ ε α) machine = _ ↔ _
    rw [pure_eq_done, Except.ok.injEq]
  | error error =>
    change (Ending.failed error, machine) = _ ↔ _
    simp

theorem locate_eq_done {location : Location} {run : Run σ Fault α} {machine after : Machine σ}
    {value : α} :
    locate location run machine = (.done value, after) ↔ run machine = (.done value, after) := by
  unfold locate
  rcases run machine with ⟨ending, middle⟩
  cases ending <;> simp

theorem changeHeap_eq_done {change : Heap → Except Fault Heap} {machine after : Machine σ}
    {u : Unit} : changeHeap change machine = (.done u, after) ↔
      ∃ heap, change machine.heap = .ok heap ∧ { machine with heap } = after := by
  unfold changeHeap
  cases change machine.heap <;> simp

theorem bind_assoc {γ : Type} (run : Run σ ε α) (next : α → Run σ ε β) (last : β → Run σ ε γ) :
    (run >>= next) >>= last = run >>= fun value => next value >>= last := by
  funext machine
  simp only [bind_apply]
  rcases run machine with ⟨ending, middle⟩
  cases ending <;> rfl

end Run

inductive Place where
  | named (name : String)
  | property (container : Value) (name : String)
  | element (container key : Value)

namespace Place

-- The value at a place.
def value (scope : Scope) (heap : Heap) : Place → Value
  | named name => (scope.find? heap name).getD .undefined
  | property container name => heap.property container name
  | element container key => heap.subscript container key

-- Stores a value at a place.
def store (scope : Scope) (value : Value) (heap : Heap) : Place → Except Fault Heap
  | named name => .ok (scope.assign name value heap)
  | property container name => heap.setProperty container name value
  | element container key => heap.setSubscript container key value

-- Whether the key cannot be written.
def clashes (heap : Heap) : Place → Bool
  | element container key => heap.clashes container key
  | named _ | property _ _ => false

-- Holds what contains the place for a write.
def hold : Place → Run σ ε Unit
  | element container key => Run.hold container key
  | named _ | property _ _ => pure ()

theorem hold_apply (place : Place) (machine : Machine σ) :
    (place.hold : Run σ ε Unit) machine =
      (if place.clashes machine.heap then .crashed else .done (), machine) := by
  cases place with
  | element container key => exact Run.hold_apply container key machine
  | _ => rfl

theorem hold_eq_done {place : Place} {machine after : Machine σ} {u : Unit} :
    (place.hold : Run σ ε Unit) machine = (.done u, after) ↔
      place.clashes machine.heap = false ∧ machine = after := by
  rw [hold_apply]
  cases place.clashes machine.heap <;> simp

end Place

namespace Expr

-- The expressions that name a place.
def isTarget : Expr → Bool
  | identifier _ _ | dot _ _ _ | subscript _ _ _ => true
  | _ => false

section

variable (host : Host σ) (below : Below σ) (context : Context)

-- Evaluates the parts of a target from left to right, each of them once.
def findPlace : Expr → Run σ Error Place
  | identifier _ name => return .named name
  | dot _ target name => do
    let container ← target.eval host below context
    return .property container name
  | subscript _ target index => do
    let container ← target.eval host below context
    let key ← index.eval host below context
    return .element container key
  | target => Run.fail ⟨.notAssignable, context.at target.offset⟩

-- A read of a target is a pass over its parts and then a read of the place.
theorem eval_eq_findPlace {target : Expr} (h : target.isTarget) : target.eval host below context = (do
    let place ← target.findPlace host below context
    let heap ← Run.getHeap
    return place.value context.scope heap) := by
  cases target with
  | identifier offset name =>
    rw [eval]
    rfl
  | dot offset target name =>
    rw [eval, findPlace, Run.bind_assoc]
    rfl
  | subscript offset target index =>
    rw [eval, findPlace, Run.bind_assoc]
    simp only [Run.bind_assoc]
    rfl
  | _ => cases h

-- And so is a write, whatever the target.
theorem store_eq_findPlace (target : Expr) (value : Value) :
    target.store host below context value = (do
      let place ← target.findPlace host below context
      place.hold
      Run.locate (context.at target.offset)
        (Run.changeHeap fun heap => place.store context.scope value heap)) := by
  cases target with
  | identifier offset name =>
    rw [store]
    rfl
  | dot offset target name =>
    rw [store, findPlace, Run.bind_assoc]
    rfl
  | subscript offset target index =>
    rw [store, findPlace, Run.bind_assoc]
    simp only [Run.bind_assoc]
    rfl
  | _ => rfl

theorem isTarget_of_findPlace {target : Expr} {machine after : Machine σ} {place : Place}
    (h : target.findPlace host below context machine = (.done place, after)) : target.isTarget := by
  cases target with
  | identifier _ _ | dot _ _ _ | subscript _ _ _ => rfl
  | _ => cases h

end

end Expr

-- What a write changes: a property of an object or an element of an array.
inductive Cell where
  | property (ref : ObjectRef) (name : String)
  | element (ref : ArrayRef) (index : Nat)
deriving DecidableEq

namespace Heap

def read (heap : Heap) : Cell → Value
  | .property ref name => (heap.get? ref name).getD .undefined
  | .element ref index => ((heap.array ref)[index]?).getD .undefined

def write (heap : Heap) (value : Value) : Cell → Heap
  | .property ref name => heap.set ref name value
  | .element ref index => heap.modifyArray ref (Heap.place · index value)

end Heap

namespace Scope

-- The frame that a read of a name looks at: the innermost one that has it, or else the root.
def holder (scope : Scope) (heap : Heap) (name : String) : ObjectRef :=
  (scope.inner.find? fun frame => (heap.get? frame name).isSome).getD scope.root

-- The frame that an assignment to a name binds it in.
def assignee (scope : Scope) (heap : Heap) (name : String) : ObjectRef :=
  if (heap.get? scope.frame name).isSome then scope.frame else scope.root

-- The innermost frame has the name, or none inside of the root does.
def Direct (scope : Scope) (heap : Heap) (name : String) : Prop :=
  (heap.get? scope.frame name).isSome ∨ ∀ frame ∈ scope.inner, heap.get? frame name = none

variable {scope : Scope} {heap : Heap} {name : String}

theorem find?_eq_holder : scope.find? heap name = heap.get? (scope.holder heap name) name := by
  obtain ⟨root, inner⟩ := scope
  unfold find? holder
  dsimp only
  induction inner with
  | nil => rfl
  | cons frame rest ih =>
    cases hf : heap.get? frame name with
    | some value => simp [hf]
    | none => simpa [hf] using ih

theorem holder_eq_assignee (h : scope.Direct heap name) :
    scope.holder heap name = scope.assignee heap name := by
  obtain ⟨root, inner⟩ := scope
  unfold holder assignee frame
  dsimp only
  cases inner with
  | nil => simp
  | cons frame rest =>
    obtain hf | hnone := h
    · have hf : (heap.get? frame name).isSome := hf
      simp [hf]
    · have hfind : (frame :: rest).find? (fun frame => (heap.get? frame name).isSome) = none := by
        refine List.find?_eq_none.mpr fun other hm => ?_
        simp [hnone other hm]
      rw [hfind]
      simp [hnone frame List.mem_cons_self]

end Scope

namespace Place

-- The cell of a place, with the frame of a variable given.
def cell? (frame : String → ObjectRef) (heap : Heap) : Place → Option Cell
  | named name => some (.property (frame name) name)
  | property (.object ref) name => some (.property ref name)
  | property _ _ => none
  | element (.array ref) key =>
    match key.toIndex? with
    | some index => if index < 0 then none else some (.element ref index.toNatClampNeg)
    | none => none
  | element (.object ref) key => some (.property ref (heap.toText key))
  | element _ _ => none

-- The cell that a read looks at.
def source? (scope : Scope) (heap : Heap) (place : Place) : Option Cell :=
  place.cell? (scope.holder heap) heap

-- The cell that a write changes.
def sink? (scope : Scope) (heap : Heap) (place : Place) : Option Cell :=
  place.cell? (scope.assignee heap) heap

variable {scope : Scope} {heap after : Heap} {place : Place} {cell : Cell}

theorem value_eq_read (h : place.source? scope heap = some cell) :
    place.value scope heap = heap.read cell := by
  cases place with
  | named name =>
    obtain rfl := Option.some.inj h
    exact congrArg (Option.getD · .undefined) Scope.find?_eq_holder
  | property container name =>
    cases container with
    | object ref =>
      obtain rfl := Option.some.inj h
      rfl
    | _ => cases h
  | element container key =>
    cases container with
    | object ref =>
      obtain rfl := Option.some.inj h
      rfl
    | array ref =>
      simp only [source?, cell?] at h
      simp only [value, Heap.subscript]
      cases hi : key.toIndex? with
      | none =>
        rw [hi] at h
        cases h
      | some index =>
        simp only [hi] at h
        split at h
        · cases h
        · next hn =>
          obtain rfl := Option.some.inj h
          simp [Heap.element, hn, Heap.read]
    | _ => cases h

-- A write that succeeds changes the one cell.
theorem store_eq_write {value : Value} (h : place.store scope value heap = .ok after) :
    ∃ cell, place.sink? scope heap = some cell ∧ after = heap.write value cell := by
  cases place with
  | named name =>
    obtain rfl := Except.ok.inj h
    refine ⟨_, rfl, ?_⟩
    unfold Scope.assign Scope.assignee Heap.write
    split <;> rfl
  | property container name =>
    cases container with
    | object ref =>
      obtain rfl := Except.ok.inj h
      exact ⟨_, rfl, rfl⟩
    | _ => cases h
  | element container key =>
    cases container with
    | object ref =>
      obtain rfl := Except.ok.inj h
      exact ⟨_, rfl, rfl⟩
    | array ref =>
      simp only [store, Heap.setSubscript] at h
      simp only [sink?, cell?]
      cases hi : key.toIndex? with
      | none =>
        rw [hi] at h
        cases h
      | some index =>
        simp only [hi, Heap.setElement] at h
        split at h
        · cases h
        · next hn =>
          obtain rfl := Except.ok.inj h
          exact ⟨.element ref index.toNatClampNeg, if_neg fun hlt => hn (.inl hlt), rfl⟩
    | _ => cases h

end Place

end ScriptEngine
