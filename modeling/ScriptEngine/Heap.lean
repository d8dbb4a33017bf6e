import ScriptEngine.Native

-- The things that values refer to. They are never removed, so a reference stays good.

namespace ScriptEngine

structure Heap where
  objects : Array Object
  arrays : Array (Array Value)
  natives : Array Native

namespace Heap

def empty : Heap := ⟨#[], #[], #[]⟩

instance : Inhabited Heap := ⟨empty⟩

-- A reference that leads nowhere counts as an empty object.
def object (heap : Heap) (ref : ObjectRef) : Object :=
  (heap.objects[ref.index]?).getD .empty

def array (heap : Heap) (ref : ArrayRef) : Array Value :=
  (heap.arrays[ref.index]?).getD #[]

def native? (heap : Heap) (ref : NativeRef) : Option Native :=
  heap.natives[ref.index]?

def addObject (heap : Heap) (object : Object) : ObjectRef × Heap :=
  (⟨heap.objects.size⟩, { heap with objects := heap.objects.push object })

def addArray (heap : Heap) (elements : Array Value) : ArrayRef × Heap :=
  (⟨heap.arrays.size⟩, { heap with arrays := heap.arrays.push elements })

def addNative (heap : Heap) (native : Native) : NativeRef × Heap :=
  (⟨heap.natives.size⟩, { heap with natives := heap.natives.push native })

def modifyObject (heap : Heap) (ref : ObjectRef) (change : Object → Object) : Heap :=
  { heap with objects := heap.objects.modify ref.index change }

def modifyArray (heap : Heap) (ref : ArrayRef) (change : Array Value → Array Value) : Heap :=
  { heap with arrays := heap.arrays.modify ref.index change }

def get? (heap : Heap) (ref : ObjectRef) (name : String) : Option Value :=
  (heap.object ref).properties.get? name

def set (heap : Heap) (ref : ObjectRef) (name : String) (value : Value) : Heap :=
  heap.modifyObject ref (·.set name value)

def erase (heap : Heap) (ref : ObjectRef) (name : String) : Heap :=
  heap.modifyObject ref fun object => { object with properties := object.properties.erase name }

def names (heap : Heap) (ref : ObjectRef) : List String :=
  (heap.object ref).properties.names

def addObjectValue (heap : Heap) (object : Object) : Value × Heap :=
  let (ref, heap) := heap.addObject object
  (.object ref, heap)

def addArrayValue (heap : Heap) (elements : List Value) : Value × Heap :=
  let (ref, heap) := heap.addArray elements.toArray
  (.array ref, heap)

-- Looks a name up on an object and then along `steps` prototype links.
def findAlong (heap : Heap) (name : String) : Nat → ObjectRef → Option Value
  | steps, ref =>
    match heap.get? ref name with
    | some value => some value
    | none =>
      match steps, (heap.object ref).prototype? with
      | steps + 1, some next => heap.findAlong name steps next
      | _, _ => none

-- Looks a name up on an object and its prototypes. Without a repetition the chain has no more links
-- than there are objects.
def find? (heap : Heap) (ref : ObjectRef) (name : String) : Option Value :=
  heap.findAlong name heap.objects.size ref

def isFunction (heap : Heap) : Value → Bool
  | .native _ => true
  | .object ref => (heap.object ref).closure?.isSome
  | _ => false

-- Follows wrappers to the value inside, at most `steps` times.
def unwrapWithin (heap : Heap) : Nat → Value → Value
  | steps + 1, .object ref =>
    match (heap.object ref).instance? with
    | some content => heap.unwrapWithin steps content.primitive
    | none => .object ref
  | _, value => value

-- The value inside all wrappers. A wrapper is made after its content, so there are fewer of them in
-- a row than objects.
def unwrap (heap : Heap) (value : Value) : Value :=
  heap.unwrapWithin heap.objects.size value

end Heap

end ScriptEngine
