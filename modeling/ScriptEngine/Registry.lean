import ScriptEngine.Heap

-- The globals of a fresh engine before they are put on the global object.

namespace ScriptEngine

-- A global object to be.
structure Blueprint where
  name : String
  methods : List (String × Native)
  properties : List (String × Value)
  nativeClass : Option NativeClass

namespace Heap

-- Sets names of an object to new native functions, one after the other.
def installNatives (heap : Heap) (ref : ObjectRef) (natives : List (String × Native)) : Heap :=
  natives.foldl (fun heap (name, native) =>
    let (native, heap) := heap.addNative native
    heap.set ref name (.native native)) heap

end Heap

-- Puts the object on the heap: first the properties, then the methods.
def Blueprint.build (blueprint : Blueprint) (heap : Heap) : ObjectRef × Heap :=
  let kind := match blueprint.nativeClass with
    | some nativeClass => ObjectKind.native nativeClass
    | none => .ordinary
  let (ref, heap) := heap.addObject ⟨kind, Properties.empty.setAll blueprint.properties⟩
  (ref, heap.installNatives ref blueprint.methods)

structure Registry where
  objects : List Blueprint
  methods : List (String × Native)
  constants : List (String × Value)

namespace Registry

def empty : Registry := ⟨[], [], []⟩

-- A later object takes the place of an earlier one with its name, and comes last.
def registerObject (registry : Registry) (blueprint : Blueprint) : Registry :=
  { registry with
    objects := registry.objects.filter (·.name ≠ blueprint.name) ++ [blueprint] }

def registerMethod (registry : Registry) (name : String) (native : Native) : Registry :=
  { registry with methods := registry.methods ++ [(name, native)] }

def registerConstant (registry : Registry) (name : String) (value : Value) : Registry :=
  { registry with constants := registry.constants ++ [(name, value)] }

def object? (registry : Registry) (name : String) : Option Blueprint :=
  registry.objects.find? (·.name = name)

def hasObject (registry : Registry) (name : String) : Bool :=
  (registry.object? name).isSome

def hasMethod (registry : Registry) (object method : String) : Bool :=
  match registry.object? object with
  | some blueprint => blueprint.methods.any (·.1 = method)
  | none => false

def objectNames (registry : Registry) : List String :=
  registry.objects.map Blueprint.name

-- Sets the constants, the methods and the objects on a root, in this order.
def install (registry : Registry) (heap : Heap) (root : ObjectRef) : Heap :=
  let heap := registry.constants.foldl (fun heap (name, value) => heap.set root name value) heap
  let heap := heap.installNatives root registry.methods
  registry.objects.foldl (fun heap blueprint =>
    let (ref, heap) := blueprint.build heap
    heap.set root blueprint.name (.object ref)) heap

end Registry

end ScriptEngine
