import ScriptEngine.Heap

-- Chains of frames. Names are looked up from the innermost frame outwards; the root is the global
-- object.

namespace ScriptEngine

structure Scope where
  root : ObjectRef
  -- The frames inside the root, innermost first.
  inner : List ObjectRef

namespace Scope

def ofRoot (root : ObjectRef) : Scope :=
  ⟨root, []⟩

def child (scope : Scope) (frame : ObjectRef) : Scope :=
  { scope with inner := frame :: scope.inner }

-- The innermost frame.
def frame (scope : Scope) : ObjectRef :=
  scope.inner.headD scope.root

-- The number of frames around the innermost one.
def depth (scope : Scope) : Nat :=
  scope.inner.length

-- The value of a name in the innermost frame that has it.
def find? (scope : Scope) (heap : Heap) (name : String) : Option Value :=
  match scope.inner.findSome? fun frame => heap.get? frame name with
  | some value => some value
  | none => heap.get? scope.root name

-- Binds a name in the innermost frame.
def declare (scope : Scope) (name : String) (value : Value) (heap : Heap) : Heap :=
  heap.set scope.frame name value

-- Binds a name where the innermost frame has it, and else in the root.
def assign (scope : Scope) (name : String) (value : Value) (heap : Heap) : Heap :=
  if (heap.get? scope.frame name).isSome then heap.set scope.frame name value
  else heap.set scope.root name value

-- The name under which a frame keeps the receiver of its call.
def receiverName : String := "this"

-- The receiver of the nearest call; the global object outside of all calls.
def receiver (scope : Scope) (heap : Heap) : Value :=
  (scope.find? heap receiverName).getD (.object scope.root)

-- A frame for a call with its receiver.
def callFrame (receiver : Value) : Object :=
  Object.empty.set receiverName receiver

end Scope

end ScriptEngine
