import ScriptEngine.Program
import ScriptEngine.Properties

-- Objects: a bag of properties, and what the object is beyond that.

namespace ScriptEngine

-- A function or class that the embedding program provides, known by a label and a number of the
-- program's own choice.
structure Handler where
  label : String
  slot : Nat
deriving DecidableEq, Repr

-- A function literal with the script that its offsets refer to.
structure Closure where
  script : String
  function : Function

-- What builds the instances of a native class.
inductive Maker where
  | plain
  | number
  | boolean
  | host (handler : Handler)
deriving DecidableEq, Repr

-- A native class, which decides what `new` gives.
structure NativeClass where
  name : String
  constructable : Bool
  maker : Maker
deriving DecidableEq, Repr

-- A value wrapped by a native class.
inductive Instance where
  | number (value : Number)
  | boolean (value : Bool)
  | host (handler : Handler) (className : String) (primitive : Value)

namespace Instance

def className : Instance → String
  | number _ => "Number"
  | boolean _ => "Boolean"
  | host _ className _ => className

-- The value that stands for the instance in text and in arithmetic.
def primitive : Instance → Value
  | number value => .number value
  | boolean value => .boolean value
  | host _ _ primitive => primitive

end Instance

inductive ObjectKind where
  | ordinary
  | function (closure : Closure)
  | native (nativeClass : NativeClass)
  | wrapper (content : Instance)

structure Object where
  kind : ObjectKind
  properties : Properties

namespace Object

def empty : Object := ⟨.ordinary, .empty⟩

instance : Inhabited Object := ⟨empty⟩

def set (object : Object) (name : String) (value : Value) : Object :=
  { object with properties := object.properties.set name value }

def closure? (object : Object) : Option Closure :=
  match object.kind with
  | .function closure => some closure
  | _ => none

def instance? (object : Object) : Option Instance :=
  match object.kind with
  | .wrapper content => some content
  | _ => none

def nativeClass? (object : Object) : Option NativeClass :=
  match object.kind with
  | .native nativeClass => some nativeClass
  | _ => none

-- The object that the `prototype` property names.
def prototype? (object : Object) : Option ObjectRef :=
  match object.properties.get? "prototype" with
  | some (.object ref) => some ref
  | _ => none

end Object

end ScriptEngine
