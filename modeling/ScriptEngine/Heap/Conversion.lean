import ScriptEngine.Heap
import ScriptEngine.Number.Reader

-- Types of values, and values as numbers and as text.

namespace ScriptEngine

inductive TypeTag where
  | undefined | null | boolean | string | number | object | array | function
deriving DecidableEq, Repr

def TypeTag.text : TypeTag → String
  | undefined => "undefined"
  | null => "null"
  | boolean => "boolean"
  | string => "string"
  | number => "number"
  | object => "object"
  | array => "array"
  | function => "function"

namespace Heap

def typeTag (heap : Heap) : Value → TypeTag
  | .undefined => .undefined
  | .null => .null
  | .boolean _ => .boolean
  | .string _ => .string
  | .number _ => .number
  | .array _ => .array
  | .native _ => .function
  | .object ref => if (heap.object ref).closure?.isSome then .function else .object

-- What the operator `typeof` answers: null and arrays are objects to it.
def typeOf (heap : Heap) (value : Value) : String :=
  match heap.typeTag value with
  | .null | .array => TypeTag.object.text
  | tag => tag.text

-- The number that a value stands for.
def toNumber (heap : Heap) (value : Value) : Number :=
  match heap.unwrap value with
  | .undefined | .object _ | .array _ | .native _ => .double Double.nan
  | .null => .int 0
  | .boolean value => .int (if value then 1 else 0)
  | .number value => value
  | .string value => Number.ofText value.toList

-- The text of a value that holds no others.
def plainText (heap : Heap) : Value → String
  | .undefined => "undefined"
  | .null => "null"
  | .boolean value => if value then "true" else "false"
  | .number value => value.text
  | .string value => value
  | .array _ => ""
  | .native _ => "function () \x7b [native code] \x7d"
  | .object ref =>
    match (heap.object ref).kind with
    | .function closure => "function " ++ closure.function.source
    | .native nativeClass => "[object " ++ nativeClass.name ++ "]"
    | .ordinary => "[object Object]"
    | .wrapper _ => ""

-- The text of a value inside the arrays `within`, with room for `depth` more of them. Such an array
-- itself has no text, and elements that are nothing have none.
def textWithin (heap : Heap) : Nat → List ArrayRef → Value → String
  | 0, _, _ => ""
  | depth + 1, within, value =>
    match heap.unwrap value with
    | .array ref =>
      if ref ∈ within then ""
      else
        ",".intercalate ((heap.array ref).toList.map fun element =>
          if element.isNothing then "" else heap.textWithin depth (ref :: within) element)
    | plain => heap.plainText plain

-- The text of a value. Arrays nest no deeper than there are arrays before one repeats.
def toText (heap : Heap) (value : Value) : String :=
  heap.textWithin (heap.arrays.size + 1) [] value

-- Whether an object is met on the way to the value inside all wrappers.
def meetsWithin (heap : Heap) (target : ObjectRef) : Nat → Value → Bool
  | 0, .object ref => ref = target
  | steps + 1, .object ref =>
    ref = target ||
      match (heap.object ref).instance? with
      | some content => heap.meetsWithin target steps content.primitive
      | none => false
  | _, _ => false

-- Whether an object is looked at for the text of a value inside the arrays `within`.
def visitsWithin (heap : Heap) (target : ObjectRef) : Nat → List ArrayRef → Value → Bool
  | 0, _, _ => false
  | depth + 1, within, value =>
    heap.meetsWithin target heap.objects.size value ||
      match heap.unwrap value with
      | .array ref =>
        if ref ∈ within then false
        else (heap.array ref).toList.any fun element =>
          !element.isNothing && heap.visitsWithin target depth (ref :: within) element
      | _ => false

-- Whether an object is looked at for the text of a value.
def textVisits (heap : Heap) (target : ObjectRef) (value : Value) : Bool :=
  heap.visitsWithin target (heap.arrays.size + 1) [] value

-- The texts of the elements with a separator between them.
def joinArray (heap : Heap) (ref : ArrayRef) (separator : String) : String :=
  separator.intercalate ((heap.array ref).toList.map fun element =>
    if element.isNothing then "" else heap.textWithin heap.arrays.size [ref] element)

end Heap

end ScriptEngine
