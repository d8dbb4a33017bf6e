import ScriptEngine.Heap.Conversion
import ScriptEngine.Machine

-- Strict equality.

namespace ScriptEngine

variable {σ : Type}

def equalsIgnoringCase (a b : String) : Bool :=
  a.toList.map Char.toLower = b.toList.map Char.toLower

namespace Instance

-- Whether an instance equals a value by what it wraps; none to compare as for any object.
def sameValue (host : Host σ) (heap : Heap) (other : Value) : Instance → Option Bool
  | number mine => some <|
    match other with
    | .number theirs => mine.toDouble == theirs.toDouble
    | .string text =>
      !(Text.trim text.toList).isEmpty && mine.toDouble == (Number.ofText text.toList).toDouble
    | .object ref =>
      match (heap.object ref).instance? with
      | some content =>
        content.className = "Number" && mine.toDouble == (heap.toNumber content.primitive).toDouble
      | none => false
    | _ => false
  | boolean mine => some <|
    match other with
    | .boolean theirs => mine == theirs
    | .number theirs => mine == (theirs.toDouble != 0)
    | .string text => mine == equalsIgnoringCase text "true"
    | .object ref =>
      match (heap.object ref).instance? with
      | some content => content.className = "Boolean" && (Value.boolean mine).same content.primitive
      | none => false
    | _ => false
  | .host handler _ primitive => host.sameValue handler primitive heap other

end Instance

namespace Heap

-- Asks the instance on the left, if there is one.
def wrapperSame (host : Host σ) (heap : Heap) (a b : Value) : Option Bool :=
  match a with
  | .object ref =>
    match (heap.object ref).instance? with
    | some content => content.sameValue host heap b
    | none => none
  | _ => none

-- Instances compare by what they wrap. All other values need the same type, and equal contents or
-- the same reference.
def strictlyEqual (host : Host σ) (heap : Heap) (a b : Value) : Bool :=
  match (heap.wrapperSame host a b).or (heap.wrapperSame host b a) with
  | some same => same
  | none =>
    if heap.typeTag a ≠ heap.typeTag b ∨ heap.isFunction a ≠ heap.isFunction b then false
    else
      match a, b with
      | .undefined, .undefined => true
      | .null, .null => true
      | .boolean x, .boolean y => x == y
      | .string x, .string y => x == y
      | .number x, .number y => x.same y
      | _, _ => a.sameReference b

end Heap

end ScriptEngine
