import ScriptEngine.Token

-- Values of the language. Objects, arrays and native functions live on the heap and are known by
-- reference.

namespace ScriptEngine

structure ObjectRef where
  index : Nat
deriving DecidableEq, Repr

structure ArrayRef where
  index : Nat
deriving DecidableEq, Repr

structure NativeRef where
  index : Nat
deriving DecidableEq, Repr

inductive Value where
  | undefined
  | null
  | boolean (value : Bool)
  | number (value : Number)
  | string (value : String)
  | object (ref : ObjectRef)
  | array (ref : ArrayRef)
  | native (ref : NativeRef)

def Literal.toValue : Literal → Value
  | undefined => .undefined
  | null => .null
  | boolean value => .boolean value
  | number value => .number value
  | string value => .string value

namespace Value

instance : Inhabited Value := ⟨undefined⟩

def int (value : Int64) : Value :=
  number (.int value)

def double (value : Float) : Value :=
  number (.double value)

def ofNat (value : Nat) : Value :=
  int (Int64.ofNat value)

def ofChars (text : List Char) : Value :=
  string (String.ofList text)

-- Undefined and null both stand for nothing.
def isNothing : Value → Bool
  | undefined | null => true
  | _ => false

-- Whether both are the same thing on the heap.
def sameReference : Value → Value → Bool
  | object a, object b => a = b
  | array a, array b => a = b
  | native a, native b => a = b
  | _, _ => false

-- Plain values are the same if they are equal, things on the heap if they are identical.
def same : Value → Value → Bool
  | undefined, undefined => true
  | null, null => true
  | boolean a, boolean b => a = b
  | string a, string b => a = b
  | number a, number b => a.same b
  | a, b => a.sameReference b

-- Everything counts as true but nothing, false, zero, NaN and the empty string.
def isTruthy : Value → Bool
  | undefined | null => false
  | boolean value => value
  | number value => value.isTruthy
  | string value => value ≠ ""
  | object _ | array _ | native _ => true

end Value

end ScriptEngine
