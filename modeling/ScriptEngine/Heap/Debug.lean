import ScriptEngine.Heap

-- A rendering of values that shows their representation.

namespace ScriptEngine

namespace Double

-- Positional with a point from 10^-4 up to 10^16, with an exponent elsewhere.
def debugText (value : Float) : List Char :=
  if value.isNaN then "NaN".toList
  else if value.isInf then if value < 0 then "-inf".toList else "inf".toList
  else
    let parts := parts value
    let digits := if parts.significand = 0 then ⟨0, 0⟩ else shortest parts
    let run := Nat.toDigits 10 digits.digits
    let sign := if parts.negative then ['-'] else []
    let size := value.abs
    if size == 0 || (1e-4 ≤ size && size < 1e16) then
      sign ++ digits.positional ++ if 0 ≤ digits.exponent then ".0".toList else []
    else
      let power := Number.intText (digits.exponent + run.length - 1)
      let after := if run.length = 1 then [] else '.' :: run.drop 1
      sign ++ run.take 1 ++ after ++ 'e' :: power

end Double

-- A text in quotes, with escapes for quotes, backslashes and control characters.
def quoted (text : List Char) : List Char :=
  let escape (c : Char) : List Char :=
    match c with
    | '"' => ['\\', '"']
    | '\\' => ['\\', '\\']
    | '\n' => ['\\', 'n']
    | '\r' => ['\\', 'r']
    | '\t' => ['\\', 't']
    | c =>
      if c.toNat = 0 then ['\\', '0']
      else if c.toNat < 32 || c.toNat = 127 then
        "\\u\x7b".toList ++ Nat.toDigits 16 c.toNat ++ "\x7d".toList
      else [c]
  '"' :: text.flatMap escape ++ ['"']

namespace Heap

-- An array inside itself is shown as three points.
def debugWithin (heap : Heap) : Nat → List ArrayRef → Value → String
  | _, _, .undefined => "JsValue::Undefined"
  | _, _, .null => "JsValue::Null"
  | _, _, .boolean value => "JsValue::Boolean(" ++ (if value then "true" else "false") ++ ")"
  | _, _, .number (.int value) => "JsValue::Number(Integer(" ++ (Number.int value).text ++ "))"
  | _, _, .number (.double value) =>
    "JsValue::Number(Float(" ++ String.ofList (Double.debugText value) ++ "))"
  | _, _, .string value => "JsValue::String(" ++ String.ofList (quoted value.toList) ++ ")"
  | _, _, .object _ => "JsValue::Object(...)"
  | _, _, .native _ => "JsValue::NativeFunction(...)"
  | 0, _, .array _ => "JsValue::Array([...])"
  | depth + 1, within, .array ref =>
    if ref ∈ within then "JsValue::Array([...])"
    else
      "JsValue::Array(["
        ++ ", ".intercalate ((heap.array ref).toList.map (heap.debugWithin depth (ref :: within)))
        ++ "])"

def debugText (heap : Heap) (value : Value) : String :=
  heap.debugWithin heap.arrays.size [] value

end Heap

end ScriptEngine
