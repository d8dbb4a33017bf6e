import ScriptEngine.Heap.Conversion
import ScriptEngine.Text.LetterCase
import ScriptEngine.Text.Search

-- Native functions on text. Positions count characters.

namespace ScriptEngine

-- An argument, or undefined if the call has fewer.
def argument (arguments : List Value) (index : Nat) : Value :=
  arguments.getD index .undefined

-- A position as an integer.
def Heap.toPosition (heap : Heap) (value : Value) : Int64 :=
  (heap.toNumber value).toInt

namespace StringFunction

def characterAt? (text : List Char) (index : Int64) : Option Char :=
  if index < 0 then none else text[index.toNatClampNeg]?

-- The position of the first occurrence from a start on, or -1. The search works on byte offsets. From
-- a start at the end or behind it, only an empty text is found, at the end.
def indexFrom (text needle : List Char) (start : Nat) : Int64 :=
  match Text.offsetAt? start text with
  | some offset =>
    match Text.offsetOf? needle (Text.dropBytes offset text) with
    | some found => Int64.ofNat (start + (Text.slice text offset (offset + found)).length)
    | none => -1
  | none => if needle.isEmpty then Int64.ofNat text.length else -1

-- A position moved into a text of the given length.
def clamp (length : Nat) (position : Int64) : Nat :=
  min position.toNatClampNeg length

-- The characters between two positions in either order.
def between (text : List Char) (first second : Nat) : List Char :=
  (text.drop (min first second)).take (max first second - min first second)

-- The pieces of a text: the whole without a separator, and the characters with an empty one.
def pieces (heap : Heap) (text : List Char) : List Value → List (List Char)
  | [] | .undefined :: _ => [text]
  | separator :: _ =>
    match (heap.toText separator).toList with
    | [] => text.map fun c => [c]
    | mark => Text.splitAt mark text

def apply (function : StringFunction) (receiver : Value) (arguments : List Value) (heap : Heap) :
    Value × Heap :=
  let text := (heap.toText receiver).toList
  match function with
  | charAt =>
    (.ofChars (characterAt? text (heap.toPosition (argument arguments 0))).toList, heap)
  | charCodeAt =>
    match characterAt? text (heap.toPosition (argument arguments 0)) with
    | some c => (.ofNat c.toNat, heap)
    | none => (.double Double.nan, heap)
  | indexOf =>
    let needle := (heap.toText (argument arguments 0)).toList
    let start := (heap.toPosition (argument arguments 1)).toNatClampNeg
    (.int (indexFrom text needle start), heap)
  | substring =>
    let start := clamp text.length (heap.toPosition (argument arguments 0))
    let stop := match arguments with
      | _ :: stop :: _ => clamp text.length (heap.toPosition stop)
      | _ => text.length
    (.ofChars (between text start stop), heap)
  | split => heap.addArrayValue ((pieces heap text arguments).map Value.ofChars)
  | trim => (.ofChars (Text.trim text), heap)
  | toUpperCase => (.ofChars (Text.upper text), heap)
  | toLowerCase => (.ofChars (Text.lower text), heap)

end StringFunction

end ScriptEngine
