import ScriptEngine.Text.Width

-- Lines and columns of a byte offset. Both count from one, a column counts characters, and the
-- line feed is the only line break.

namespace ScriptEngine

structure Position where
  line : Nat
  column : Nat
deriving DecidableEq, Repr

namespace Position

def start : Position := ⟨1, 1⟩

-- The position after one more character.
def step (position : Position) (c : Char) : Position :=
  if c = '\n' then ⟨position.line + 1, 1⟩ else ⟨position.line, position.column + 1⟩

-- Steps over every character that starts within the next `offset` bytes.
def walk (position : Position) : Nat → List Char → Position
  | 0, _ => position
  | _ + 1, [] => position
  | offset + 1, c :: rest => walk (position.step c) (offset + 1 - c.utf8Size) rest

def ofOffset (text : List Char) (offset : Nat) : Position :=
  start.walk offset text

end Position

-- A place in a script.
structure Location where
  script : String
  offset : Nat
deriving DecidableEq, Repr

namespace Location

def position (location : Location) : Position :=
  Position.ofOffset location.script.toList location.offset

-- How a message names the place.
def render (location : Location) : String :=
  s!"Line {location.position.line}, column {location.position.column}"

end Location

end ScriptEngine
