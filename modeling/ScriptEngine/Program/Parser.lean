import ScriptEngine.Token.Scan

-- Reading a stream of tokens with one token of lookahead. A place that is no token is refused when
-- the reader comes to it.

namespace ScriptEngine

namespace Stream

-- The token at hand; none at the end of the input.
def token? : Stream → Option Token
  | next lexeme _ => some lexeme.token
  | done _ | broken _ => none

def offset : Stream → Nat
  | next lexeme _ => lexeme.start
  | done offset => offset
  | broken error => error.offset

-- Where the token at hand ends.
def stop : Stream → Nat
  | next lexeme _ => lexeme.stop
  | done offset => offset
  | broken error => error.offset

-- The number of tokens before the end.
def length : Stream → Nat
  | next _ rest => rest.length + 1
  | done _ | broken _ => 0

end Stream

-- What reading comes to: a value and the tokens behind it, a refusal, or an end of fuel.
inductive Parsed (α : Type) where
  | ok (value : α) (rest : Stream)
  | refused (error : ParseError)
  | spent

def Parser (α : Type) : Type :=
  Stream → Parsed α

namespace Parser

variable {α : Type}

instance : Monad Parser where
  pure value := fun stream => .ok value stream
  bind parser next := fun stream =>
    match parser stream with
    | .ok value rest => next value rest
    | .refused error => .refused error
    | .spent => .spent

def run (parser : Parser α) (stream : Stream) : Parsed α :=
  parser stream

def spent : Parser α :=
  fun _ => .spent

def refuseAt (offset : Nat) (fault : ParseFault) : Parser α :=
  fun _ => .refused ⟨fault, offset⟩

def here : Parser Nat :=
  fun stream => .ok stream.offset stream

def hereStop : Parser Nat :=
  fun stream => .ok stream.stop stream

def peek : Parser (Option Token) :=
  fun stream => .ok stream.token? stream

-- Moves to the next token.
def advance : Parser Unit := fun stream =>
  match stream with
  | .next _ (.broken error) => .refused error
  | .next _ rest => .ok () rest
  | _ => .ok () stream

-- Refuses the token at hand.
def unexpected (expected : Expected) : Parser α :=
  fun stream => .refused ⟨.unexpected stream.token? expected, stream.offset⟩

def expectSymbol (mark : Symbol) : Parser Unit := do
  match ← peek with
  | some (.symbol found) => if found = mark then advance else unexpected (.symbol mark)
  | _ => unexpected (.symbol mark)

def expectKeyword (word : Keyword) : Parser Unit := do
  match ← peek with
  | some (.keyword found) => if found = word then advance else unexpected (.keyword word)
  | _ => unexpected (.keyword word)

def expectEnd : Parser Unit := do
  match ← peek with
  | none => pure ()
  | some _ => unexpected .endOfInput

-- Moves past a symbol if it is at hand.
def acceptSymbol (mark : Symbol) : Parser Bool := do
  match ← peek with
  | some (.symbol found) =>
    if found = mark then do
      advance
      return true
    else
      return false
  | _ => return false

def acceptKeyword (word : Keyword) : Parser Bool := do
  match ← peek with
  | some (.keyword found) =>
    if found = word then do
      advance
      return true
    else
      return false
  | _ => return false

def atSymbol (mark : Symbol) : Parser Bool := do
  match ← peek with
  | some (.symbol found) => return found = mark
  | _ => return false

def identifier : Parser String := do
  match ← peek with
  | some (.identifier name) => do
    advance
    return name
  | _ => unexpected .identifier

end Parser

end ScriptEngine
