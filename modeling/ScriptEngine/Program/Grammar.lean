import ScriptEngine.Program.Chain
import ScriptEngine.Program.Parser

-- The grammar. The readers call each other along the nesting of the text, with fuel that bounds the
-- depth; `Program.read` and `Expr.read` give them more than any text of that many tokens needs.

namespace ScriptEngine.Grammar

open ScriptEngine.Parser

-- Whether a statement that starts with the token is an expression.
def startsExpression : Token → Bool
  | .identifier _ | .literal _ => true
  | .symbol .leftParen | .symbol .leftBracket | .symbol .leftBrace | .symbol .bang | .symbol .minus
  | .symbol .increment | .symbol .decrement => true
  | .keyword .trueWord | .keyword .falseWord | .keyword .nullWord | .keyword .undefinedWord
  | .keyword .thisWord | .keyword .infinityWord | .keyword .functionWord | .keyword .newWord
  | .keyword .typeofWord => true
  | _ => false

-- A semicolon, which may be left out at the end of the input.
def endStatement : Parser Unit := do
  match ← peek with
  | none => return
  | some _ => expectSymbol .semicolon

-- Names up to the closing parenthesis.
def parameters : Nat → Parser (List String)
  | 0 => spent
  | fuel + 1 => do
    if ← atSymbol .rightParen then
      return []
    else
      let name ← identifier
      if ← atSymbol .rightParen then
        return [name]
      else
        expectSymbol .comma
        return name :: (← parameters fuel)

-- The names of a dotted path behind its first name.
def pathTail : Nat → Parser (List String)
  | 0 => spent
  | fuel + 1 => do
    if ← acceptSymbol .dot then
      let name ← identifier
      return name :: (← pathTail fuel)
    else
      return []

def integer (offset : Nat) (value : Int64) : Expr :=
  .literal offset (.number (.int value))

-- Adds one to the target, or subtracts it.
def increment (offset : Nat) (operator : BinaryOp) (target : Expr) (givesOld : Bool) : Expr :=
  .update offset operator target (integer offset 1) givesOld

-- A block in the text: its offset, its statements, and where its closing brace ends.
structure Block where
  offset : Nat
  body : List Stmt
  stop : Nat

mutual

-- A chain of operands, which may be the test of a choice or the target of an assignment.
def expression (script : List Char) : Nat → Parser Expr
  | 0 => spent
  | fuel + 1 => do
    let first ← unary script fuel
    let links ← links script fuel
    let left := Chain.group ⟨first, links⟩
    let offset ← here
    match ← peek with
    | some (.symbol .question) => do
      advance
      let yes ← expression script fuel
      expectSymbol .colon
      let no ← expression script fuel
      return .ternary offset left yes no
    | some (.symbol .assign) => do
      advance
      let value ← expression script fuel
      return .assign offset left value
    | some (.symbol mark) =>
      match BinaryOp.ofAssignment? mark with
      | some operator => do
        advance
        let value ← expression script fuel
        return .update offset operator left value false
      | none => return left
    | _ => return left

-- Operators and operands as long as they follow.
def links (script : List Char) : Nat → Parser (List Link)
  | 0 => spent
  | fuel + 1 => do
    let offset ← here
    match ← peek with
    | some (.symbol mark) =>
      match ChainOp.ofSymbol? mark with
      | some operator => do
        advance
        let operand ← unary script fuel
        return ⟨operator, offset, operand⟩ :: (← links script fuel)
      | none => return []
    | _ => return []

def unary (script : List Char) : Nat → Parser Expr
  | 0 => spent
  | fuel + 1 => do
    let offset ← here
    match ← peek with
    | some (.symbol .minus) => do
      advance
      return .binary offset .subtract (integer offset 0) (← unary script fuel)
    | some (.symbol .bang) => do
      advance
      return .unary offset .not (← unary script fuel)
    | some (.symbol .increment) => do
      advance
      return increment offset .add (← primary script fuel) false
    | some (.symbol .decrement) => do
      advance
      return increment offset .subtract (← primary script fuel) false
    | some (.keyword .typeofWord) => do
      advance
      return .unary offset .typeOf (← unary script fuel)
    | _ => primary script fuel

-- An operand with its suffixes.
def primary (script : List Char) : Nat → Parser Expr
  | 0 => spent
  | fuel + 1 => do
    let offset ← here
    match ← peek with
    | some (.identifier name) => do
      advance
      suffixes script fuel (.identifier offset name)
    | some (.literal value) => do
      advance
      suffixes script fuel (.literal offset value)
    | some (.symbol .leftParen) => do
      advance
      let inner ← expression script fuel
      expectSymbol .rightParen
      suffixes script fuel inner
    | some (.symbol .leftBrace) => do
      advance
      let entries ← entries script fuel
      expectSymbol .rightBrace
      suffixes script fuel (.object offset entries)
    | some (.symbol .leftBracket) => do
      advance
      let elements ← expressions script fuel .rightBracket
      expectSymbol .rightBracket
      suffixes script fuel (.array offset elements)
    | some (.keyword .trueWord) => do
      advance
      suffixes script fuel (.literal offset (.boolean true))
    | some (.keyword .falseWord) => do
      advance
      suffixes script fuel (.literal offset (.boolean false))
    | some (.keyword .nullWord) => do
      advance
      suffixes script fuel (.literal offset .null)
    | some (.keyword .undefinedWord) => do
      advance
      suffixes script fuel (.literal offset .undefined)
    | some (.keyword .infinityWord) => do
      advance
      suffixes script fuel (.literal offset (.number (.double Double.infinity)))
    | some (.keyword .thisWord) => do
      advance
      suffixes script fuel (.receiver offset)
    | some (.keyword .functionWord) => do
      advance
      let literal ← function script fuel
      match literal.name with
      | some _ => refuseAt offset .namedInlineFunction
      | none => suffixes script fuel (.function offset literal)
    | some (.keyword .newWord) => do
      advance
      let first ← identifier
      let path ← pathTail fuel
      if ← acceptSymbol .leftParen then
        let arguments ← expressions script fuel .rightParen
        expectSymbol .rightParen
        suffixes script fuel (.construct offset (first :: path) arguments)
      else
        suffixes script fuel (.construct offset (first :: path) [])
    | _ => unexpected .expression

def suffixes (script : List Char) : Nat → Expr → Parser Expr
  | 0, _ => spent
  | fuel + 1, target => do
    let offset ← here
    match ← peek with
    | some (.symbol .dot) => do
      advance
      let name ← identifier
      suffixes script fuel (.dot offset target name)
    | some (.symbol .leftParen) => do
      advance
      let arguments ← expressions script fuel .rightParen
      expectSymbol .rightParen
      suffixes script fuel (.call offset target arguments)
    | some (.symbol .leftBracket) => do
      advance
      let index ← expression script fuel
      expectSymbol .rightBracket
      suffixes script fuel (.subscript offset target index)
    | some (.symbol .increment) => do
      advance
      suffixes script fuel (increment offset .add target true)
    | some (.symbol .decrement) => do
      advance
      suffixes script fuel (increment offset .subtract target true)
    | _ => return target

-- Expressions with commas between them up to a closing symbol. A comma may stand before it.
def expressions (script : List Char) : Nat → Symbol → Parser (List Expr)
  | 0, _ => spent
  | fuel + 1, closing => do
    if ← atSymbol closing then
      return []
    else
      let first ← expression script fuel
      if ← atSymbol closing then
        return [first]
      else
        expectSymbol .comma
        return first :: (← expressions script fuel closing)

-- Keys and values up to the closing brace. A comma may stand before it.
def entries (script : List Char) : Nat → Parser (List (String × Expr))
  | 0 => spent
  | fuel + 1 => do
    match ← peek with
    | some (.symbol .rightBrace) => return []
    | some (.identifier key) | some (.literal (.string key)) => do
      advance
      expectSymbol .colon
      let value ← expression script fuel
      if ← atSymbol .rightBrace then
        return [(key, value)]
      else
        expectSymbol .comma
        return (key, value) :: (← entries script fuel)
    | _ => unexpected .identifier

-- A function from behind its keyword to its closing brace.
def function (script : List Char) : Nat → Parser Function
  | 0 => spent
  | fuel + 1 => do
    let start ← here
    let name ← match ← peek with
      | some (.identifier name) => do
        advance
        pure (some name)
      | _ => pure none
    expectSymbol .leftParen
    let parameters ← parameters fuel
    expectSymbol .rightParen
    let block ← block script fuel
    return .mk name parameters block.offset block.body
      (String.ofList (Text.slice script start block.stop))

def block (script : List Char) : Nat → Parser Block
  | 0 => spent
  | fuel + 1 => do
    let offset ← here
    expectSymbol .leftBrace
    let body ← blockItems script fuel
    let stop ← hereStop
    expectSymbol .rightBrace
    return ⟨offset, body, stop⟩

-- Statements up to a closing brace.
def blockItems (script : List Char) : Nat → Parser (List Stmt)
  | 0 => spent
  | fuel + 1 => do
    match ← peek with
    | some (.symbol .rightBrace) => return []
    | none => unexpected (.symbol .rightBrace)
    | _ => do
      let first ← statement script fuel
      return first :: (← blockItems script fuel)

def statement (script : List Char) : Nat → Parser Stmt
  | 0 => spent
  | fuel + 1 => do
    let offset ← here
    match ← peek with
    | some (.symbol .leftBrace) => do
      let block ← block script fuel
      return .block block.offset block.body
    | some (.keyword .varWord) | some (.keyword .letWord) | some (.keyword .constWord) => do
      advance
      declarations script fuel
    | some (.keyword .ifWord) => do
      advance
      expectSymbol .leftParen
      let test ← expression script fuel
      expectSymbol .rightParen
      let yes ← statement script fuel
      if ← acceptKeyword .elseWord then
        return .branch offset test yes (some (← statement script fuel))
      else
        return .branch offset test yes none
    | some (.keyword .whileWord) => do
      advance
      expectSymbol .leftParen
      let test ← expression script fuel
      expectSymbol .rightParen
      let body ← statement script fuel
      return .loop offset none (some test) none body false
    | some (.keyword .doWord) => do
      advance
      let block ← block script fuel
      expectKeyword .whileWord
      expectSymbol .leftParen
      let test ← expression script fuel
      expectSymbol .rightParen
      endStatement
      return .loop offset none (some test) none (.block block.offset block.body) true
    | some (.keyword .forWord) => do
      advance
      expectSymbol .leftParen
      let initial ← statement script fuel
      let test ← optional script fuel .semicolon
      let step ← optional script fuel .rightParen
      let body ← statement script fuel
      return .loop offset (some initial) test step body false
    | some (.keyword .returnWord) => do
      advance
      match ← peek with
      | some (.symbol .semicolon) => do
        advance
        return .giveBack offset none
      | some (.symbol .rightBrace) | none => return .giveBack offset none
      | _ => do
        let value ← expression script fuel
        let _ ← acceptSymbol .semicolon
        return .giveBack offset (some value)
    | some (.keyword .breakWord) => do
      advance
      endStatement
      return .breakLoop offset
    | some (.keyword .continueWord) => do
      advance
      endStatement
      return .continueLoop offset
    | some (.keyword .functionWord) => do
      advance
      let literal ← function script fuel
      match literal.name with
      | some name =>
        return .expression (.assign offset (.identifier offset name) (.function offset literal))
      | none => refuseAt offset .unnamedStatementFunction
    | some (.symbol .semicolon) => do
      advance
      return .empty offset
    | some token =>
      if startsExpression token then do
        let value ← expression script fuel
        endStatement
        return .expression value
      else
        unexpected .statement
    | none => unexpected .statement

-- Nothing or an expression, up to and with a closing symbol.
def optional (script : List Char) : Nat → Symbol → Parser (Option Expr)
  | 0, _ => spent
  | fuel + 1, closing => do
    if ← acceptSymbol closing then
      return none
    else
      let value ← expression script fuel
      expectSymbol closing
      return some value

-- Declarations with commas between them. All but the last pair up with what follows as a block.
def declarations (script : List Char) : Nat → Parser Stmt
  | 0 => spent
  | fuel + 1 => do
    let offset ← here
    let name ← identifier
    let initial ← if ← acceptSymbol .assign then some <$> expression script fuel else pure none
    if ← acceptSymbol .comma then
      let rest ← declarations script fuel
      return .block offset [.declare offset name initial, rest]
    else
      endStatement
      return .declare offset name initial

end

-- Statements up to the end of the input.
def items (script : List Char) : Nat → Parser (List Stmt)
  | 0 => spent
  | fuel + 1 => do
    match ← peek with
    | none => return []
    | some _ => do
      let first ← statement script fuel
      return first :: (← items script fuel)

def program (script : List Char) (fuel : Nat) : Parser Program := do
  let offset ← here
  let body ← items script fuel
  return ⟨offset, body⟩

-- One expression, perhaps with a semicolon, and nothing else.
def wholeExpression (script : List Char) (fuel : Nat) : Parser Expr := do
  let value ← expression script fuel
  let _ ← acceptSymbol .semicolon
  expectEnd
  return value

-- Runs a reader on a text, with fuel for every token.
def run {α : Type} (reader : List Char → Nat → Parser α) (script : List Char) :
    Except ParseError α :=
  match Stream.ofText script with
  | .broken error => .error error
  | stream =>
    match (reader script (8 * (stream.length + 1))).run stream with
    | .ok value _ => .ok value
    | .refused error => .error error
    | .spent => .error ⟨.unexpected none .endOfInput, 0⟩

end ScriptEngine.Grammar

namespace ScriptEngine

-- The program that a text spells.
def Program.read (script : String) : Except ParseError Program :=
  Grammar.run Grammar.program script.toList

-- The single expression that a text spells.
def Expr.read (script : String) : Except ParseError Expr :=
  Grammar.run Grammar.wholeExpression script.toList

end ScriptEngine
