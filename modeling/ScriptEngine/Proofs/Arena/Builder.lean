import ScriptEngine.Eval
import ScriptEngine.Proofs.Arena.Node

-- Readers that put a node into the arena as soon as its text has been read, and pass on its place.
-- They take the same turns as the readers of the grammar, with the same fuel.

namespace ScriptEngine

-- Puts a node behind the others and gives its place.
def Arena.add (node : Node) (arena : Arena) : Nat × Arena :=
  (arena.length, arena ++ [node])

-- Reading that adds nodes.
abbrev Builder : Type → Type :=
  StateT Arena Parser

-- A left operand whose operator waits for the right one.
structure Waiting (α : Type) where
  operator : ChainOp
  offset : Nat
  left : α

-- The level of the operators that bind the least.
def ChainOp.loosest : Nat := 4

def ChainOp.node (operator : ChainOp) (offset left right : Nat) : Node :=
  match operator with
  | binary operator => .binary offset operator left right
  | logical operator => .logical offset operator left right

namespace Builder

open ScriptEngine.Parser
open Grammar (startsExpression endStatement parameters pathTail)

def add (node : Node) : Builder Nat := fun arena =>
  pure (arena.add node)

-- Builds in an arena of its own, and goes on with the one at hand.
def apart {α : Type} (build : Builder α) : Builder (α × Arena) := fun arena => do
  let inner ← build []
  return (inner, arena)

-- Joins the operands whose operators bind as tightly as a level or more so.
def settle (level : Nat) : List (Waiting Nat) → Nat → Builder (List (Waiting Nat) × Nat)
  | [], right => return ([], right)
  | top :: rest, right =>
    if top.operator.level ≤ level then do
      let joined ← add (top.operator.node top.offset top.left right)
      settle level rest joined
    else
      return (top :: rest, right)

def integer (offset : Nat) (value : Int64) : Builder Nat :=
  add (.literal offset (.number (.int value)))

def increment (offset : Nat) (operator : BinaryOp) (target : Nat) (givesOld : Bool) :
    Builder Nat := do
  let one ← integer offset 1
  add (.update offset operator target one givesOld)

mutual

def expression (script : List Char) : Nat → Builder Nat
  | 0 => spent
  | fuel + 1 => do
    let first ← unary script fuel
    let left ← chain script fuel [] first
    let offset ← here
    match ← peek with
    | some (.symbol .question) => do
      advance
      let yes ← expression script fuel
      expectSymbol .colon
      let no ← expression script fuel
      add (.ternary offset left yes no)
    | some (.symbol .assign) => do
      advance
      let value ← expression script fuel
      add (.assign offset left value)
    | some (.symbol mark) =>
      match BinaryOp.ofAssignment? mark with
      | some operator => do
        advance
        let value ← expression script fuel
        add (.update offset operator left value false)
      | none => return left
    | _ => return left

-- Operators and operands as long as they follow. An operand is joined to the one before it once the
-- operator behind it does not bind tighter.
def chain (script : List Char) : Nat → List (Waiting Nat) → Nat → Builder Nat
  | 0, _, _ => spent
  | fuel + 1, waiting, operand => do
    let offset ← here
    match ← peek with
    | some (.symbol mark) =>
      match ChainOp.ofSymbol? mark with
      | some operator => do
        let (waiting, left) ← settle operator.level waiting operand
        advance
        let operand ← unary script fuel
        chain script fuel (⟨operator, offset, left⟩ :: waiting) operand
      | none => do
        let (_, whole) ← settle ChainOp.loosest waiting operand
        return whole
    | _ => do
      let (_, whole) ← settle ChainOp.loosest waiting operand
      return whole

def unary (script : List Char) : Nat → Builder Nat
  | 0 => spent
  | fuel + 1 => do
    let offset ← here
    match ← peek with
    | some (.symbol .minus) => do
      advance
      let nought ← integer offset 0
      let operand ← unary script fuel
      add (.binary offset .subtract nought operand)
    | some (.symbol .bang) => do
      advance
      let operand ← unary script fuel
      add (.unary offset .not operand)
    | some (.symbol .increment) => do
      advance
      let target ← primary script fuel
      increment offset .add target false
    | some (.symbol .decrement) => do
      advance
      let target ← primary script fuel
      increment offset .subtract target false
    | some (.keyword .typeofWord) => do
      advance
      let operand ← unary script fuel
      add (.unary offset .typeOf operand)
    | _ => primary script fuel

def primary (script : List Char) : Nat → Builder Nat
  | 0 => spent
  | fuel + 1 => do
    let offset ← here
    match ← peek with
    | some (.identifier name) => do
      advance
      suffixes script fuel (← add (.identifier offset name))
    | some (.literal value) => do
      advance
      suffixes script fuel (← add (.literal offset value))
    | some (.symbol .leftParen) => do
      advance
      let inner ← expression script fuel
      expectSymbol .rightParen
      suffixes script fuel inner
    | some (.symbol .leftBrace) => do
      advance
      let entries ← entries script fuel
      expectSymbol .rightBrace
      suffixes script fuel (← add (.object offset entries))
    | some (.symbol .leftBracket) => do
      advance
      let elements ← expressions script fuel .rightBracket
      expectSymbol .rightBracket
      suffixes script fuel (← add (.array offset elements))
    | some (.keyword .trueWord) => do
      advance
      suffixes script fuel (← add (.literal offset (.boolean true)))
    | some (.keyword .falseWord) => do
      advance
      suffixes script fuel (← add (.literal offset (.boolean false)))
    | some (.keyword .nullWord) => do
      advance
      suffixes script fuel (← add (.literal offset .null))
    | some (.keyword .undefinedWord) => do
      advance
      suffixes script fuel (← add (.literal offset .undefined))
    | some (.keyword .infinityWord) => do
      advance
      suffixes script fuel (← add (.literal offset (.number (.double Double.infinity))))
    | some (.keyword .thisWord) => do
      advance
      suffixes script fuel (← add (.receiver offset))
    | some (.keyword .functionWord) => do
      advance
      let code ← function script fuel
      match code.name with
      | some _ => refuseAt offset .namedInlineFunction
      | none => suffixes script fuel (← add (.function offset code))
    | some (.keyword .newWord) => do
      advance
      let first ← identifier
      let path ← pathTail fuel
      if ← acceptSymbol .leftParen then
        let arguments ← expressions script fuel .rightParen
        expectSymbol .rightParen
        suffixes script fuel (← add (.construct offset (first :: path) arguments))
      else
        suffixes script fuel (← add (.construct offset (first :: path) []))
    | _ => unexpected .expression

def suffixes (script : List Char) : Nat → Nat → Builder Nat
  | 0, _ => spent
  | fuel + 1, target => do
    let offset ← here
    match ← peek with
    | some (.symbol .dot) => do
      advance
      let name ← identifier
      suffixes script fuel (← add (.dot offset target name))
    | some (.symbol .leftParen) => do
      advance
      let arguments ← expressions script fuel .rightParen
      expectSymbol .rightParen
      suffixes script fuel (← add (.call offset target arguments))
    | some (.symbol .leftBracket) => do
      advance
      let index ← expression script fuel
      expectSymbol .rightBracket
      suffixes script fuel (← add (.subscript offset target index))
    | some (.symbol .increment) => do
      advance
      suffixes script fuel (← increment offset .add target true)
    | some (.symbol .decrement) => do
      advance
      suffixes script fuel (← increment offset .subtract target true)
    | _ => return target

def expressions (script : List Char) : Nat → Symbol → Builder (List Nat)
  | 0, _ => spent
  | fuel + 1, closing => do
    if ← atSymbol closing then
      return []
    else
      let first ← expression script fuel
      if ← atSymbol closing then
        return [first]
      else
        expectSymbol .comma
        return first :: (← expressions script fuel closing)

def entries (script : List Char) : Nat → Builder (List (String × Nat))
  | 0 => spent
  | fuel + 1 => do
    match ← peek with
    | some (.symbol .rightBrace) => return []
    | some (.identifier key) | some (.literal (.string key)) => do
      advance
      expectSymbol .colon
      let value ← expression script fuel
      if ← atSymbol .rightBrace then
        return [(key, value)]
      else
        expectSymbol .comma
        return (key, value) :: (← entries script fuel)
    | _ => unexpected .identifier

-- The body of a function is built apart.
def function (script : List Char) : Nat → Builder Code
  | 0 => spent
  | fuel + 1 => do
    let start ← here
    let name ← match ← peek with
      | some (.identifier name) => do
        advance
        pure (some name)
      | _ => pure none
    expectSymbol .leftParen
    let parameters ← parameters fuel
    expectSymbol .rightParen
    let ((body, stop), nodes) ← apart (block script fuel)
    return .mk name parameters nodes body (String.ofList (Text.slice script start stop))

-- A block, and where its closing brace ends.
def block (script : List Char) : Nat → Builder (Nat × Nat)
  | 0 => spent
  | fuel + 1 => do
    let offset ← here
    expectSymbol .leftBrace
    let body ← blockItems script fuel
    let stop ← hereStop
    expectSymbol .rightBrace
    return (← add (.block offset body), stop)

def blockItems (script : List Char) : Nat → Builder (List Nat)
  | 0 => spent
  | fuel + 1 => do
    match ← peek with
    | some (.symbol .rightBrace) => return []
    | none => unexpected (.symbol .rightBrace)
    | _ => do
      let first ← statement script fuel
      return first :: (← blockItems script fuel)

def statement (script : List Char) : Nat → Builder Nat
  | 0 => spent
  | fuel + 1 => do
    let offset ← here
    match ← peek with
    | some (.symbol .leftBrace) => do
      let (body, _) ← block script fuel
      return body
    | some (.keyword .varWord) | some (.keyword .letWord) | some (.keyword .constWord) => do
      advance
      declarations script fuel
    | some (.keyword .ifWord) => do
      advance
      expectSymbol .leftParen
      let test ← expression script fuel
      expectSymbol .rightParen
      let yes ← statement script fuel
      if ← acceptKeyword .elseWord then
        let no ← statement script fuel
        add (.branch offset test yes (some no))
      else
        add (.branch offset test yes none)
    | some (.keyword .whileWord) => do
      advance
      expectSymbol .leftParen
      let test ← expression script fuel
      expectSymbol .rightParen
      let body ← statement script fuel
      add (.loop offset none (some test) none body false)
    | some (.keyword .doWord) => do
      advance
      let (body, _) ← block script fuel
      expectKeyword .whileWord
      expectSymbol .leftParen
      let test ← expression script fuel
      expectSymbol .rightParen
      endStatement
      add (.loop offset none (some test) none body true)
    | some (.keyword .forWord) => do
      advance
      expectSymbol .leftParen
      let initial ← statement script fuel
      let test ← optional script fuel .semicolon
      let step ← optional script fuel .rightParen
      let body ← statement script fuel
      add (.loop offset (some initial) test step body false)
    | some (.keyword .returnWord) => do
      advance
      match ← peek with
      | some (.symbol .semicolon) => do
        advance
        add (.giveBack offset none)
      | some (.symbol .rightBrace) | none => add (.giveBack offset none)
      | _ => do
        let value ← expression script fuel
        let _ ← acceptSymbol .semicolon
        add (.giveBack offset (some value))
    | some (.keyword .breakWord) => do
      advance
      endStatement
      add (.breakLoop offset)
    | some (.keyword .continueWord) => do
      advance
      endStatement
      add (.continueLoop offset)
    | some (.keyword .functionWord) => do
      advance
      let code ← function script fuel
      match code.name with
      | some name => do
        let target ← add (.identifier offset name)
        let value ← add (.function offset code)
        add (.assign offset target value)
      | none => refuseAt offset .unnamedStatementFunction
    | some (.symbol .semicolon) => do
      advance
      add (.empty offset)
    | some token =>
      if startsExpression token then do
        let value ← expression script fuel
        endStatement
        return value
      else
        unexpected .statement
    | none => unexpected .statement

def optional (script : List Char) : Nat → Symbol → Builder (Option Nat)
  | 0, _ => spent
  | fuel + 1, closing => do
    if ← acceptSymbol closing then
      return none
    else
      let value ← expression script fuel
      expectSymbol closing
      return some value

def declarations (script : List Char) : Nat → Builder Nat
  | 0 => spent
  | fuel + 1 => do
    let offset ← here
    let name ← identifier
    let initial ← if ← acceptSymbol .assign then some <$> expression script fuel else pure none
    let first ← add (.declare offset name initial)
    if ← acceptSymbol .comma then
      let rest ← declarations script fuel
      add (.block offset [first, rest])
    else
      endStatement
      return first

end

def items (script : List Char) : Nat → Builder (List Nat)
  | 0 => spent
  | fuel + 1 => do
    match ← peek with
    | none => return []
    | some _ => do
      let first ← statement script fuel
      return first :: (← items script fuel)

-- The root of a program is the block of its statements.
def program (script : List Char) (fuel : Nat) : Builder Nat := do
  let offset ← here
  let body ← items script fuel
  add (.block offset body)

def wholeExpression (script : List Char) (fuel : Nat) : Builder Nat := do
  let value ← expression script fuel
  let _ ← acceptSymbol .semicolon
  expectEnd
  return value

-- Builds in an empty arena.
def tree (build : Builder Nat) : Parser Tree := do
  let (root, nodes) ← build []
  return ⟨nodes, root⟩

end Builder

-- The flat tree that a text spells as a program or as a single expression.
def Tree.read (form : ScriptForm) (script : String) : Except ParseError Tree :=
  match form with
  | .statements =>
    Grammar.run (fun text fuel => Builder.tree (Builder.program text fuel)) script.toList
  | .expression =>
    Grammar.run (fun text fuel => Builder.tree (Builder.wholeExpression text fuel)) script.toList

end ScriptEngine
