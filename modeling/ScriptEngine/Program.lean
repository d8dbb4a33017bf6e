import ScriptEngine.Token

-- Program trees. Every node keeps the byte offset that messages about it point to.

namespace ScriptEngine

inductive BinaryOp where
  | equal | unequal | strictEqual | strictUnequal
  | less | lessEqual | greater | greaterEqual
  | add | subtract | multiply | divide | modulo
  | bitAnd | bitOr | bitXor
  | shiftLeft | shiftRight | shiftRightUnsigned
deriving DecidableEq, Repr

inductive LogicalOp where
  | and | or
deriving DecidableEq, Repr

inductive UnaryOp where
  | not | typeOf
deriving DecidableEq, Repr

def BinaryOp.mark : BinaryOp → Symbol
  | equal => .equal
  | unequal => .unequal
  | strictEqual => .strictEqual
  | strictUnequal => .strictUnequal
  | less => .less
  | lessEqual => .lessEqual
  | greater => .greater
  | greaterEqual => .greaterEqual
  | add => .plus
  | subtract => .minus
  | multiply => .times
  | divide => .divide
  | modulo => .modulo
  | bitAnd => .ampersand
  | bitOr => .bar
  | bitXor => .caret
  | shiftLeft => .shiftLeft
  | shiftRight => .shiftRight
  | shiftRightUnsigned => .shiftRightUnsigned

def LogicalOp.mark : LogicalOp → Symbol
  | and => .doubleAmpersand
  | or => .doubleBar

-- The operator that an assignment symbol such as `+=` combines with.
def BinaryOp.ofAssignment? : Symbol → Option BinaryOp
  | .plusAssign => some .add
  | .minusAssign => some .subtract
  | .timesAssign => some .multiply
  | .divideAssign => some .divide
  | .moduloAssign => some .modulo
  | .shiftLeftAssign => some .shiftLeft
  | .shiftRightAssign => some .shiftRight
  | .andAssign => some .bitAnd
  | .orAssign => some .bitOr
  | .xorAssign => some .bitXor
  | _ => none

mutual

-- Expressions have a value.
inductive Expr where
  | literal (offset : Nat) (value : Literal)
  | identifier (offset : Nat) (name : String)
  | receiver (offset : Nat)
  | dot (offset : Nat) (target : Expr) (name : String)
  | subscript (offset : Nat) (target index : Expr)
  | unary (offset : Nat) (operator : UnaryOp) (operand : Expr)
  | binary (offset : Nat) (operator : BinaryOp) (left right : Expr)
  | logical (offset : Nat) (operator : LogicalOp) (left right : Expr)
  | ternary (offset : Nat) (test yes no : Expr)
  | assign (offset : Nat) (target value : Expr)
  -- Combines the old value of the target with another value; the result is the old value if
  -- `givesOld` holds and the new one otherwise.
  | update (offset : Nat) (operator : BinaryOp) (target value : Expr) (givesOld : Bool)
  | call (offset : Nat) (callee : Expr) (arguments : List Expr)
  | construct (offset : Nat) (path : List String) (arguments : List Expr)
  | object (offset : Nat) (entries : List (String × Expr))
  | array (offset : Nat) (elements : List Expr)
  | function (offset : Nat) (literal : Function)

-- Statements are run for their effects.
inductive Stmt where
  | empty (offset : Nat)
  | block (offset : Nat) (body : List Stmt)
  | branch (offset : Nat) (test : Expr) (yes : Stmt) (no : Option Stmt)
  | declare (offset : Nat) (name : String) (initial : Option Expr)
  -- `testLast` tells a loop that tests after its body from one that tests before it.
  | loop (offset : Nat) (initial : Option Stmt) (test step : Option Expr) (body : Stmt)
      (testLast : Bool)
  | giveBack (offset : Nat) (value : Option Expr)
  | breakLoop (offset : Nat)
  | continueLoop (offset : Nat)
  | expression (value : Expr)

-- A function literal. The body is a block at its own offset, and the source is the text from the
-- name, or else the parameter list, to the closing brace.
inductive Function where
  | mk (name : Option String) (parameters : List String) (bodyOffset : Nat) (body : List Stmt)
      (source : String)

end

namespace Function

def name : Function → Option String
  | mk name _ _ _ _ => name

def parameters : Function → List String
  | mk _ parameters _ _ _ => parameters

def bodyOffset : Function → Nat
  | mk _ _ offset _ _ => offset

def body : Function → List Stmt
  | mk _ _ _ body _ => body

def source : Function → String
  | mk _ _ _ _ source => source

end Function

-- A program is the block of its statements.
structure Program where
  offset : Nat
  body : List Stmt

def Expr.offset : Expr → Nat
  | literal offset _ | identifier offset _ | receiver offset | dot offset _ _
  | subscript offset _ _ | unary offset _ _ | binary offset _ _ _ | logical offset _ _ _
  | ternary offset _ _ _ | assign offset _ _ | update offset _ _ _ _ | call offset _ _
  | construct offset _ _ | object offset _ | array offset _ | function offset _ => offset

def Stmt.offset : Stmt → Nat
  | empty offset | block offset _ | branch offset _ _ _ | declare offset _ _
  | loop offset _ _ _ _ _ | giveBack offset _ | breakLoop offset | continueLoop offset => offset
  | expression value => value.offset

mutual

-- The nodes of a tree. The body of a function literal is a tree of its own and does not count.
def Expr.nodes : Expr → Nat
  | literal _ _ | identifier _ _ | receiver _ | function _ _ => 1
  | dot _ target _ => target.nodes + 1
  | subscript _ target index => target.nodes + index.nodes + 1
  | unary _ _ operand => operand.nodes + 1
  | binary _ _ left right | logical _ _ left right => left.nodes + right.nodes + 1
  | ternary _ test yes no => test.nodes + yes.nodes + no.nodes + 1
  | assign _ target value => target.nodes + value.nodes + 1
  | update _ _ target value _ => target.nodes + value.nodes + 1
  | call _ callee arguments => callee.nodes + Expr.nodesOfAll arguments + 1
  | construct _ _ arguments => Expr.nodesOfAll arguments + 1
  | object _ entries => Expr.nodesOfEntries entries + 1
  | array _ elements => Expr.nodesOfAll elements + 1

def Expr.nodesOfAll : List Expr → Nat
  | [] => 0
  | first :: rest => first.nodes + Expr.nodesOfAll rest

def Expr.nodesOfEntries : List (String × Expr) → Nat
  | [] => 0
  | (_, value) :: rest => value.nodes + Expr.nodesOfEntries rest

end

mutual

def Stmt.nodes : Stmt → Nat
  | empty _ | breakLoop _ | continueLoop _ => 1
  | block _ body => Stmt.nodesOfAll body + 1
  | branch _ test yes no =>
    test.nodes + yes.nodes + (match no with | some no => no.nodes | none => 0) + 1
  | declare _ _ initial => (match initial with | some value => value.nodes | none => 0) + 1
  | loop _ initial test step body _ =>
    (match initial with | some initial => initial.nodes | none => 0)
      + (match test with | some test => test.nodes | none => 0)
      + (match step with | some step => step.nodes | none => 0) + body.nodes + 1
  | giveBack _ value => (match value with | some value => value.nodes | none => 0) + 1
  | expression value => value.nodes

def Stmt.nodesOfAll : List Stmt → Nat
  | [] => 0
  | first :: rest => first.nodes + Stmt.nodesOfAll rest

end

end ScriptEngine
