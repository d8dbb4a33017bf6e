import ScriptEngine.Program

-- Chains of operands joined by binary and logical operators, and the tree that precedence makes of
-- them. There are five levels; all of them group to the left.

namespace ScriptEngine

inductive ChainOp where
  | binary (operator : BinaryOp)
  | logical (operator : LogicalOp)
deriving DecidableEq, Repr

namespace ChainOp

-- The level of an operator. A smaller level binds tighter.
def level : ChainOp → Nat
  | binary .multiply | binary .divide | binary .modulo => 0
  | binary .add | binary .subtract => 1
  | binary .shiftLeft | binary .shiftRight | binary .shiftRightUnsigned => 2
  | binary .bitAnd | binary .bitOr | binary .bitXor | logical _ => 4
  | binary _ => 3

def ofSymbol? : Symbol → Option ChainOp
  | .equal => some (binary .equal)
  | .unequal => some (binary .unequal)
  | .strictEqual => some (binary .strictEqual)
  | .strictUnequal => some (binary .strictUnequal)
  | .less => some (binary .less)
  | .lessEqual => some (binary .lessEqual)
  | .greater => some (binary .greater)
  | .greaterEqual => some (binary .greaterEqual)
  | .plus => some (binary .add)
  | .minus => some (binary .subtract)
  | .times => some (binary .multiply)
  | .divide => some (binary .divide)
  | .modulo => some (binary .modulo)
  | .ampersand => some (binary .bitAnd)
  | .bar => some (binary .bitOr)
  | .caret => some (binary .bitXor)
  | .shiftLeft => some (binary .shiftLeft)
  | .shiftRight => some (binary .shiftRight)
  | .shiftRightUnsigned => some (binary .shiftRightUnsigned)
  | .doubleAmpersand => some (logical .and)
  | .doubleBar => some (logical .or)
  | _ => none

def join (operator : ChainOp) (offset : Nat) (left right : Expr) : Expr :=
  match operator with
  | binary operator => .binary offset operator left right
  | logical operator => .logical offset operator left right

end ChainOp

-- An operator with its offset and its right operand.
structure Link where
  operator : ChainOp
  offset : Nat
  operand : Expr

-- An operand followed by links.
structure Chain where
  first : Expr
  links : List Link

namespace Chain

-- Joins neighbours across the operators of one level, from left to right.
def joinLevel (level : Nat) (first : Expr) : List Link → Chain
  | [] => ⟨first, []⟩
  | link :: rest =>
    if link.operator.level = level then
      joinLevel level (link.operator.join link.offset first link.operand) rest
    else
      let tail := joinLevel level link.operand rest
      ⟨first, ⟨link.operator, link.offset, tail.first⟩ :: tail.links⟩

-- The tree of a chain: the tightest level is joined first, and after the loosest nothing is left to
-- join.
def group (chain : Chain) : Expr :=
  ((List.range 5).foldl (fun chain level => joinLevel level chain.first chain.links) chain).first

end Chain

end ScriptEngine
