import ScriptEngine.Program

-- Trees in flat storage. A node refers to its children by their places in the list that holds them
-- all, and the body of a function literal has a list of its own.

namespace ScriptEngine

mutual

inductive Node where
  | empty (offset : Nat)
  | block (offset : Nat) (body : List Nat)
  | branch (offset : Nat) (test yes : Nat) (no : Option Nat)
  | declare (offset : Nat) (name : String) (initial : Option Nat)
  | loop (offset : Nat) (initial test step : Option Nat) (body : Nat) (testLast : Bool)
  | giveBack (offset : Nat) (value : Option Nat)
  | breakLoop (offset : Nat)
  | continueLoop (offset : Nat)
  | literal (offset : Nat) (value : Literal)
  | identifier (offset : Nat) (name : String)
  | receiver (offset : Nat)
  | dot (offset : Nat) (target : Nat) (name : String)
  | subscript (offset : Nat) (target index : Nat)
  | unary (offset : Nat) (operator : UnaryOp) (operand : Nat)
  | binary (offset : Nat) (operator : BinaryOp) (left right : Nat)
  | logical (offset : Nat) (operator : LogicalOp) (left right : Nat)
  | ternary (offset : Nat) (test yes no : Nat)
  | assign (offset : Nat) (target value : Nat)
  | update (offset : Nat) (operator : BinaryOp) (target value : Nat) (givesOld : Bool)
  | call (offset : Nat) (callee : Nat) (arguments : List Nat)
  | construct (offset : Nat) (path : List String) (arguments : List Nat)
  | object (offset : Nat) (entries : List (String × Nat))
  | array (offset : Nat) (elements : List Nat)
  | function (offset : Nat) (code : Code)

-- A function literal with the nodes of its body.
inductive Code where
  | mk (name : Option String) (parameters : List String) (nodes : List Node) (body : Nat)
      (source : String)

end

-- The nodes so far. A new one comes last.
abbrev Arena : Type :=
  List Node

-- Nodes and where to start among them.
structure Tree where
  nodes : Arena
  root : Nat

def Code.name : Code → Option String
  | mk name _ _ _ _ => name

def Code.tree : Code → Tree
  | mk _ _ nodes body _ => ⟨nodes, body⟩

namespace Node

-- The nodes that a node refers to.
def children : Node → List Nat
  | empty _ | breakLoop _ | continueLoop _ | literal _ _ | identifier _ _ | receiver _
  | function _ _ => []
  | block _ body => body
  | branch _ test yes no => [test, yes] ++ no.toList
  | declare _ _ value | giveBack _ value => value.toList
  | loop _ initial test step body _ =>
    initial.toList ++ test.toList ++ step.toList ++ [body]
  | dot _ child _ | unary _ _ child => [child]
  | subscript _ left right | binary _ _ left right | logical _ _ left right
  | assign _ left right | update _ _ left right _ => [left, right]
  | ternary _ test yes no => [test, yes, no]
  | call _ callee arguments => callee :: arguments
  | construct _ _ values | array _ values => values
  | object _ entries => entries.map Prod.snd

-- Expressions have a value.
def isExpression : Node → Bool
  | empty _ | block _ _ | branch _ _ _ _ | declare _ _ _ | loop _ _ _ _ _ _ | giveBack _ _
  | breakLoop _ | continueLoop _ => false
  | _ => true

-- The children that must be expressions: all of an expression, and of a statement its tests, its
-- steps and the values that it declares and gives back.
def operands : Node → List Nat
  | empty _ | breakLoop _ | continueLoop _ | block _ _ => []
  | branch _ test _ _ => [test]
  | declare _ _ value | giveBack _ value => value.toList
  | loop _ _ test step _ _ => test.toList ++ step.toList
  | node => node.children

def isBlock : Node → Bool
  | block _ _ => true
  | _ => false

end Node

mutual

-- The function literals of a node, those inside of function bodies included.
def Node.codes : Node → List Code
  | .function _ code => code.codes
  | _ => []

def Node.codesOfAll : List Node → List Code
  | [] => []
  | first :: rest => first.codes ++ Node.codesOfAll rest

def Code.codes : Code → List Code
  | .mk name parameters nodes body source =>
    .mk name parameters nodes body source :: Node.codesOfAll nodes

end

namespace Tree

def root? (tree : Tree) : Option Node :=
  tree.nodes[tree.root]?

-- The children of all nodes.
def references (tree : Tree) : List Nat :=
  tree.nodes.flatMap Node.children

-- Every reference leads back, every node but the root is referred to once, the root is last, and
-- what must be an expression is one.
structure WellFormed (tree : Tree) : Prop where
  root_last : tree.root + 1 = tree.nodes.length
  backward {index : Nat} {node : Node} : tree.nodes[index]? = some node →
    ∀ child ∈ node.children, child < index
  once {index : Nat} : index < tree.nodes.length → index ≠ tree.root →
    tree.references.count index = 1
  root_free : tree.root ∉ tree.references
  operands {node : Node} : node ∈ tree.nodes → ∀ child ∈ node.operands,
    ∃ operand, tree.nodes[child]? = some operand ∧ operand.isExpression

end Tree

end ScriptEngine
