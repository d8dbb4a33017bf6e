import ScriptEngine.Program.Grammar
import ScriptEngine.Proofs.Reading.Stream

-- The grammar as rules. A phrase says which reader is asked and what it gives; `Derives` says from
-- which stream it can be read and which stream it leaves. The rules know nothing of fuel, and every
-- fact about what the readers accept is proved along them.

namespace ScriptEngine.Grammar

-- The operands of one token, apart from object and array literals.
inductive Atom where
  | identifier (name : String)
  | literal (value : Literal)
  | boolean (value : Bool)
  | null
  | undefined
  | infinity
  | receiver

namespace Atom

def token : Atom → Token
  | identifier name => .identifier name
  | literal value => .literal value
  | boolean true => .keyword .trueWord
  | boolean false => .keyword .falseWord
  | null => .keyword .nullWord
  | undefined => .keyword .undefinedWord
  | infinity => .keyword .infinityWord
  | receiver => .keyword .thisWord

def expr (offset : Nat) : Atom → Expr
  | identifier name => .identifier offset name
  | literal value => .literal offset value
  | boolean value => .literal offset (.boolean value)
  | null => .literal offset .null
  | undefined => .literal offset .undefined
  | infinity => .literal offset (.number (.double Double.infinity))
  | receiver => .receiver offset

end Atom

-- The operators in front of an operand that take any operand.
inductive Sign where
  | minus | bang | typeOf

namespace Sign

def token : Sign → Token
  | minus => .symbol .minus
  | bang => .symbol .bang
  | typeOf => .keyword .typeofWord

def apply (offset : Nat) (operand : Expr) : Sign → Expr
  | minus => .binary offset .subtract (integer offset 0) operand
  | bang => .unary offset .not operand
  | typeOf => .unary offset .typeOf operand

end Sign

-- Adding or subtracting one in place.
inductive Bump where
  | up | down

namespace Bump

def mark : Bump → Symbol
  | up => .increment
  | down => .decrement

def operator : Bump → BinaryOp
  | up => .add
  | down => .subtract

end Bump

-- The statements of one word.
inductive Jump where
  | breakLoop | continueLoop

namespace Jump

def word : Jump → Keyword
  | breakLoop => .breakWord
  | continueLoop => .continueWord

def statement (offset : Nat) : Jump → Stmt
  | breakLoop => .breakLoop offset
  | continueLoop => .continueLoop offset

end Jump

-- No operator and no operand follows an operand.
def endsLinks : Option Token → Bool
  | some (.symbol mark) => (ChainOp.ofSymbol? mark).isNone
  | _ => true

-- Neither a choice nor an assignment follows a chain.
def endsChain : Option Token → Bool
  | some (.symbol .question) | some (.symbol .assign) => false
  | some (.symbol mark) => (BinaryOp.ofAssignment? mark).isNone
  | _ => true

-- No suffix follows an operand.
def endsSuffixes : Option Token → Bool
  | some (.symbol .dot) | some (.symbol .leftParen) | some (.symbol .leftBracket)
  | some (.symbol .increment) | some (.symbol .decrement) => false
  | _ => true

-- No operator stands in front of the operand.
def startsOperand : Option Token → Bool
  | some (.symbol .minus) | some (.symbol .bang) | some (.symbol .increment)
  | some (.symbol .decrement) | some (.keyword .typeofWord) => false
  | _ => true

-- A statement that starts with the token is an expression, and neither a block nor a function.
def startsExpressionStatement : Option Token → Bool
  | some (.symbol .leftBrace) | some (.keyword .functionWord) => false
  | some token => startsExpression token
  | none => false

-- A `return` without a value and without a semicolon ends here.
def endsReturn : Option Token → Bool
  | some (.symbol .rightBrace) | none => true
  | _ => false

-- A reader with the value that it gives.
inductive Phrase where
  | expression (value : Expr)
  | links (links : List Link)
  | unary (value : Expr)
  | primary (value : Expr)
  | suffixes (target value : Expr)
  | expressions (closing : Symbol) (values : List Expr)
  | entries (entries : List (String × Expr))
  | parameters (names : List String)
  | pathTail (names : List String)
  | function (literal : Function)
  | block (block : Block)
  | blockItems (body : List Stmt)
  | statement (statement : Stmt)
  | optional (closing : Symbol) (value : Option Expr)
  | declarations (statement : Stmt)
  | items (body : List Stmt)

inductive Derives (script : List Char) : Phrase → Stream → Stream → Prop where
  | chain : Derives script (.unary first) s a → Derives script (.links operands) a t →
      endsChain t.token? → Derives script (.expression (Chain.group ⟨first, operands⟩)) s t
  | ternary : Derives script (.unary first) s a → Derives script (.links operands) a b →
      b.Passes (.symbol .question) c → Derives script (.expression yes) c d →
      d.Passes (.symbol .colon) e → Derives script (.expression no) e t →
      Derives script (.expression (.ternary b.offset (Chain.group ⟨first, operands⟩) yes no)) s t
  | assign : Derives script (.unary first) s a → Derives script (.links operands) a b →
      b.Passes (.symbol .assign) c → Derives script (.expression value) c t →
      Derives script (.expression (.assign b.offset (Chain.group ⟨first, operands⟩) value)) s t
  | update : Derives script (.unary first) s a → Derives script (.links operands) a b →
      b.Passes (.symbol mark) c → BinaryOp.ofAssignment? mark = some operator →
      Derives script (.expression value) c t →
      Derives script
        (.expression (.update b.offset operator (Chain.group ⟨first, operands⟩) value false)) s t
  | noLinks : endsLinks s.token? → Derives script (.links []) s s
  | link : s.Passes (.symbol mark) a → ChainOp.ofSymbol? mark = some operator →
      Derives script (.unary operand) a b → Derives script (.links operands) b t →
      Derives script (.links (⟨operator, s.offset, operand⟩ :: operands)) s t
  | signed (sign : Sign) : s.Passes sign.token a → Derives script (.unary operand) a t →
      Derives script (.unary (sign.apply s.offset operand)) s t
  | bumped (bump : Bump) : s.Passes (.symbol bump.mark) a → Derives script (.primary target) a t →
      Derives script (.unary (increment s.offset bump.operator target false)) s t
  | unsigned : startsOperand s.token? → Derives script (.primary value) s t →
      Derives script (.unary value) s t
  | atom (atom : Atom) : s.Passes atom.token a →
      Derives script (.suffixes (atom.expr s.offset) value) a t → Derives script (.primary value) s t
  | parens {inner : Expr} :
      s.Passes (.symbol .leftParen) a → Derives script (.expression inner) a b →
      b.Passes (.symbol .rightParen) c → Derives script (.suffixes inner value) c t →
      Derives script (.primary value) s t
  | object : s.Passes (.symbol .leftBrace) a → Derives script (.entries pairs) a b →
      b.Passes (.symbol .rightBrace) c →
      Derives script (.suffixes (.object s.offset pairs) value) c t →
      Derives script (.primary value) s t
  | array : s.Passes (.symbol .leftBracket) a →
      Derives script (.expressions .rightBracket elements) a b →
      b.Passes (.symbol .rightBracket) c →
      Derives script (.suffixes (.array s.offset elements) value) c t →
      Derives script (.primary value) s t
  | lambda : s.Passes (.keyword .functionWord) a → Derives script (.function literal) a b →
      literal.name = none → Derives script (.suffixes (.function s.offset literal) value) b t →
      Derives script (.primary value) s t
  | construct : s.Passes (.keyword .newWord) a → a.Passes (.identifier name) b →
      Derives script (.pathTail names) b c → c.Passes (.symbol .leftParen) d →
      Derives script (.expressions .rightParen arguments) d e → e.Passes (.symbol .rightParen) f →
      Derives script (.suffixes (.construct s.offset (name :: names) arguments) value) f t →
      Derives script (.primary value) s t
  | constructBare : s.Passes (.keyword .newWord) a → a.Passes (.identifier name) b →
      Derives script (.pathTail names) b c → c.token? ≠ some (.symbol .leftParen) →
      Derives script (.suffixes (.construct s.offset (name :: names) []) value) c t →
      Derives script (.primary value) s t
  | noSuffix : endsSuffixes s.token? → Derives script (.suffixes target target) s s
  | dot : s.Passes (.symbol .dot) a → a.Passes (.identifier name) b →
      Derives script (.suffixes (.dot s.offset target name) value) b t →
      Derives script (.suffixes target value) s t
  | call : s.Passes (.symbol .leftParen) a → Derives script (.expressions .rightParen arguments) a b →
      b.Passes (.symbol .rightParen) c →
      Derives script (.suffixes (.call s.offset target arguments) value) c t →
      Derives script (.suffixes target value) s t
  | subscript : s.Passes (.symbol .leftBracket) a → Derives script (.expression index) a b →
      b.Passes (.symbol .rightBracket) c →
      Derives script (.suffixes (.subscript s.offset target index) value) c t →
      Derives script (.suffixes target value) s t
  | postfixed (bump : Bump) : s.Passes (.symbol bump.mark) a →
      Derives script (.suffixes (increment s.offset bump.operator target true) value) a t →
      Derives script (.suffixes target value) s t
  | noExpressions : s.token? = some (.symbol closing) →
      Derives script (.expressions closing []) s s
  | lastExpression : s.token? ≠ some (.symbol closing) → Derives script (.expression value) s t →
      t.token? = some (.symbol closing) → Derives script (.expressions closing [value]) s t
  | moreExpressions : s.token? ≠ some (.symbol closing) → Derives script (.expression value) s a →
      a.token? ≠ some (.symbol closing) → a.Passes (.symbol .comma) b →
      Derives script (.expressions closing values) b t →
      Derives script (.expressions closing (value :: values)) s t
  | noEntries : s.token? = some (.symbol .rightBrace) → Derives script (.entries []) s s
  | lastEntry : s.Passes token a → token = .identifier key ∨ token = .literal (.string key) →
      a.Passes (.symbol .colon) b → Derives script (.expression value) b t →
      t.token? = some (.symbol .rightBrace) → Derives script (.entries [(key, value)]) s t
  | moreEntries : s.Passes token a → token = .identifier key ∨ token = .literal (.string key) →
      a.Passes (.symbol .colon) b → Derives script (.expression value) b c →
      c.Passes (.symbol .comma) d → Derives script (.entries pairs) d t →
      Derives script (.entries ((key, value) :: pairs)) s t
  | noParameters : s.token? = some (.symbol .rightParen) → Derives script (.parameters []) s s
  | lastParameter : s.Passes (.identifier name) t → t.token? = some (.symbol .rightParen) →
      Derives script (.parameters [name]) s t
  | moreParameters : s.Passes (.identifier name) a → a.Passes (.symbol .comma) b →
      Derives script (.parameters names) b t → Derives script (.parameters (name :: names)) s t
  | pathEnd : s.token? ≠ some (.symbol .dot) → Derives script (.pathTail []) s s
  | pathStep : s.Passes (.symbol .dot) a → a.Passes (.identifier name) b →
      Derives script (.pathTail names) b t → Derives script (.pathTail (name :: names)) s t
  | unnamed : s.Passes (.symbol .leftParen) a → Derives script (.parameters names) a b →
      b.Passes (.symbol .rightParen) c → Derives script (.block body) c t →
      Derives script (.function (.mk none names body.offset body.body
        (String.ofList (Text.slice script s.offset body.stop)))) s t
  | named : s.Passes (.identifier name) a → a.Passes (.symbol .leftParen) b →
      Derives script (.parameters names) b c → c.Passes (.symbol .rightParen) d →
      Derives script (.block body) d t →
      Derives script (.function (.mk (some name) names body.offset body.body
        (String.ofList (Text.slice script s.offset body.stop)))) s t
  | block : s.Passes (.symbol .leftBrace) a → Derives script (.blockItems body) a b →
      b.Passes (.symbol .rightBrace) t → Derives script (.block ⟨s.offset, body, b.stop⟩) s t
  | noBlockItems : s.token? = some (.symbol .rightBrace) → Derives script (.blockItems []) s s
  | moreBlockItems : s.token? ≠ some (.symbol .rightBrace) → s.token? ≠ none →
      Derives script (.statement first) s a → Derives script (.blockItems body) a t →
      Derives script (.blockItems (first :: body)) s t
  | blockStatement : s.token? = some (.symbol .leftBrace) → Derives script (.block body) s t →
      Derives script (.statement (.block body.offset body.body)) s t
  | declare : word ∈ [Keyword.varWord, .letWord, .constWord] → s.Passes (.keyword word) a →
      Derives script (.declarations declared) a t → Derives script (.statement declared) s t
  | branch : s.Passes (.keyword .ifWord) a → a.Passes (.symbol .leftParen) b →
      Derives script (.expression test) b c → c.Passes (.symbol .rightParen) d →
      Derives script (.statement yes) d t → t.token? ≠ some (.keyword .elseWord) →
      Derives script (.statement (.branch s.offset test yes none)) s t
  | branchElse : s.Passes (.keyword .ifWord) a → a.Passes (.symbol .leftParen) b →
      Derives script (.expression test) b c → c.Passes (.symbol .rightParen) d →
      Derives script (.statement yes) d e → e.Passes (.keyword .elseWord) f →
      Derives script (.statement no) f t →
      Derives script (.statement (.branch s.offset test yes (some no))) s t
  | whileLoop : s.Passes (.keyword .whileWord) a → a.Passes (.symbol .leftParen) b →
      Derives script (.expression test) b c → c.Passes (.symbol .rightParen) d →
      Derives script (.statement body) d t →
      Derives script (.statement (.loop s.offset none (some test) none body false)) s t
  | doLoop : s.Passes (.keyword .doWord) a → Derives script (.block body) a b →
      b.Passes (.keyword .whileWord) c → c.Passes (.symbol .leftParen) d →
      Derives script (.expression test) d e → e.Passes (.symbol .rightParen) f → f.Closes t →
      Derives script (.statement
        (.loop s.offset none (some test) none (.block body.offset body.body) true)) s t
  | forLoop : s.Passes (.keyword .forWord) a → a.Passes (.symbol .leftParen) b →
      Derives script (.statement initial) b c → Derives script (.optional .semicolon test) c d →
      Derives script (.optional .rightParen step) d e → Derives script (.statement body) e t →
      Derives script (.statement (.loop s.offset (some initial) test step body false)) s t
  | giveNothing : s.Passes (.keyword .returnWord) a → a.Passes (.symbol .semicolon) t →
      Derives script (.statement (.giveBack s.offset none)) s t
  | giveNothingAtEnd : s.Passes (.keyword .returnWord) t → endsReturn t.token? →
      Derives script (.statement (.giveBack s.offset none)) s t
  | giveBack : s.Passes (.keyword .returnWord) a → a.token? ≠ some (.symbol .semicolon) →
      endsReturn a.token? = false → Derives script (.expression value) a t →
      t.token? ≠ some (.symbol .semicolon) →
      Derives script (.statement (.giveBack s.offset (some value))) s t
  | giveBackClosed : s.Passes (.keyword .returnWord) a → a.token? ≠ some (.symbol .semicolon) →
      endsReturn a.token? = false → Derives script (.expression value) a b →
      b.Passes (.symbol .semicolon) t →
      Derives script (.statement (.giveBack s.offset (some value))) s t
  | jump (jump : Jump) : s.Passes (.keyword jump.word) a → a.Closes t →
      Derives script (.statement (jump.statement s.offset)) s t
  | functionStatement : s.Passes (.keyword .functionWord) a → Derives script (.function literal) a t →
      literal.name = some name →
      Derives script (.statement (.expression
        (.assign s.offset (.identifier s.offset name) (.function s.offset literal)))) s t
  | empty : s.Passes (.symbol .semicolon) t → Derives script (.statement (.empty s.offset)) s t
  | expressionStatement : startsExpressionStatement s.token? →
      Derives script (.expression value) s a → a.Closes t →
      Derives script (.statement (.expression value)) s t
  | noOption : s.Passes (.symbol closing) t → Derives script (.optional closing none) s t
  | someOption : s.token? ≠ some (.symbol closing) → Derives script (.expression value) s a →
      a.Passes (.symbol closing) t → Derives script (.optional closing (some value)) s t
  | declaration : s.Passes (.identifier name) a → a.token? ≠ some (.symbol .assign) →
      a.token? ≠ some (.symbol .comma) → a.Closes t →
      Derives script (.declarations (.declare s.offset name none)) s t
  | declarationValue : s.Passes (.identifier name) a → a.Passes (.symbol .assign) b →
      Derives script (.expression value) b c → c.token? ≠ some (.symbol .comma) → c.Closes t →
      Derives script (.declarations (.declare s.offset name (some value))) s t
  | moreDeclarations : s.Passes (.identifier name) a → a.Passes (.symbol .comma) b →
      Derives script (.declarations others) b t →
      Derives script (.declarations
        (.block s.offset [.declare s.offset name none, others])) s t
  | moreDeclarationsValue : s.Passes (.identifier name) a → a.Passes (.symbol .assign) b →
      Derives script (.expression value) b c → c.Passes (.symbol .comma) d →
      Derives script (.declarations others) d t →
      Derives script (.declarations
        (.block s.offset [.declare s.offset name (some value), others])) s t
  | noItems : s.token? = none → Derives script (.items []) s s
  | moreItems : s.token? ≠ none → Derives script (.statement first) s a →
      Derives script (.items body) a t → Derives script (.items (first :: body)) s t

-- The tokens that a phrase has at least.
@[grind] def Phrase.least : Phrase → Nat
  | links _ | suffixes _ _ | expressions _ _ | entries _ | parameters _ | pathTail _
  | blockItems _ | items _ => 0
  | expression _ | unary _ | primary _ | function _ | block _ | statement _ | optional _ _
  | declarations _ => 1

@[grind →] theorem Derives.length_le {script : List Char} {phrase : Phrase} {s t : Stream}
    (h : Derives script phrase s t) : t.length + phrase.least ≤ s.length := by
  induction h
  all_goals grind

end ScriptEngine.Grammar
