import ScriptEngine.Proofs.Printing.Spelling
import ScriptEngine.Proofs.Reading.Derivation

-- The canonical text of a program: every expression inside of another node stands in parentheses,
-- every body in braces, and every simple statement ends with a semicolon. `Shaped` are the trees
-- that reading can give, up to the statements that may stand without braces.

namespace ScriptEngine

open Grammar

-- The operand that a literal is read from.
def Literal.atom : Literal → Atom
  | .undefined => .undefined
  | .null => .null
  | .boolean value => .boolean value
  | .number (.double _) => .infinity
  | value => .literal value

-- Among the doubles only the infinity is written.
def Literal.Shaped : Literal → Prop
  | .number (.double value) => value = Double.infinity
  | _ => True

def UnaryOp.sign : UnaryOp → Sign
  | not => .bang
  | typeOf => .typeOf

-- The symbol that combines an operator with an assignment.
def BinaryOp.assignmentMark? (operator : BinaryOp) : Option Symbol :=
  Symbol.all.find? fun mark => BinaryOp.ofAssignment? mark = some operator

def BinaryOp.bump? : BinaryOp → Option Bump
  | add => some .up
  | subtract => some .down
  | _ => none

namespace Token

def enclosed (tokens : List Token) : List Token :=
  symbol .leftParen :: tokens ++ [symbol .rightParen]

def braced (tokens : List Token) : List Token :=
  symbol .leftBrace :: tokens ++ [symbol .rightBrace]

def bracketed (tokens : List Token) : List Token :=
  symbol .leftBracket :: tokens ++ [symbol .rightBracket]

-- Puts commas between the parts.
def separated : List (List Token) → List Token
  | [] => []
  | [part] => part
  | part :: parts => part ++ symbol .comma :: separated parts

def names (list : List String) : List Token :=
  separated (list.map fun name => [identifier name])

-- Puts dots between the names.
def path : List String → List Token
  | [] => []
  | first :: rest => identifier first :: rest.flatMap fun name => [symbol .dot, identifier name]

end Token

open Token (enclosed braced bracketed separated names path)

mutual

def Expr.tokens : Expr → List Token
  | .literal _ value => [value.atom.token]
  | .identifier _ name => [.identifier name]
  | .receiver _ => [.keyword .thisWord]
  | .dot _ target name => enclosed target.tokens ++ [.symbol .dot, .identifier name]
  | .subscript _ target index => enclosed target.tokens ++ bracketed (enclosed index.tokens)
  | .unary _ operator operand => operator.sign.token :: enclosed operand.tokens
  | .binary _ operator left right =>
    enclosed left.tokens ++ .symbol operator.mark :: enclosed right.tokens
  | .logical _ operator left right =>
    enclosed left.tokens ++ .symbol operator.mark :: enclosed right.tokens
  | .ternary _ test yes no =>
    enclosed test.tokens ++ .symbol .question :: enclosed yes.tokens
      ++ .symbol .colon :: enclosed no.tokens
  | .assign _ target value =>
    enclosed target.tokens ++ .symbol .assign :: enclosed value.tokens
  | .update _ operator target value false =>
    enclosed target.tokens ++ (operator.assignmentMark?.map Token.symbol).toList
      ++ enclosed value.tokens
  | .update _ operator target _ true =>
    enclosed target.tokens ++ (operator.bump?.map fun bump => Token.symbol bump.mark).toList
  | .call _ callee arguments =>
    enclosed callee.tokens ++ enclosed (separated (Expr.tokensOfAll arguments))
  | .construct _ names arguments =>
    .keyword .newWord :: path names ++ enclosed (separated (Expr.tokensOfAll arguments))
  | .object _ entries => braced (separated (Expr.tokensOfEntries entries))
  | .array _ elements => bracketed (separated (Expr.tokensOfAll elements))
  | .function _ literal => literal.tokens

def Expr.tokensOfAll : List Expr → List (List Token)
  | [] => []
  | first :: rest => enclosed first.tokens :: Expr.tokensOfAll rest

def Expr.tokensOfEntries : List (String × Expr) → List (List Token)
  | [] => []
  | (key, value) :: rest =>
    (.literal (.string key) :: .symbol .colon :: enclosed value.tokens)
      :: Expr.tokensOfEntries rest

def Expr.tokensOfOption : Option Expr → List Token
  | none => []
  | some value => enclosed value.tokens

def Expr.tokensOfInitial : Option Expr → List Token
  | none => []
  | some value => .symbol .assign :: enclosed value.tokens

-- The text of a function that is declared by a statement.
def Expr.declared? : Expr → Option (List Token)
  | .assign _ _ (.function _ literal) =>
    if literal.name.isSome then some literal.tokens else none
  | _ => none

def Stmt.tokens : Stmt → List Token
  | .empty _ => [.symbol .semicolon]
  | .block _ body => braced (Stmt.tokensOfAll body)
  | .branch _ test yes no =>
    .keyword .ifWord :: enclosed (enclosed test.tokens) ++ yes.tokens ++ Stmt.tokensOfElse no
  | .declare _ name initial =>
    .keyword .varWord :: .identifier name :: Expr.tokensOfInitial initial ++ [.symbol .semicolon]
  | .loop _ (some initial) test step body _ =>
    .keyword .forWord
      :: enclosed (initial.tokens ++ Expr.tokensOfOption test
        ++ .symbol .semicolon :: Expr.tokensOfOption step)
      ++ body.tokens
  | .loop _ none test _ body true =>
    .keyword .doWord :: body.tokens ++ .keyword .whileWord :: enclosed (Expr.tokensOfOption test)
      ++ [.symbol .semicolon]
  | .loop _ none test _ body false =>
    .keyword .whileWord :: enclosed (Expr.tokensOfOption test) ++ body.tokens
  | .giveBack _ value => .keyword .returnWord :: Expr.tokensOfOption value ++ [.symbol .semicolon]
  | .breakLoop _ => [.keyword .breakWord, .symbol .semicolon]
  | .continueLoop _ => [.keyword .continueWord, .symbol .semicolon]
  | .expression value =>
    value.declared?.getD (enclosed value.tokens ++ [.symbol .semicolon])

def Stmt.tokensOfElse : Option Stmt → List Token
  | none => []
  | some no => .keyword .elseWord :: no.tokens

def Stmt.tokensOfAll : List Stmt → List Token
  | [] => []
  | first :: rest => first.tokens ++ Stmt.tokensOfAll rest

def Function.tokens : Function → List Token
  | .mk name parameters _ body _ =>
    .keyword .functionWord :: (name.map Token.identifier).toList ++ enclosed (names parameters)
      ++ braced (Stmt.tokensOfAll body)

end

-- The canonical text of a program.
def Program.text (program : Program) : String :=
  String.ofList (Token.write (Stmt.tokensOfAll program.body))

def Stmt.isBlock : Stmt → Bool
  | .block _ _ => true
  | _ => false

mutual

def Expr.Shaped : Expr → Prop
  | .literal _ value => value.Shaped
  | .identifier _ name => Token.isName name.toList
  | .receiver _ => True
  | .dot _ target name => target.Shaped ∧ Token.isName name.toList
  | .subscript _ target index => target.Shaped ∧ index.Shaped
  | .unary _ _ operand => operand.Shaped
  | .binary _ _ left right | .logical _ _ left right => left.Shaped ∧ right.Shaped
  | .ternary _ test yes no => test.Shaped ∧ yes.Shaped ∧ no.Shaped
  | .assign _ target value => target.Shaped ∧ value.Shaped
  | .update _ operator target value false =>
    operator.assignmentMark?.isSome ∧ target.Shaped ∧ value.Shaped
  | .update _ operator target value true =>
    operator.bump?.isSome ∧ target.Shaped ∧ ∃ offset, value = integer offset 1
  | .call _ callee arguments => callee.Shaped ∧ Expr.AllShaped arguments
  | .construct _ names arguments =>
    names ≠ [] ∧ (∀ name ∈ names, Token.isName name.toList) ∧ Expr.AllShaped arguments
  | .object _ entries => Expr.EntriesShaped entries
  | .array _ elements => Expr.AllShaped elements
  | .function _ literal => literal.name = none ∧ literal.Shaped

def Expr.AllShaped : List Expr → Prop
  | [] => True
  | first :: rest => first.Shaped ∧ Expr.AllShaped rest

def Expr.EntriesShaped : List (String × Expr) → Prop
  | [] => True
  | (_, value) :: rest => value.Shaped ∧ Expr.EntriesShaped rest

def Expr.OptionShaped : Option Expr → Prop
  | none => True
  | some value => value.Shaped

-- A named function stands only in the statement that assigns it to its name.
def Expr.Declares : Expr → Prop
  | .assign _ (.identifier _ name) (.function _ literal) =>
    literal.name = some name ∧ literal.Shaped
  | _ => False

def Stmt.Shaped : Stmt → Prop
  | .empty _ | .breakLoop _ | .continueLoop _ => True
  | .block _ body => Stmt.AllShaped body
  | .branch _ test yes no => test.Shaped ∧ yes.isBlock ∧ yes.Shaped ∧ Stmt.ElseShaped no
  | .declare _ name initial => Token.isName name.toList ∧ Expr.OptionShaped initial
  -- The three forms of loops: `for`, and then `do` and `while`.
  | .loop _ (some initial) test step body testLast =>
    testLast = false ∧ initial.Shaped ∧ Expr.OptionShaped test ∧ Expr.OptionShaped step ∧
      body.isBlock ∧ body.Shaped
  | .loop _ none test step body _ =>
    test.isSome ∧ step = none ∧ Expr.OptionShaped test ∧ body.isBlock ∧ body.Shaped
  | .giveBack _ value => Expr.OptionShaped value
  | .expression value => value.Declares ∨ value.Shaped

def Stmt.ElseShaped : Option Stmt → Prop
  | none => True
  | some no => no.isBlock ∧ no.Shaped

def Stmt.AllShaped : List Stmt → Prop
  | [] => True
  | first :: rest => first.Shaped ∧ Stmt.AllShaped rest

def Function.Shaped : Function → Prop
  | .mk name parameters _ body _ =>
    (∀ own, name = some own → Token.isName own.toList) ∧
      (∀ name ∈ parameters, Token.isName name.toList) ∧ Stmt.AllShaped body

end

def Program.Shaped (program : Program) : Prop :=
  Stmt.AllShaped program.body

-- A name belongs to a function only where a statement declares it.
theorem Expr.declared?_eq_none {value : Expr} (h : value.Shaped) : value.declared? = none := by
  unfold Expr.declared?
  split
  · next literal =>
    simp only [Expr.Shaped] at h
    simp [h.2.1]
  · rfl

-- Every token has a spelling.
def AllSpellable (tokens : List Token) : Prop :=
  ∀ token ∈ tokens, token.Spellable

section Spellable

variable {front back tokens : List Token} {token : Token}

@[simp] theorem allSpellable_nil : AllSpellable [] := by
  simp [AllSpellable]

@[simp] theorem allSpellable_cons :
    AllSpellable (token :: tokens) ↔ token.Spellable ∧ AllSpellable tokens :=
  List.forall_mem_cons

@[simp] theorem allSpellable_append :
    AllSpellable (front ++ back) ↔ AllSpellable front ∧ AllSpellable back :=
  List.forall_mem_append

@[simp] theorem spellable_keyword {word : Keyword} : (Token.keyword word).Spellable := trivial

@[simp] theorem spellable_symbol {mark : Symbol} : (Token.symbol mark).Spellable := trivial

@[simp] theorem spellable_identifier {name : String} :
    (Token.identifier name).Spellable ↔ Token.isName name.toList := Iff.rfl

@[simp] theorem spellable_string {value : String} : (Token.literal (.string value)).Spellable :=
  trivial

@[simp] theorem allSpellable_enclosed : AllSpellable (enclosed tokens) ↔ AllSpellable tokens := by
  simp [enclosed]

@[simp] theorem allSpellable_braced : AllSpellable (braced tokens) ↔ AllSpellable tokens := by
  simp [braced]

@[simp] theorem allSpellable_bracketed : AllSpellable (bracketed tokens) ↔ AllSpellable tokens := by
  simp [bracketed]

theorem allSpellable_separated {parts : List (List Token)} (h : ∀ part ∈ parts, AllSpellable part) :
    AllSpellable (separated parts) := by
  induction parts with
  | nil => simp [separated]
  | cons part rest ih =>
    rw [List.forall_mem_cons] at h
    cases rest with
    | nil => exact h.1
    | cons next others => simp [separated, h.1, ih h.2]

theorem allSpellable_names {list : List String} (h : ∀ name ∈ list, Token.isName name.toList) :
    AllSpellable (names list) := by
  refine allSpellable_separated ?_
  simpa using h

theorem allSpellable_path {list : List String} (h : ∀ name ∈ list, Token.isName name.toList) :
    AllSpellable (path list) := by
  cases list with
  | nil => simp [path]
  | cons first rest =>
    rw [List.forall_mem_cons] at h
    rw [path, allSpellable_cons]
    refine ⟨h.1, ?_⟩
    intro token ht
    obtain ⟨name, hn, ht⟩ := List.mem_flatMap.mp ht
    simp only [List.mem_cons, List.not_mem_nil, or_false] at ht
    obtain rfl | rfl := ht
    · trivial
    · exact h.2 name hn

theorem spellable_atom {value : Literal} : value.atom.token.Spellable := by
  match value with
  | .undefined | .null | .boolean true | .boolean false | .number (.int _) | .number (.double _)
  | .string _ => trivial

theorem spellable_sign {sign : Sign} : sign.token.Spellable := by
  cases sign <;> trivial

end Spellable

mutual

theorem Expr.spellable (value : Expr) (h : value.Shaped) : AllSpellable value.tokens := by
  match value with
  | .literal _ value => simp [Expr.tokens, spellable_atom]
  | .identifier _ name =>
    simpa [Expr.tokens, Expr.Shaped] using h
  | .receiver _ => simp [Expr.tokens]
  | .dot _ target name =>
    simp only [Expr.Shaped] at h
    simp [Expr.tokens, target.spellable h.1, h.2]
  | .subscript _ target index =>
    simp only [Expr.Shaped] at h
    simp [Expr.tokens, target.spellable h.1, index.spellable h.2]
  | .unary _ operator operand =>
    simp only [Expr.Shaped] at h
    simp [Expr.tokens, spellable_sign, operand.spellable h]
  | .binary _ operator left right | .logical _ operator left right =>
    simp only [Expr.Shaped] at h
    simp [Expr.tokens, left.spellable h.1, right.spellable h.2]
  | .ternary _ test yes no =>
    simp only [Expr.Shaped] at h
    simp [Expr.tokens, test.spellable h.1, yes.spellable h.2.1, no.spellable h.2.2]
  | .assign _ target value =>
    simp only [Expr.Shaped] at h
    simp [Expr.tokens, target.spellable h.1, value.spellable h.2]
  | .update _ operator target value false =>
    simp only [Expr.Shaped] at h
    cases hm : operator.assignmentMark? <;>
      simp [Expr.tokens, hm, target.spellable h.2.1, value.spellable h.2.2]
  | .update _ operator target value true =>
    simp only [Expr.Shaped] at h
    cases hb : operator.bump? <;> simp [Expr.tokens, hb, target.spellable h.2.1]
  | .call _ callee arguments =>
    simp only [Expr.Shaped] at h
    simp [Expr.tokens, callee.spellable h.1, allSpellable_separated (Expr.all_spellable arguments h.2)]
  | .construct _ names arguments =>
    simp only [Expr.Shaped] at h
    simp [Expr.tokens, allSpellable_path h.2.1,
      allSpellable_separated (Expr.all_spellable arguments h.2.2)]
  | .object _ entries =>
    simp only [Expr.Shaped] at h
    simp [Expr.tokens, allSpellable_separated (Expr.entries_spellable entries h)]
  | .array _ elements =>
    simp only [Expr.Shaped] at h
    simp [Expr.tokens, allSpellable_separated (Expr.all_spellable elements h)]
  | .function _ literal =>
    simp only [Expr.Shaped] at h
    simp [Expr.tokens, literal.spellable h.2]

theorem Expr.all_spellable (values : List Expr) (h : Expr.AllShaped values) :
    ∀ part ∈ Expr.tokensOfAll values, AllSpellable part := by
  match values with
  | [] => simp [Expr.tokensOfAll]
  | first :: rest =>
    simp only [Expr.AllShaped] at h
    rw [Expr.tokensOfAll]
    refine List.forall_mem_cons.mpr ⟨?_, Expr.all_spellable rest h.2⟩
    simpa using first.spellable h.1

theorem Expr.entries_spellable (entries : List (String × Expr)) (h : Expr.EntriesShaped entries) :
    ∀ part ∈ Expr.tokensOfEntries entries, AllSpellable part := by
  match entries with
  | [] => simp [Expr.tokensOfEntries]
  | (key, value) :: rest =>
    simp only [Expr.EntriesShaped] at h
    rw [Expr.tokensOfEntries]
    refine List.forall_mem_cons.mpr ⟨?_, Expr.entries_spellable rest h.2⟩
    simpa using value.spellable h.1

theorem Expr.option_spellable (value : Option Expr) (h : Expr.OptionShaped value) :
    AllSpellable (Expr.tokensOfOption value) ∧ AllSpellable (Expr.tokensOfInitial value) := by
  match value with
  | none => simp [Expr.tokensOfOption, Expr.tokensOfInitial]
  | some value =>
    simp only [Expr.OptionShaped] at h
    simp [Expr.tokensOfOption, Expr.tokensOfInitial, value.spellable h]

theorem Stmt.spellable (statement : Stmt) (h : statement.Shaped) :
    AllSpellable statement.tokens := by
  match statement with
  | .empty _ | .breakLoop _ | .continueLoop _ => simp [Stmt.tokens]
  | .block _ body =>
    simp only [Stmt.Shaped] at h
    simp [Stmt.tokens, Stmt.all_spellable body h]
  | .branch _ test yes no =>
    simp only [Stmt.Shaped] at h
    simp [Stmt.tokens, test.spellable h.1, yes.spellable h.2.2.1, Stmt.else_spellable no h.2.2.2]
  | .declare _ name initial =>
    simp only [Stmt.Shaped] at h
    simp [Stmt.tokens, h.1, (Expr.option_spellable initial h.2).2]
  | .loop _ (some initial) test step body testLast =>
    simp only [Stmt.Shaped] at h
    obtain ⟨-, hi, ht, hs, -, hb⟩ := h
    simp [Stmt.tokens, initial.spellable hi, (Expr.option_spellable test ht).1,
      (Expr.option_spellable step hs).1, body.spellable hb]
  | .loop _ none test step body testLast =>
    simp only [Stmt.Shaped] at h
    obtain ⟨-, -, ht, -, hb⟩ := h
    cases testLast <;>
      simp [Stmt.tokens, (Expr.option_spellable test ht).1, body.spellable hb]
  | .giveBack _ value =>
    simp only [Stmt.Shaped] at h
    simp [Stmt.tokens, (Expr.option_spellable value h).1]
  | .expression value =>
    simp only [Stmt.Shaped] at h
    obtain h | h := h
    · exact Expr.declares_spellable value h
    · simp [Stmt.tokens, Expr.declared?_eq_none h, value.spellable h]

theorem Stmt.else_spellable (no : Option Stmt) (h : Stmt.ElseShaped no) :
    AllSpellable (Stmt.tokensOfElse no) := by
  match no with
  | none => simp [Stmt.tokensOfElse]
  | some other =>
    simp only [Stmt.ElseShaped] at h
    simp [Stmt.tokensOfElse, other.spellable h.2]

theorem Expr.declares_spellable (value : Expr) (h : value.Declares) :
    AllSpellable (Stmt.expression value).tokens := by
  match value with
  | .assign _ (.identifier _ name) (.function _ literal) =>
    simp only [Expr.Declares] at h
    simp [Stmt.tokens, Expr.declared?, h.1, literal.spellable h.2]

theorem Stmt.all_spellable (body : List Stmt) (h : Stmt.AllShaped body) :
    AllSpellable (Stmt.tokensOfAll body) := by
  match body with
  | [] => simp [Stmt.tokensOfAll]
  | first :: rest =>
    simp only [Stmt.AllShaped] at h
    simp [Stmt.tokensOfAll, first.spellable h.1, Stmt.all_spellable rest h.2]

theorem Function.spellable (literal : Function) (h : literal.Shaped) :
    AllSpellable literal.tokens := by
  match literal with
  | .mk name parameters _ body _ =>
    simp only [Function.Shaped] at h
    have hn : AllSpellable (name.map Token.identifier).toList := by
      cases name with
      | none => simp
      | some own => simpa using h.1 own rfl
    simp [Function.tokens, hn, allSpellable_names h.2.1, Stmt.all_spellable body h.2.2]

end

end ScriptEngine
