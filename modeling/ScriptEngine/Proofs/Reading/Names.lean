import ScriptEngine.Proofs.Lexing.Longest
import ScriptEngine.Proofs.Reading.Completeness
import ScriptEngine.Proofs.Source.Functions

-- The names of a tree, of which none is a keyword if the tree has been read.

namespace ScriptEngine

mutual

-- The names that stand in an expression as words of their own. The body of a function literal is a
-- tree of its own, and the keys of an object may be any texts.
def Expr.names : Expr → List String
  | .literal _ _ | .receiver _ | .function _ _ => []
  | .identifier _ name => [name]
  | .dot _ target name => target.names ++ [name]
  | .subscript _ target index => target.names ++ index.names
  | .unary _ _ operand => operand.names
  | .binary _ _ left right | .logical _ _ left right => left.names ++ right.names
  | .ternary _ test yes no => test.names ++ yes.names ++ no.names
  | .assign _ target value => target.names ++ value.names
  | .update _ _ target value _ => target.names ++ value.names
  | .call _ callee arguments => callee.names ++ Expr.namesOfAll arguments
  | .construct _ path arguments => path ++ Expr.namesOfAll arguments
  | .object _ entries => Expr.namesOfEntries entries
  | .array _ elements => Expr.namesOfAll elements

def Expr.namesOfAll : List Expr → List String
  | [] => []
  | first :: rest => first.names ++ Expr.namesOfAll rest

def Expr.namesOfEntries : List (String × Expr) → List String
  | [] => []
  | (_, value) :: rest => value.names ++ Expr.namesOfEntries rest

end

def Expr.namesOfOption : Option Expr → List String
  | none => []
  | some value => value.names

mutual

def Stmt.names : Stmt → List String
  | .empty _ | .breakLoop _ | .continueLoop _ => []
  | .block _ body => Stmt.namesOfAll body
  | .branch _ test yes no => test.names ++ yes.names ++ Stmt.namesOfOption no
  | .declare _ name initial => name :: Expr.namesOfOption initial
  | .loop _ initial test step body _ =>
    Stmt.namesOfOption initial ++ Expr.namesOfOption test ++ Expr.namesOfOption step ++ body.names
  | .giveBack _ value => Expr.namesOfOption value
  | .expression value => value.names

def Stmt.namesOfOption : Option Stmt → List String
  | none => []
  | some item => item.names

def Stmt.namesOfAll : List Stmt → List String
  | [] => []
  | first :: rest => first.names ++ Stmt.namesOfAll rest

end

-- The names of a function literal are its own, those of its parameters and those of its body.
def Function.names (literal : Function) : List String :=
  literal.name.toList ++ literal.parameters ++ Stmt.namesOfAll literal.body

def Link.names : List Link → List String
  | [] => []
  | link :: rest => link.operand.names ++ names rest

section Chain

variable {name : String}

theorem ChainOp.mem_names_join {operator : ChainOp} {offset : Nat} {left right : Expr} :
    name ∈ (operator.join offset left right).names ↔ name ∈ left.names ∨ name ∈ right.names := by
  cases operator <;> simp [ChainOp.join, Expr.names]

theorem Link.mem_names {links : List Link} :
    name ∈ Link.names links ↔ ∃ link ∈ links, name ∈ link.operand.names := by
  induction links with
  | nil => simp [Link.names]
  | cons link rest ih => simp [Link.names, ih]

-- Grouping moves the names of a chain and adds none.
@[grind →] theorem Chain.mem_names_group {first : Expr} {links : List Link}
    (h : name ∈ (Chain.group ⟨first, links⟩).names) :
    name ∈ first.names ∨ name ∈ Link.names links := by
  rw [Link.mem_names]
  exact (group_grouped ⟨first, links⟩).exists_operand (name ∈ ·.names)
    (fun _ _ => ChainOp.mem_names_join.mp) h

end Chain

-- No keyword is spelled like the name.
def IsName (name : String) : Prop :=
  ∀ word : Keyword, word.text ≠ name

-- An identifier of a text is no keyword.
theorem Stream.At.isName {script : List Char} {stream rest : Stream} {name : String}
    (h : stream.At script) (hp : stream.Passes (.identifier name) rest) : IsName name := by
  obtain ⟨cursor, -, hs⟩ := h
  obtain ⟨lexeme, rfl, htoken, -⟩ := hp
  obtain ⟨offset, first, tail, token, size, -, ht, rfl, -⟩ := ofCursor_eq_next.mp hs.symm
  dsimp only at htoken
  subst htoken
  obtain ⟨hname, hkeyword, -⟩ := Scan.token_fits ht
  rintro word rfl
  exact hkeyword word hname

namespace Grammar

def Phrase.names : Phrase → List String
  | .expression value | .unary value | .primary value | .suffixes _ value => value.names
  | .links operands => Link.names operands
  | .expressions _ values => Expr.namesOfAll values
  | .entries pairs => Expr.namesOfEntries pairs
  | .parameters names | .pathTail names => names
  | .function literal => literal.names
  | .block braces => Stmt.namesOfAll braces.body
  | .blockItems body | .items body => Stmt.namesOfAll body
  | .statement item | .declarations item => item.names
  | .optional _ value => Expr.namesOfOption value

-- The names that a phrase takes over from what was read before.
def Phrase.namesTaken : Phrase → List String
  | .suffixes target _ => target.names
  | _ => []

variable {script : List Char} {offset : Nat}

theorem Sign.names_apply (sign : Sign) {operand : Expr} :
    (sign.apply offset operand).names = operand.names := by
  cases sign <;> simp [Sign.apply, integer, Expr.names]

theorem Jump.names_statement (jump : Jump) : (jump.statement offset).names = [] := by
  cases jump <;> rfl

theorem names_increment {operator : BinaryOp} {target : Expr} {givesOld : Bool} :
    (increment offset operator target givesOld).names = target.names := by
  simp [increment, integer, Expr.names]

theorem Atom.isName {s a : Stream} (atom : Atom) (hs : s.At script) (hp : s.Passes atom.token a)
    {name : String} (hn : name ∈ (atom.expr offset).names) : IsName name := by
  cases atom with
  | identifier other =>
    obtain rfl := List.mem_singleton.mp hn
    exact hs.isName hp
  | _ => cases hn

-- The names of a derived phrase are no keywords, but for those that it takes over.
theorem Derives.isName {phrase : Phrase} {s t : Stream} (h : Derives script phrase s t)
    (hs : s.At script) {name : String} (hn : name ∈ phrase.names) :
    name ∈ phrase.namesTaken ∨ IsName name := by
  have hname {s a : Stream} {name : String} (hs : s.At script)
      (hp : s.Passes (.identifier name) a) : IsName name := hs.isName hp
  induction h with
  | noLinks | noExpressions | noEntries | noParameters | pathEnd | noBlockItems | giveNothing
  | giveNothingAtEnd | empty | noOption | noItems =>
    exact absurd hn List.not_mem_nil
  | jump jump =>
    rw [Phrase.names, jump.names_statement] at hn
    exact absurd hn List.not_mem_nil
  | _ =>
    have hleads := @hs.leads
    simp only [Phrase.names, Phrase.namesTaken, Expr.names, Expr.namesOfAll, Expr.namesOfEntries,
      Expr.namesOfOption, Stmt.names, Stmt.namesOfAll, Stmt.namesOfOption, Link.names,
      Function.names, Function.name, Function.parameters, Function.body, Sign.names_apply,
      names_increment, List.mem_append, List.mem_cons, List.not_mem_nil, false_or] at *
    grind [Atom.isName]

theorem Traced.isName {literal : Function} (h : Traced script literal) {name : String}
    (hn : name ∈ literal.names) : IsName name := by
  obtain ⟨s, t, hs, hd⟩ := h
  exact (hd.isName hs hn).resolve_left List.not_mem_nil

end Grammar

open Grammar

section Read

variable {script name : String}

-- Neither the names of what has been read are keywords, nor those of its function literals.
theorem Program.isName_of_read {program : Program} (h : Program.read script = .ok program) :
    (name ∈ Stmt.namesOfAll program.body → IsName name) ∧
    ∀ literal ∈ program.functions, name ∈ literal.names → IsName name := by
  obtain ⟨-, -, t, hd⟩ := Program.read_eq_ok.mp h
  refine ⟨fun hn => ?_, fun literal hf hn => ?_⟩
  · exact (hd.isName Stream.ofText_at hn).resolve_left List.not_mem_nil
  · exact ((hd.traced Stream.ofText_at hf).resolve_left List.not_mem_nil).isName hn

theorem Expr.isName_of_read {value : Expr} (h : Expr.read script = .ok value) :
    (name ∈ value.names → IsName name) ∧
    ∀ literal ∈ value.functions, name ∈ literal.names → IsName name := by
  obtain ⟨-, s, t, hd, -⟩ := Expr.read_eq_ok.mp h
  refine ⟨fun hn => ?_, fun literal hf hn => ?_⟩
  · exact (hd.isName Stream.ofText_at hn).resolve_left List.not_mem_nil
  · exact ((hd.traced Stream.ofText_at hf).resolve_left List.not_mem_nil).isName hn

end Read

end ScriptEngine
