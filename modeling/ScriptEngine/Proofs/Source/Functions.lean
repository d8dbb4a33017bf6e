import ScriptEngine.Proofs.Lexing.Place
import ScriptEngine.Proofs.Reading.Precedence

-- The function literals of a tree at every depth, and where the text has them.

namespace ScriptEngine

mutual

-- The function literals of an expression, those inside of function bodies included.
def Expr.functions : Expr → List Function
  | .literal _ _ | .identifier _ _ | .receiver _ => []
  | .dot _ target _ => target.functions
  | .subscript _ target index => target.functions ++ index.functions
  | .unary _ _ operand => operand.functions
  | .binary _ _ left right | .logical _ _ left right => left.functions ++ right.functions
  | .ternary _ test yes no => test.functions ++ yes.functions ++ no.functions
  | .assign _ target value => target.functions ++ value.functions
  | .update _ _ target value _ => target.functions ++ value.functions
  | .call _ callee arguments => callee.functions ++ Expr.functionsOfAll arguments
  | .construct _ _ arguments => Expr.functionsOfAll arguments
  | .object _ entries => Expr.functionsOfEntries entries
  | .array _ elements => Expr.functionsOfAll elements
  | .function _ literal => literal.functions

def Expr.functionsOfAll : List Expr → List Function
  | [] => []
  | first :: rest => first.functions ++ Expr.functionsOfAll rest

def Expr.functionsOfEntries : List (String × Expr) → List Function
  | [] => []
  | (_, value) :: rest => value.functions ++ Expr.functionsOfEntries rest

def Expr.functionsOfOption : Option Expr → List Function
  | none => []
  | some value => value.functions

def Stmt.functions : Stmt → List Function
  | .empty _ | .breakLoop _ | .continueLoop _ => []
  | .block _ body => Stmt.functionsOfAll body
  | .branch _ test yes no => test.functions ++ yes.functions ++ Stmt.functionsOfOption no
  | .declare _ _ value | .giveBack _ value => Expr.functionsOfOption value
  | .loop _ initial test step body _ =>
    Stmt.functionsOfOption initial ++ Expr.functionsOfOption test ++ Expr.functionsOfOption step
      ++ body.functions
  | .expression value => value.functions

def Stmt.functionsOfOption : Option Stmt → List Function
  | none => []
  | some item => item.functions

def Stmt.functionsOfAll : List Stmt → List Function
  | [] => []
  | first :: rest => first.functions ++ Stmt.functionsOfAll rest

-- A function literal and those inside of its body.
def Function.functions : Function → List Function
  | .mk name parameters offset body source =>
    .mk name parameters offset body source :: Stmt.functionsOfAll body

end

def Program.functions (program : Program) : List Function :=
  Stmt.functionsOfAll program.body

def Link.functions : List Link → List Function
  | [] => []
  | link :: rest => link.operand.functions ++ functions rest

section Chain

variable {literal : Function}

theorem ChainOp.mem_join {operator : ChainOp} {offset : Nat} {left right : Expr} :
    literal ∈ (operator.join offset left right).functions ↔
      literal ∈ left.functions ∨ literal ∈ right.functions := by
  cases operator <;> simp [ChainOp.join, Expr.functions]

theorem Link.mem_functions {links : List Link} :
    literal ∈ Link.functions links ↔ ∃ link ∈ links, literal ∈ link.operand.functions := by
  induction links with
  | nil => simp [Link.functions]
  | cons link rest ih => simp [Link.functions, ih]

-- Grouping moves the literals of a chain and adds none.
@[grind →] theorem Chain.mem_group {first : Expr} {links : List Link}
    (h : literal ∈ (Chain.group ⟨first, links⟩).functions) :
    literal ∈ first.functions ∨ literal ∈ Link.functions links := by
  rw [Link.mem_functions]
  exact (group_grouped ⟨first, links⟩).exists_operand (literal ∈ ·.functions)
    (fun _ _ => ChainOp.mem_join.mp) h

end Chain

namespace Grammar

def Phrase.functions : Phrase → List Function
  | .expression value | .unary value | .primary value | .suffixes _ value => value.functions
  | .links operands => Link.functions operands
  | .expressions _ values => Expr.functionsOfAll values
  | .entries pairs => Expr.functionsOfEntries pairs
  | .parameters _ | .pathTail _ => []
  | .function literal => literal.functions
  | .block braces => Stmt.functionsOfAll braces.body
  | .blockItems body | .items body => Stmt.functionsOfAll body
  | .statement item | .declarations item => item.functions
  | .optional _ value => Expr.functionsOfOption value

-- The literals that a phrase takes over from what was read before.
def Phrase.taken : Phrase → List Function
  | .suffixes target _ => target.functions
  | _ => []

-- The text has the function at some place of it.
def Traced (script : List Char) (literal : Function) : Prop :=
  ∃ s t : Stream, s.At script ∧ Derives script (.function literal) s t

variable {script : List Char}

section

variable {offset : Nat}

theorem Atom.functions_expr (atom : Atom) : (atom.expr offset).functions = [] := by
  cases atom <;> rfl

theorem Sign.functions_apply (sign : Sign) {operand : Expr} :
    (sign.apply offset operand).functions = operand.functions := by
  cases sign <;> simp [Sign.apply, integer, Expr.functions]

theorem Jump.functions_statement (jump : Jump) : (jump.statement offset).functions = [] := by
  cases jump <;> rfl

theorem functions_increment {operator : BinaryOp} {target : Expr} {givesOld : Bool} :
    (increment offset operator target givesOld).functions = target.functions := by
  simp [increment, integer, Expr.functions]

end

-- A literal of a derived phrase is taken over or has a place in the text.
theorem Derives.traced {phrase : Phrase} {s t : Stream} (h : Derives script phrase s t)
    (hs : s.At script) {literal : Function} (hf : literal ∈ phrase.functions) :
    literal ∈ phrase.taken ∨ Traced script literal := by
  induction h with
  | unnamed hl hp hc hb ihp ihb =>
    have hbody := hs.leads (hl.leads.trans (hp.leads.trans hc.leads))
    obtain rfl | hf := List.mem_cons.mp hf
    · exact .inr ⟨_, _, hs, .unnamed hl hp hc hb⟩
    · exact ihb hbody hf
  | named hn hl hp hc hb ihp ihb =>
    have hbody := hs.leads (hn.leads.trans (hl.leads.trans (hp.leads.trans hc.leads)))
    obtain rfl | hf := List.mem_cons.mp hf
    · exact .inr ⟨_, _, hs, .named hn hl hp hc hb⟩
    · exact ihb hbody hf
  | noLinks | noExpressions | noEntries | noParameters | lastParameter | moreParameters | pathEnd
  | pathStep | noBlockItems | giveNothing | giveNothingAtEnd | empty | noOption | declaration
  | noItems =>
    exact absurd hf List.not_mem_nil
  | jump jump =>
    rw [Phrase.functions, jump.functions_statement] at hf
    exact absurd hf List.not_mem_nil
  | _ =>
    -- Each part of a rule starts at a place that the rule leads to.
    have hleads := @hs.leads
    simp only [Phrase.functions, Phrase.taken, Expr.functions, Expr.functionsOfAll,
      Expr.functionsOfEntries, Expr.functionsOfOption, Stmt.functions, Stmt.functionsOfAll,
      Stmt.functionsOfOption, Link.functions, Atom.functions_expr, Sign.functions_apply,
      functions_increment, List.mem_append, List.not_mem_nil, false_or] at *
    grind

end Grammar

end ScriptEngine
