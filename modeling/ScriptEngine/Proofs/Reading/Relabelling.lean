import ScriptEngine.Program.Grammar
import ScriptEngine.Proofs.Reading.Precedence

-- Trees up to the places they were read from: every offset and every recorded source is replaced by
-- a function of it. Two trees are alike if some replacements make them equal.

namespace ScriptEngine

structure Relabelling where
  offset : Nat → Nat
  source : String → String

namespace Relabelling

-- Forgets all offsets and sources.
def erasing : Relabelling := ⟨fun _ => 0, fun _ => ""⟩

-- Moves every offset by `distance` bytes and keeps the sources.
def shift (distance : Nat) : Relabelling := ⟨(· + distance), id⟩

-- The first relabelling followed by the second.
def andThen (first second : Relabelling) : Relabelling :=
  ⟨second.offset ∘ first.offset, second.source ∘ first.source⟩

end Relabelling

mutual

def Expr.relabel (r : Relabelling) : Expr → Expr
  | .literal offset value => .literal (r.offset offset) value
  | .identifier offset name => .identifier (r.offset offset) name
  | .receiver offset => .receiver (r.offset offset)
  | .dot offset target name => .dot (r.offset offset) (target.relabel r) name
  | .subscript offset target index =>
    .subscript (r.offset offset) (target.relabel r) (index.relabel r)
  | .unary offset operator operand => .unary (r.offset offset) operator (operand.relabel r)
  | .binary offset operator left right =>
    .binary (r.offset offset) operator (left.relabel r) (right.relabel r)
  | .logical offset operator left right =>
    .logical (r.offset offset) operator (left.relabel r) (right.relabel r)
  | .ternary offset test yes no =>
    .ternary (r.offset offset) (test.relabel r) (yes.relabel r) (no.relabel r)
  | .assign offset target value => .assign (r.offset offset) (target.relabel r) (value.relabel r)
  | .update offset operator target value givesOld =>
    .update (r.offset offset) operator (target.relabel r) (value.relabel r) givesOld
  | .call offset callee arguments =>
    .call (r.offset offset) (callee.relabel r) (Expr.relabelAll r arguments)
  | .construct offset path arguments =>
    .construct (r.offset offset) path (Expr.relabelAll r arguments)
  | .object offset entries => .object (r.offset offset) (Expr.relabelEntries r entries)
  | .array offset elements => .array (r.offset offset) (Expr.relabelAll r elements)
  | .function offset literal => .function (r.offset offset) (literal.relabel r)

def Expr.relabelAll (r : Relabelling) : List Expr → List Expr
  | [] => []
  | first :: rest => first.relabel r :: Expr.relabelAll r rest

def Expr.relabelEntries (r : Relabelling) : List (String × Expr) → List (String × Expr)
  | [] => []
  | (key, value) :: rest => (key, value.relabel r) :: Expr.relabelEntries r rest

def Stmt.relabel (r : Relabelling) : Stmt → Stmt
  | .empty offset => .empty (r.offset offset)
  | .block offset body => .block (r.offset offset) (Stmt.relabelAll r body)
  | .branch offset test yes no =>
    .branch (r.offset offset) (test.relabel r) (yes.relabel r)
      (match no with | some no => some (no.relabel r) | none => none)
  | .declare offset name initial =>
    .declare (r.offset offset) name
      (match initial with | some value => some (value.relabel r) | none => none)
  | .loop offset initial test step body testLast =>
    .loop (r.offset offset)
      (match initial with | some initial => some (initial.relabel r) | none => none)
      (match test with | some test => some (test.relabel r) | none => none)
      (match step with | some step => some (step.relabel r) | none => none)
      (body.relabel r) testLast
  | .giveBack offset value =>
    .giveBack (r.offset offset)
      (match value with | some value => some (value.relabel r) | none => none)
  | .breakLoop offset => .breakLoop (r.offset offset)
  | .continueLoop offset => .continueLoop (r.offset offset)
  | .expression value => .expression (value.relabel r)

def Stmt.relabelAll (r : Relabelling) : List Stmt → List Stmt
  | [] => []
  | first :: rest => first.relabel r :: Stmt.relabelAll r rest

def Function.relabel (r : Relabelling) : Function → Function
  | .mk name parameters offset body source =>
    .mk name parameters (r.offset offset) (Stmt.relabelAll r body) (r.source source)

end

def Program.relabel (r : Relabelling) (program : Program) : Program :=
  ⟨r.offset program.offset, Stmt.relabelAll r program.body⟩

def Link.relabel (r : Relabelling) (link : Link) : Link :=
  ⟨link.operator, r.offset link.offset, link.operand.relabel r⟩

def Chain.relabel (r : Relabelling) (chain : Chain) : Chain :=
  ⟨chain.first.relabel r, chain.links.map (Link.relabel r)⟩

variable {r : Relabelling}

@[simp] theorem Function.relabel_name (literal : Function) :
    (literal.relabel r).name = literal.name := by
  cases literal
  simp [Function.relabel, Function.name]

theorem Stmt.relabel_loop {offset : Nat} {initial : Option Stmt}
    {test step : Option Expr} {body : Stmt} {testLast : Bool} :
    (Stmt.loop offset initial test step body testLast).relabel r =
      .loop (r.offset offset) (initial.map (Stmt.relabel r)) (test.map (Expr.relabel r))
        (step.map (Expr.relabel r)) (body.relabel r) testLast := by
  cases initial <;> cases test <;> cases step <;> simp [Stmt.relabel]

section

variable {first second : Relabelling}

mutual

theorem Expr.relabel_relabel (value : Expr) :
    (value.relabel first).relabel second = value.relabel (first.andThen second) := by
  cases value with
  | literal _ _ | identifier _ _ | receiver _ => simp [Expr.relabel, Relabelling.andThen]
  | dot _ target _ => simp [Expr.relabel, Relabelling.andThen, target.relabel_relabel]
  | subscript _ target index =>
    simp [Expr.relabel, Relabelling.andThen, target.relabel_relabel, index.relabel_relabel]
  | unary _ _ operand => simp [Expr.relabel, Relabelling.andThen, operand.relabel_relabel]
  | binary _ _ left right | logical _ _ left right =>
    simp [Expr.relabel, Relabelling.andThen, left.relabel_relabel, right.relabel_relabel]
  | ternary _ test yes no =>
    simp [Expr.relabel, Relabelling.andThen, test.relabel_relabel, yes.relabel_relabel,
      no.relabel_relabel]
  | assign _ target value | update _ _ target value _ =>
    simp [Expr.relabel, Relabelling.andThen, target.relabel_relabel, value.relabel_relabel]
  | call _ callee arguments =>
    simp [Expr.relabel, Relabelling.andThen, callee.relabel_relabel,
      Expr.relabelAll_relabelAll arguments]
  | construct _ _ values | array _ values =>
    simp [Expr.relabel, Relabelling.andThen, Expr.relabelAll_relabelAll values]
  | object _ entries =>
    simp [Expr.relabel, Relabelling.andThen, Expr.relabelEntries_relabelEntries entries]
  | function _ literal => simp [Expr.relabel, Relabelling.andThen, literal.relabel_relabel]

theorem Expr.relabelAll_relabelAll (values : List Expr) :
    Expr.relabelAll second (Expr.relabelAll first values) =
      Expr.relabelAll (first.andThen second) values := by
  cases values with
  | nil => simp [Expr.relabelAll]
  | cons value rest =>
    simp [Expr.relabelAll, value.relabel_relabel, Expr.relabelAll_relabelAll rest]

theorem Expr.relabelEntries_relabelEntries (entries : List (String × Expr)) :
    Expr.relabelEntries second (Expr.relabelEntries first entries) =
      Expr.relabelEntries (first.andThen second) entries := by
  cases entries with
  | nil => simp [Expr.relabelEntries]
  | cons entry rest =>
    obtain ⟨key, value⟩ := entry
    simp [Expr.relabelEntries, value.relabel_relabel, Expr.relabelEntries_relabelEntries rest]

theorem Stmt.relabel_relabel (item : Stmt) :
    (item.relabel first).relabel second = item.relabel (first.andThen second) := by
  cases item with
  | empty _ | breakLoop _ | continueLoop _ => simp [Stmt.relabel, Relabelling.andThen]
  | block _ body => simp [Stmt.relabel, Relabelling.andThen, Stmt.relabelAll_relabelAll body]
  | branch _ test yes no =>
    cases no with
    | none => simp [Stmt.relabel, Relabelling.andThen, test.relabel_relabel, yes.relabel_relabel]
    | some no =>
      simp [Stmt.relabel, Relabelling.andThen, test.relabel_relabel, yes.relabel_relabel,
        no.relabel_relabel]
  | declare _ _ value | giveBack _ value =>
    cases value with
    | none => simp [Stmt.relabel, Relabelling.andThen]
    | some value => simp [Stmt.relabel, Relabelling.andThen, value.relabel_relabel]
  | loop _ initial test step body _ =>
    have hi : (initial.map (Stmt.relabel first)).map (Stmt.relabel second) =
        initial.map (Stmt.relabel (first.andThen second)) := by
      cases initial with
      | none => rfl
      | some initial => simp [initial.relabel_relabel]
    have ht : (test.map (Expr.relabel first)).map (Expr.relabel second) =
        test.map (Expr.relabel (first.andThen second)) := by
      cases test with
      | none => rfl
      | some test => simp [test.relabel_relabel]
    have hs : (step.map (Expr.relabel first)).map (Expr.relabel second) =
        step.map (Expr.relabel (first.andThen second)) := by
      cases step with
      | none => rfl
      | some step => simp [step.relabel_relabel]
    rw [Stmt.relabel_loop, Stmt.relabel_loop, Stmt.relabel_loop, hi, ht, hs, body.relabel_relabel]
    rfl
  | expression value => simp [Stmt.relabel, value.relabel_relabel]

theorem Stmt.relabelAll_relabelAll (body : List Stmt) :
    Stmt.relabelAll second (Stmt.relabelAll first body) =
      Stmt.relabelAll (first.andThen second) body := by
  cases body with
  | nil => simp [Stmt.relabelAll]
  | cons item rest =>
    simp [Stmt.relabelAll, item.relabel_relabel, Stmt.relabelAll_relabelAll rest]

theorem Function.relabel_relabel (literal : Function) :
    (literal.relabel first).relabel second = literal.relabel (first.andThen second) := by
  obtain ⟨name, parameters, offset, body, source⟩ := literal
  simp [Function.relabel, Relabelling.andThen, Stmt.relabelAll_relabelAll body]

end

end

theorem ChainOp.join_relabel (operator : ChainOp) (offset : Nat) (left right : Expr) :
    (operator.join offset left right).relabel r =
      operator.join (r.offset offset) (left.relabel r) (right.relabel r) := by
  cases operator <;> simp [ChainOp.join, Expr.relabel]

theorem Grouped.relabel {first tree : Expr} {links : List Link} (h : Grouped first links tree) :
    Grouped (first.relabel r) (links.map (Link.relabel r)) (tree.relabel r) := by
  induction h with
  | operand value => exact .operand _
  | @joined first a b left right root hl hr _ _ iha ihb =>
    rw [List.map_append, List.map_cons, ChainOp.join_relabel]
    exact .joined (List.forall_mem_map.mpr hl) (List.forall_mem_map.mpr hr) iha ihb

-- Precedence looks at operators only.
theorem Chain.group_relabel (chain : Chain) :
    chain.group.relabel r = (chain.relabel r).group :=
  grouped_iff.mp chain.group_grouped.relabel

-- An operand alone is its own tree.
@[simp] theorem Chain.group_nil (first : Expr) : Chain.group ⟨first, []⟩ = first := rfl

-- A single operator joins its operands whatever its level.
@[simp] theorem Chain.group_link (first : Expr) (link : Link) :
    Chain.group ⟨first, [link]⟩ = link.operator.join link.offset first link.operand := by
  obtain ⟨operator, offset, operand⟩ := link
  cases operator with
  | logical _ => rfl
  | binary operator => cases operator <;> rfl

end ScriptEngine
