import ScriptEngine.Proofs.Printing.Statements
import ScriptEngine.Proofs.Reading.Completeness

-- The round trip: reading the canonical text of a program gives the program back, up to offsets and
-- recorded sources.

namespace ScriptEngine

open Grammar
open ScriptEngine.Stream (Reads reads_append)
open Token (enclosed braced bracketed separated names path)

variable {script : List Char}

mutual

theorem Expr.returns (value : Expr) (h : value.Shaped) : value.Returns script := by
  cases value with
  | literal offset value =>
    simp only [Expr.Shaped] at h
    exact Expr.literal_returns h
  | identifier offset name => exact Expr.identifier_returns
  | receiver offset => exact Expr.receiver_returns
  | dot offset target name =>
    simp only [Expr.Shaped] at h
    exact Expr.dot_returns (target.returns h.1)
  | subscript offset target index =>
    simp only [Expr.Shaped] at h
    exact Expr.subscript_returns (target.returns h.1) (index.returns h.2)
  | unary offset operator operand =>
    simp only [Expr.Shaped] at h
    exact Expr.unary_returns (operand.returns h)
  | binary offset operator left right =>
    simp only [Expr.Shaped] at h
    exact Expr.binary_returns (left.returns h.1) (right.returns h.2)
  | logical offset operator left right =>
    simp only [Expr.Shaped] at h
    exact Expr.logical_returns (left.returns h.1) (right.returns h.2)
  | ternary offset test yes no =>
    simp only [Expr.Shaped] at h
    exact Expr.ternary_returns (test.returns h.1) (yes.returns h.2.1) (no.returns h.2.2)
  | assign offset target value =>
    simp only [Expr.Shaped] at h
    exact Expr.assign_returns (target.returns h.1) (value.returns h.2)
  | update offset operator target value givesOld =>
    cases givesOld with
    | false =>
      simp only [Expr.Shaped] at h
      exact Expr.update_returns h.1 (target.returns h.2.1) (value.returns h.2.2)
    | true =>
      simp only [Expr.Shaped] at h
      obtain ⟨hb, ht, place, rfl⟩ := h
      exact Expr.bump_returns hb (target.returns ht)
  | call offset callee arguments =>
    simp only [Expr.Shaped] at h
    exact Expr.call_returns (callee.returns h.1) (Expr.all_return arguments h.2)
  | construct offset names arguments =>
    simp only [Expr.Shaped] at h
    exact Expr.construct_returns h.1 (Expr.all_return arguments h.2.2)
  | object offset entries =>
    simp only [Expr.Shaped] at h
    exact Expr.object_returns (Expr.entries_all_return entries h)
  | array offset elements =>
    simp only [Expr.Shaped] at h
    exact Expr.array_returns (Expr.all_return elements h)
  | function offset literal =>
    simp only [Expr.Shaped] at h
    exact Expr.function_returns (literal.returns h.2) h.1

theorem Expr.all_return (values : List Expr) (h : Expr.AllShaped values) :
    ∀ value ∈ values, value.Returns script := by
  cases values with
  | nil => simp
  | cons first rest =>
    simp only [Expr.AllShaped] at h
    exact List.forall_mem_cons.mpr ⟨first.returns h.1, Expr.all_return rest h.2⟩

theorem Expr.entries_all_return (entries : List (String × Expr)) (h : Expr.EntriesShaped entries) :
    ∀ entry ∈ entries, entry.2.Returns script := by
  match entries with
  | [] => simp
  | (key, value) :: rest =>
    simp only [Expr.EntriesShaped] at h
    exact List.forall_mem_cons.mpr ⟨value.returns h.1, Expr.entries_all_return rest h.2⟩

theorem Expr.option_return (value : Option Expr) (h : Expr.OptionShaped value) :
    ∀ inner, value = some inner → inner.Returns script := by
  match value with
  | none => simp
  | some inner =>
    simp only [Expr.OptionShaped] at h
    rintro _ ⟨⟩
    exact inner.returns h

theorem Stmt.returns (statement : Stmt) (h : statement.Shaped) : statement.Returns script := by
  match statement with
  | .empty _ => exact Stmt.empty_returns
  | .breakLoop _ => exact Stmt.jump_returns .breakLoop
  | .continueLoop _ => exact Stmt.jump_returns .continueLoop
  | .block _ body =>
    simp only [Stmt.Shaped] at h
    exact Stmt.block_returns (Stmt.all_return body h)
  | .branch _ test yes no =>
    simp only [Stmt.Shaped] at h
    exact Stmt.branch_returns (test.returns h.1) h.2.1 (yes.returns h.2.2.1)
      (Stmt.else_return no h.2.2.2)
  | .declare _ name initial =>
    simp only [Stmt.Shaped] at h
    exact Stmt.declare_returns (Expr.option_return initial h.2)
  | .loop _ (some initial) test step body testLast =>
    simp only [Stmt.Shaped] at h
    obtain ⟨rfl, hi, ht, hs, hb, hbody⟩ := h
    exact Stmt.forLoop_returns (initial.returns hi) (Expr.option_return test ht)
      (Expr.option_return step hs) hb (body.returns hbody)
  | .loop _ none test step body testLast =>
    simp only [Stmt.Shaped] at h
    obtain ⟨hsome, rfl, ht, hb, hbody⟩ := h
    obtain ⟨condition, hc⟩ := Option.isSome_iff_exists.mp hsome
    have htest := Expr.option_return test ht condition hc
    subst hc
    cases testLast with
    | true => exact Stmt.doLoop_returns htest hb (body.returns hbody)
    | false => exact Stmt.whileLoop_returns htest hb (body.returns hbody)
  | .giveBack _ value =>
    simp only [Stmt.Shaped] at h
    exact Stmt.giveBack_returns (Expr.option_return value h)
  | .expression value =>
    simp only [Stmt.Shaped] at h
    obtain h | h := h
    · exact Expr.declares_return value h
    · exact Stmt.expression_returns (value.returns h) (Expr.declared?_eq_none h)

theorem Stmt.else_return (no : Option Stmt) (h : Stmt.ElseShaped no) :
    ∀ other, no = some other → other.Returns script := by
  match no with
  | none => simp
  | some other =>
    simp only [Stmt.ElseShaped] at h
    rintro _ ⟨⟩
    exact other.returns h.2

theorem Expr.declares_return (value : Expr) (h : value.Declares) :
    (Stmt.expression value).Returns script := by
  match value with
  | .assign _ (.identifier _ name) (.function _ literal) =>
    simp only [Expr.Declares] at h
    exact Stmt.declared_returns (literal.returns h.2) h.1

theorem Stmt.all_return (body : List Stmt) (h : Stmt.AllShaped body) :
    ∀ statement ∈ body, statement.Returns script := by
  cases body with
  | nil => simp
  | cons first rest =>
    simp only [Stmt.AllShaped] at h
    exact List.forall_mem_cons.mpr ⟨first.returns h.1, Stmt.all_return rest h.2⟩

theorem Function.returns (literal : Function) (h : literal.Shaped) : literal.Returns script := by
  cases literal with
  | mk name parameters offset body source =>
    simp only [Function.Shaped] at h
    exact Function.mk_returns (Stmt.all_return body h.2.2)

end

-- Reading the canonical text of a program gives the program back, up to offsets and recorded
-- sources.
theorem Program.read_text (program : Program) (h : program.Shaped) :
    ∃ found, Program.read program.text = .ok found ∧
      found.relabel .erasing = program.relabel .erasing := by
  obtain ⟨stop, hi, hr⟩ := Stream.reads_write (Stmt.all_spellable program.body h) 0
  have htext : Stream.ofText program.text.toList =
      Stream.ofCursor ⟨0, Token.write (Stmt.tokensOfAll program.body)⟩ := by
    rw [Program.text, String.toList_ofList, Stream.ofText]
  rw [← htext] at hi hr
  obtain ⟨found, hd, ha⟩ := Stmt.body_return (Stmt.all_return program.body h) (.noItems rfl)
    (fun hs hf hrest => .moreItems (by rintro he; rw [he] at hs; cases hs) hf hrest)
    (by simp [Stream.token?]) hr
  exact ⟨⟨_, found⟩, Program.read_eq_ok.mpr ⟨hi, rfl, _, hd⟩, by simp [Program.relabel, ha]⟩

-- A declared function, and a loop from a negative number to infinity that hands text to it.
def Program.sample : Program :=
  ⟨0,
    [.expression (.assign 0 (.identifier 0 "next") (.function 0 (.mk (some "next") ["n", "text"] 0
      [.giveBack 0 (some (.update 0 .add (.identifier 0 "n") (integer 0 1) true))] ""))),
     .loop 0 (some (.declare 0 "i" (some (integer 0 (-1)))))
      (some (.binary 0 .less (.identifier 0 "i")
        (.literal 0 (.number (.double Double.infinity))))) none
      (.block 0 [.expression (.update 0 .shiftLeft (.identifier 0 "i") (.call 0 (.identifier 0 "next")
        [.identifier 0 "i", .literal 0 (.string "\"\\")]) false), .breakLoop 0]) false]⟩

theorem Program.read_text_sample :
    Program.sample.Shaped ∧ ∃ found, Program.read Program.sample.text = .ok found ∧
      found.relabel .erasing = Program.sample.relabel .erasing := by
  have hs : Program.sample.Shaped := by
    have hnames : Token.isName ['n', 'e', 'x', 't'] ∧ Token.isName ['n'] ∧
        Token.isName ['t', 'e', 'x', 't'] ∧ Token.isName ['i'] := by
      decide +kernel
    have hmark : BinaryOp.shiftLeft.assignmentMark?.isSome := by decide
    simp [Program.Shaped, Program.sample, Stmt.AllShaped, Stmt.Shaped, Stmt.isBlock, Expr.Shaped,
      Expr.AllShaped, Expr.OptionShaped, Expr.Declares, Function.Shaped, Function.name,
      Literal.Shaped, BinaryOp.bump?, integer, hnames, hmark]
  exact ⟨hs, Program.read_text _ hs⟩

end ScriptEngine
