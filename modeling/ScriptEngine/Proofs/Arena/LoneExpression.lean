import ScriptEngine.Proofs.Arena.WellFormed
import ScriptEngine.Proofs.Reading.Completeness
import ScriptEngine.Proofs.Runs.Entry

-- Texts that spell one expression. Read as a program, such a text is the one statement of that
-- expression, with the same nodes and one block behind them, and running it is evaluating it. Only a
-- brace and the word `function` at the start are read otherwise.

namespace ScriptEngine

namespace Grammar

variable {script : List Char} {s t : Stream} {value : Expr}

-- The first token is neither an opening brace nor the word `function`, which at the start of a
-- statement open a block and name a function.
def OpensPlainly (script : String) : Prop :=
  (Stream.ofText script.toList).token? ≠ some (.symbol .leftBrace) ∧
    (Stream.ofText script.toList).token? ≠ some (.keyword .functionWord)

theorem Derives.primary_starts (h : Derives script (.primary value) s t) :
    ∃ token, s.token? = some token ∧ startsExpression token := by
  cases h with
  | atom atom hs _ =>
    refine ⟨_, hs.token?, ?_⟩
    rcases atom with _ | _ | ⟨⟨⟩⟩ | _ | _ | _ | _ <;> rfl
  | parens hs _ _ _ => exact ⟨_, hs.token?, rfl⟩
  | object hs _ _ _ => exact ⟨_, hs.token?, rfl⟩
  | array hs _ _ _ => exact ⟨_, hs.token?, rfl⟩
  | lambda hs _ _ _ => exact ⟨_, hs.token?, rfl⟩
  | construct hs _ _ _ _ _ _ => exact ⟨_, hs.token?, rfl⟩
  | constructBare hs _ _ _ _ => exact ⟨_, hs.token?, rfl⟩

theorem Derives.unary_starts (h : Derives script (.unary value) s t) :
    ∃ token, s.token? = some token ∧ startsExpression token := by
  cases h with
  | signed sign hs _ => exact ⟨_, hs.token?, by cases sign <;> rfl⟩
  | bumped bump hs _ => exact ⟨_, hs.token?, by cases bump <;> rfl⟩
  | unsigned _ hs => exact hs.primary_starts

-- Every token that an expression can begin with is one by which a statement is told to be one.
theorem Derives.expression_starts (h : Derives script (.expression value) s t) :
    ∃ token, s.token? = some token ∧ startsExpression token := by
  cases h with
  | chain hs _ _ => exact hs.unary_starts
  | ternary hs _ _ _ _ _ => exact hs.unary_starts
  | assign hs _ _ _ => exact hs.unary_starts
  | update hs _ _ _ _ => exact hs.unary_starts

theorem not_derives_declarations_expression :
    ¬ Derives script (.declarations (.expression value)) s t := by
  intro h
  cases h

-- A statement that is an expression is spelled by the expression, unless it names a function.
theorem Derives.of_expressionStatement (h : Derives script (.statement (.expression value)) s t)
    (hs : s.token? ≠ some (.keyword .functionWord)) :
    ∃ a, Derives script (.expression value) s a ∧ a.Closes t := by
  generalize hi : Stmt.expression value = item at h
  cases h with
  | declare _ _ h =>
    subst hi
    exact absurd h not_derives_declarations_expression
  | jump jump _ _ => cases jump <;> cases hi
  | functionStatement hw _ _ => exact absurd hw.token? hs
  | expressionStatement _ h hc =>
    cases hi
    exact ⟨_, h, hc⟩
  | _ => cases hi

theorem startsExpressionStatement_of_plain {token : Token} (ht : s.token? = some token)
    (hstart : startsExpression token) (hb : s.token? ≠ some (.symbol .leftBrace))
    (hf : s.token? ≠ some (.keyword .functionWord)) : startsExpressionStatement s.token? := by
  unfold startsExpressionStatement
  split
  · next h => exact absurd h hb
  · next h => exact absurd h hf
  · next h =>
    cases ht.symm.trans h
    exact hstart
  · next h => cases ht.symm.trans h

-- The items of a text are one expression exactly if the text spells it up to its end or to a last
-- semicolon.
theorem derives_items_expression (hb : s.token? ≠ some (.symbol .leftBrace))
    (hf : s.token? ≠ some (.keyword .functionWord)) :
    Derives script (.items [.expression value]) s t ↔
      ∃ a, Derives script (.expression value) s a ∧ a.Closes t ∧ t.token? = none := by
  constructor
  · intro h
    cases h with
    | moreItems _ hfirst hrest =>
      cases hrest with
      | noItems hend =>
        obtain ⟨a, hvalue, hcloses⟩ := hfirst.of_expressionStatement hf
        exact ⟨a, hvalue, hcloses, hend⟩
  · rintro ⟨a, hvalue, hcloses, hend⟩
    obtain ⟨token, ht, hstart⟩ := hvalue.expression_starts
    have hstatement : Derives script (.statement (.expression value)) s t :=
      .expressionStatement (startsExpressionStatement_of_plain ht hstart hb hf) hvalue hcloses
    exact .moreItems (by simp [ht]) hstatement (.noItems hend)

end Grammar

open Grammar

variable {σ : Type} {script : String}

-- A text spells an expression exactly if it spells the program of that one statement.
theorem Expr.read_iff_program (h : OpensPlainly script) (value : Expr) :
    Expr.read script = .ok value ↔
      Program.read script =
        .ok ⟨(Stream.ofText script.toList).offset, [.expression value]⟩ := by
  rw [Expr.read_eq_ok, Program.read_eq_ok]
  simp only [derives_items_expression h.1 h.2, true_and]
  refine and_congr_right fun _ => ?_
  constructor
  · rintro ⟨a, t, hvalue, hcloses, hend⟩
    exact ⟨t, a, hvalue, hcloses, hend⟩
  · rintro ⟨t, a, hvalue, hcloses, hend⟩
    exact ⟨a, t, hvalue, hcloses, hend⟩

-- The nodes of one expression with a block behind them.
theorem Program.tree_expression (offset : Nat) (value : Expr) :
    Program.tree ⟨offset, [.expression value]⟩ =
      ⟨value.tree.nodes ++ [.block offset [value.tree.root]], value.tree.nodes.length⟩ := by
  simp [Program.tree, Expr.tree, Stmt.place, Stmt.placeAll, Arena.add]

-- The node of a placed statement is an expression only if the statement is.
theorem Stmt.eq_expression_of_place {item : Stmt} {arena : Arena} {node : Node}
    (hn : (item.place arena).2[(item.place arena).1]? = some node) (he : node.isExpression) :
    ∃ value, item = .expression value := by
  cases item with
  | expression value => exact ⟨value, rfl⟩
  | loop offset initial test step body testLast =>
    cases testLast <;> (simp [Stmt.place, Arena.add] at hn; subst hn; cases he)
  | _ =>
    simp [Stmt.place, Arena.add] at hn
    subst hn
    cases he

namespace Tree

-- The root is a block of one statement, and that statement is an expression.
def HoldsExpression (tree : Tree) : Prop :=
  ∃ offset child node, tree.root? = some (.block offset [child]) ∧
    tree.nodes[child]? = some node ∧ node.isExpression

theorem holdsExpression_expression (offset : Nat) (value : Expr) :
    (Program.tree ⟨offset, [.expression value]⟩).HoldsExpression := by
  obtain ⟨-, node, hnode, he⟩ := sound_ofExpr value
  have hlt : value.tree.root < value.tree.nodes.length := (List.getElem?_eq_some_iff.mp hnode).1
  rw [Program.tree_expression]
  refine ⟨offset, value.tree.root, node, ?_, ?_, he⟩
  · exact List.getElem?_concat_length
  · rw [List.getElem?_append_left hlt]
    exact hnode

theorem HoldsExpression.body {program : Program} (h : program.tree.HoldsExpression) :
    ∃ value, program.body = [.expression value] := by
  obtain ⟨offset, child, node, hroot, hnode, he⟩ := h
  obtain ⟨start, body⟩ := program
  have hblock : (Stmt.placeAll body []).1 = [child] := by
    simp only [Tree.root?, Program.tree, Stmt.place, Arena.add, List.getElem?_concat_length,
      Option.some.injEq, Node.block.injEq] at hroot
    exact hroot.2
  obtain _ | ⟨first, _ | ⟨second, rest⟩⟩ := body
  · cases hblock
  · have hchild : (first.place []).1 = child := by simpa [Stmt.placeAll] using hblock
    subst hchild
    have hlt : (first.place []).1 < (first.place []).2.length :=
      ((first.grows_place []).standing Arena.standing_nil).lt_length List.mem_cons_self
    have hstands : (first.place []).2[(first.place []).1]? = some node := by
      simpa [Program.tree, Stmt.place, Stmt.placeAll, Arena.add, List.getElem?_append_left hlt]
        using hnode
    obtain ⟨value, rfl⟩ := Stmt.eq_expression_of_place hstands he
    exact ⟨value, rfl⟩
  · simp [Stmt.placeAll] at hblock

end Tree

-- Running the statement of an expression is evaluating the expression and forgetting its value.
theorem Engine.execute_expression {host : Host σ} {fuel : Nat} {engine : Engine σ} {value : Expr}
    {offset : Nat} (hread : Expr.read script = .ok value)
    (hprogram : Program.read script = .ok ⟨offset, [.expression value]⟩) :
    engine.execute host fuel script =
      (engine.evaluate host fuel script).map Ending.forget id := by
  rw [Engine.execute, Engine.evaluate, hread, hprogram, ← Entry.enter_forget]
  refine congrArg (engine.enter host) (funext fun machine => ?_)
  simp only [Stmt.execAll, Stmt.exec, Run.bind_apply]
  rcases value.eval host (Below.ofFuel host fuel) ⟨script, .ofRoot engine.root⟩ machine with
    ⟨_ | _ | _, _⟩ <;> rfl

-- The two ways to read a text agree on expressions: it spells one exactly if it spells a program
-- whose one statement is an expression, the nodes of the program are then those of the expression
-- with the block of its root behind them, and the two ways to run the text differ only in that one
-- gives the value.
theorem read_lone_expression (script : String) (h : OpensPlainly script) :
    (∀ value, Expr.read script = .ok value ↔
      Program.read script =
        .ok ⟨(Stream.ofText script.toList).offset, [.expression value]⟩) ∧
    ((∃ tree, Tree.read .expression script = .ok tree) ↔
      ∃ tree, Tree.read .statements script = .ok tree ∧ tree.HoldsExpression) ∧
    (∀ tree, Tree.read .expression script = .ok tree →
      Tree.read .statements script =
        .ok ⟨tree.nodes ++ [.block (Stream.ofText script.toList).offset [tree.root]],
          tree.nodes.length⟩ ∧
      ∀ (σ : Type) (host : Host σ) (fuel : Nat) (engine : Engine σ),
        engine.execute host fuel script =
          (engine.evaluate host fuel script).map Ending.forget id) := by
  have hiff := Expr.read_iff_program h
  refine ⟨hiff, ⟨?_, ?_⟩, ?_⟩
  · rintro ⟨tree, ht⟩
    rw [Tree.read_expression] at ht
    cases hread : Expr.read script with
    | error error => rw [hread] at ht; cases ht
    | ok value =>
      rw [Tree.read_statements, (hiff value).mp hread]
      exact ⟨_, rfl, Tree.holdsExpression_expression _ value⟩
  · rintro ⟨tree, ht, hholds⟩
    rw [Tree.read_statements] at ht
    cases hprogram : Program.read script with
    | error error => rw [hprogram] at ht; cases ht
    | ok program =>
      rw [hprogram] at ht
      cases ht
      obtain ⟨value, hbody⟩ := hholds.body
      have hoffset : program.offset = (Stream.ofText script.toList).offset :=
        (Program.read_eq_ok.mp hprogram).2.1
      have hread : Expr.read script = .ok value := by
        rw [hiff value, hprogram, ← hoffset, ← hbody]
      rw [Tree.read_expression, hread]
      exact ⟨_, rfl⟩
  · intro tree ht
    rw [Tree.read_expression] at ht
    cases hread : Expr.read script with
    | error error => rw [hread] at ht; cases ht
    | ok value =>
      rw [hread] at ht
      cases ht
      have hprogram := (hiff value).mp hread
      refine ⟨?_, fun σ host fuel engine => Engine.execute_expression hread hprogram⟩
      rw [Tree.read_statements, hprogram]
      exact congrArg Except.ok (Program.tree_expression _ value)

-- An assignment of a function whose body has statements of its own, with a comment in front and a
-- semicolon behind.
def assignedFunction : String :=
  "/* f */ f = function (a) \x7b var b = a; return b + 1; \x7d;"

theorem read_lone_expression_assignedFunction :
    (Tree.read .expression assignedFunction).toOption.map (fun tree => tree.nodes.length) = some 3 ∧
    ∀ tree, Tree.read .expression assignedFunction = .ok tree →
      Tree.read .statements assignedFunction =
        .ok ⟨tree.nodes ++ [.block (Stream.ofText assignedFunction.toList).offset [tree.root]],
          tree.nodes.length⟩ := by
  have hplain : OpensPlainly assignedFunction := by
    have htoken : Token.describe? (Stream.ofText assignedFunction.toList).token? = "identifier" := by
      decide +kernel
    constructor <;> (intro h; rw [h] at htoken; exact absurd htoken (by decide))
  refine ⟨by decide +kernel, fun tree ht => ?_⟩
  exact ((read_lone_expression assignedFunction hplain).2.2 tree ht).1

end ScriptEngine
