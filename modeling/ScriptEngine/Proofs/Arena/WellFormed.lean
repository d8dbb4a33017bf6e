import ScriptEngine.Proofs.Arena.Agreement

-- The flat trees of texts are well formed. While a tree is built, the nodes that nothing refers to
-- yet are roots; adding a node takes its children from the roots and puts the node there, and at the
-- end one root is left.

namespace ScriptEngine

-- A function literal whose nodes are well formed and whose body is a block.
structure Code.Sound (code : Code) : Prop where
  wellFormed : code.tree.WellFormed
  block : ∃ node, code.tree.root? = some node ∧ node.isBlock

theorem Node.mem_codesOfAll {nodes : List Node} {code : Code} :
    code ∈ Node.codesOfAll nodes ↔ ∃ node ∈ nodes, code ∈ node.codes := by
  induction nodes with
  | nil => simp [Node.codesOfAll]
  | cons first rest ih => simp [Node.codesOfAll, ih]

theorem Node.operands_subset (node : Node) : node.operands ⊆ node.children := by
  cases node with
  | branch _ test yes no => simp [operands, children]
  | loop _ initial test step body _ =>
    intro child hm
    simp only [operands, children, List.mem_append] at hm ⊢
    exact .inl (hm.elim (fun h => .inl (.inr h)) .inr)
  | _ => simp [operands, children]

namespace Arena

variable {arena before middle after : Arena} {roots ids others : List Nat} {node : Node}
  {index : Nat}

-- There is an expression at a place.
def Expresses (arena : Arena) (index : Nat) : Prop :=
  ∃ node, arena[index]? = some node ∧ node.isExpression

-- Every place is a root or has one reference to it, and references lead back.
structure Standing (roots : List Nat) (arena : Arena) : Prop where
  once : (arena.flatMap Node.children ++ roots).Perm (List.range arena.length)
  backward {index : Nat} {node : Node} : arena[index]? = some node →
    ∀ child ∈ node.children, child < index
  operands {node : Node} : node ∈ arena → ∀ child ∈ node.operands, arena.Expresses child
  codes {node : Node} : node ∈ arena → ∀ code ∈ node.codes, code.Sound

theorem Expresses.mono (h : before.Expresses index) (hp : before <+: after) :
    after.Expresses index := by
  obtain ⟨node, hn, he⟩ := h
  obtain ⟨rest, rfl⟩ := hp
  refine ⟨node, ?_, he⟩
  rw [List.getElem?_append_left (List.getElem?_eq_some_iff.mp hn).1]
  exact hn

theorem standing_nil : Standing [] [] :=
  ⟨.nil, nofun, nofun, nofun⟩

theorem Standing.perm (h : Standing roots arena) (hp : roots.Perm others) :
    Standing others arena :=
  { h with once := (hp.append_left _).symm.trans h.once }

theorem Standing.lt_length (h : Standing roots arena) (hm : index ∈ roots) :
    index < arena.length :=
  List.mem_range.mp (h.once.subset (List.mem_append_right _ hm))

-- A new node takes its children from the roots.
theorem Standing.add (h : Standing (node.children ++ roots) arena)
    (ho : ∀ child ∈ node.operands, arena.Expresses child)
    (hc : ∀ code ∈ node.codes, code.Sound) :
    Standing (arena.length :: roots) (arena ++ [node]) where
  once := by
    rw [List.flatMap_append, List.flatMap_singleton, List.length_append, List.length_singleton,
      List.range_succ, List.append_assoc]
    have hlast : (node.children ++ arena.length :: roots).Perm
        (node.children ++ roots ++ [arena.length]) := by
      rw [List.append_assoc]
      exact (List.perm_append_singleton arena.length roots).symm.append_left _
    refine (hlast.append_left _).trans ?_
    rw [← List.append_assoc]
    exact h.once.append_right _
  backward {index found} hfound child hm := by
    by_cases hlt : index < arena.length
    · rw [List.getElem?_append_left hlt] at hfound
      exact h.backward hfound child hm
    · have hlast : index = arena.length ∧ found = node := by
        rw [List.getElem?_append_right (Nat.le_of_not_lt hlt)] at hfound
        have hnew := List.getElem?_eq_some_iff.mp hfound
        grind
      obtain ⟨rfl, rfl⟩ := hlast
      exact h.lt_length (List.mem_append_left _ hm)
  operands {found} hfound child hm := by
    have hexpresses : arena.Expresses child := by
      obtain hfound | hfound := List.mem_append.mp hfound
      · exact h.operands hfound child hm
      · cases List.mem_singleton.mp hfound
        exact ho child hm
    exact hexpresses.mono (List.prefix_append _ _)
  codes {found} hfound := by
    obtain hfound | hfound := List.mem_append.mp hfound
    · exact h.codes hfound
    · cases List.mem_singleton.mp hfound
      exact hc

-- With one root left the tree is well formed.
theorem Standing.wellFormed {root : Nat} (h : Standing [root] arena) :
    Tree.WellFormed ⟨arena, root⟩ := by
  have hcount (index : Nat) (hlt : index < arena.length) :
      (arena.flatMap Node.children).count index + [root].count index = 1 := by
    rw [← List.count_append, h.once.count_eq, List.nodup_range.count,
      if_pos (List.mem_range.mpr hlt)]
  have hroot : root < arena.length := h.lt_length List.mem_cons_self
  have hfree : root ∉ arena.flatMap Node.children := by
    have hone := hcount root hroot
    rw [List.count_singleton_self] at hone
    exact List.count_eq_zero.mp (Nat.succ.inj hone)
  refine ⟨?_, h.backward, fun {index} hlt hne => ?_, hfree, h.operands⟩
  · -- Nothing but the root can be the last node, because references lead back.
    refine Nat.le_antisymm hroot (Nat.le_of_not_lt fun hbefore => ?_)
    have hlast : arena.length - 1 < arena.length := Nat.sub_lt (Nat.zero_lt_of_lt hroot) Nat.one_pos
    have hreferred : arena.length - 1 ∈ arena.flatMap Node.children := by
      have hne : root ≠ arena.length - 1 := by
        change root + 1 < arena.length at hbefore
        omega
      have hone := hcount _ hlast
      rw [List.count_singleton, if_neg (by simpa using hne)] at hone
      exact List.count_pos_iff.mp (Nat.lt_of_lt_of_eq Nat.one_pos hone.symm)
    obtain ⟨node, hm, hchild⟩ := List.mem_flatMap.mp hreferred
    obtain ⟨index, hindex, hget⟩ := List.getElem_of_mem hm
    have hback := h.backward (List.getElem?_eq_some_iff.mpr ⟨hindex, hget⟩) _ hchild
    omega
  · have hone := hcount index hlt
    rwa [List.count_singleton, if_neg (by simpa using Ne.symm hne)] at hone

-- An arena before and after nodes are added, some of which are roots now.
structure Grows (before : Arena) (ids : List Nat) (after : Arena) : Prop where
  kept : before <+: after
  standing {roots : List Nat} : Standing roots before → Standing (ids ++ roots) after

-- The new roots are expressions.
structure Bears (before : Arena) (ids : List Nat) (after : Arena) : Prop
    extends Grows before ids after where
  expresses : ∀ id ∈ ids, after.Expresses id

theorem Grows.nil (arena : Arena) : Grows arena [] arena :=
  ⟨List.prefix_rfl, id⟩

theorem Grows.append (h : Grows before ids middle) (h' : Grows middle others after) :
    Grows before (ids ++ others) after := by
  refine ⟨h.kept.trans h'.kept, fun hs => (h'.standing (h.standing hs)).perm ?_⟩
  rw [← List.append_assoc]
  exact List.perm_append_comm.append_right _

theorem Grows.perm (h : Grows before ids after) (hp : ids.Perm others) :
    Grows before others after :=
  ⟨h.kept, fun hs => (h.standing hs).perm (hp.append_right _)⟩

theorem Grows.add (h : Grows before node.children after)
    (ho : ∀ child ∈ node.operands, after.Expresses child)
    (hc : ∀ code ∈ node.codes, code.Sound) :
    Grows before [(after.add node).1] (after.add node).2 :=
  ⟨h.kept.trans (List.prefix_append _ _), fun hs => (h.standing hs).add ho hc⟩

theorem Bears.nil (arena : Arena) : Bears arena [] arena :=
  ⟨.nil arena, nofun⟩

theorem Bears.append (h : Bears before ids middle) (h' : Bears middle others after) :
    Bears before (ids ++ others) after :=
  ⟨h.toGrows.append h'.toGrows, fun id hm => (List.mem_append.mp hm).elim
    (fun hm => (h.expresses id hm).mono h'.kept) (h'.expresses id)⟩

theorem Bears.add (h : Bears before node.children after) (he : node.isExpression)
    (hc : ∀ code ∈ node.codes, code.Sound) :
    Bears before [(after.add node).1] (after.add node).2 := by
  refine ⟨h.toGrows.add (fun child hm => h.expresses child (node.operands_subset hm)) hc, ?_⟩
  intro id hm
  cases List.mem_singleton.mp hm
  exact ⟨node, List.getElem?_concat_length, he⟩

-- Most nodes have no function literal.
theorem Grows.addPlain (h : Grows before node.children after)
    (ho : ∀ child ∈ node.operands, after.Expresses child) (hc : node.codes = []) :
    Grows before [(after.add node).1] (after.add node).2 :=
  h.add ho (by simp [hc])

theorem Bears.addPlain (h : Bears before node.children after) (he : node.isExpression)
    (hc : node.codes = []) : Bears before [(after.add node).1] (after.add node).2 :=
  h.add he (by simp [hc])

end Arena

open Arena

mutual

theorem Expr.bears_place (value : Expr) (arena : Arena) :
    Bears arena [(value.place arena).1] (value.place arena).2 := by
  cases value with
  | literal _ _ | identifier _ _ | receiver _ => exact (Bears.nil arena).addPlain rfl rfl
  | dot _ target _ => exact (target.bears_place arena).addPlain rfl rfl
  | unary _ _ operand => exact (operand.bears_place arena).addPlain rfl rfl
  | subscript _ left right | binary _ _ left right | logical _ _ left right
  | assign _ left right | update _ _ left right _ =>
    exact ((left.bears_place arena).append (right.bears_place _)).addPlain rfl rfl
  | ternary _ test yes no =>
    exact (((test.bears_place arena).append (yes.bears_place _)).append
      (no.bears_place _)).addPlain rfl rfl
  | call _ callee arguments =>
    exact ((callee.bears_place arena).append (Expr.bears_placeAll arguments _)).addPlain rfl rfl
  | construct _ _ values | array _ values =>
    exact (Expr.bears_placeAll values arena).addPlain rfl rfl
  | object _ entries => exact (Expr.bears_placeEntries entries arena).addPlain rfl rfl
  | function _ literal => exact (Bears.nil arena).add rfl literal.sound_code

theorem Expr.bears_placeAll (values : List Expr) (arena : Arena) :
    Bears arena (Expr.placeAll values arena).1 (Expr.placeAll values arena).2 := by
  cases values with
  | nil => exact .nil arena
  | cons first rest => exact (first.bears_place arena).append (Expr.bears_placeAll rest _)

theorem Expr.bears_placeEntries (entries : List (String × Expr)) (arena : Arena) :
    Bears arena ((Expr.placeEntries entries arena).1.map Prod.snd)
      (Expr.placeEntries entries arena).2 := by
  cases entries with
  | nil => exact .nil arena
  | cons entry rest =>
    obtain ⟨key, value⟩ := entry
    exact (value.bears_place arena).append (Expr.bears_placeEntries rest _)

theorem Expr.bears_placeOption (value : Option Expr) (arena : Arena) :
    Bears arena (Expr.placeOption value arena).1.toList (Expr.placeOption value arena).2 := by
  cases value with
  | none => exact .nil arena
  | some value => exact value.bears_place arena

theorem Stmt.grows_place (item : Stmt) (arena : Arena) :
    Grows arena [(item.place arena).1] (item.place arena).2 := by
  cases item with
  | empty _ | breakLoop _ | continueLoop _ => exact (Grows.nil arena).addPlain nofun rfl
  | block _ body => exact (Stmt.grows_placeAll body arena).addPlain nofun rfl
  | branch _ test yes no =>
    have htest := test.bears_place arena
    have hyes := yes.grows_place (test.place arena).2
    have hno := Stmt.grows_placeOption no (yes.place (test.place arena).2).2
    refine ((htest.toGrows.append hyes).append hno).addPlain (fun child hm => ?_) rfl
    exact (htest.expresses child hm).mono (hyes.kept.trans hno.kept)
  | declare _ _ value | giveBack _ value =>
    have hvalue := Expr.bears_placeOption value arena
    exact hvalue.toGrows.addPlain hvalue.expresses rfl
  | loop _ initial test step body testLast =>
    have hinitial := Stmt.grows_placeOption initial arena
    cases testLast with
    | true =>
      have hbody := body.grows_place (Stmt.placeOption initial arena).2
      have htest := Expr.bears_placeOption test (body.place (Stmt.placeOption initial arena).2).2
      have htests := htest.append (Expr.bears_placeOption step _)
      refine (((hinitial.append hbody).append htests.toGrows).perm ?_).addPlain htests.expresses rfl
      simp only [Node.children, List.append_assoc]
      refine List.Perm.append_left _ ?_
      rw [← List.append_assoc (Option.toList _)]
      exact List.perm_append_comm
    | false =>
      have htest := Expr.bears_placeOption test (Stmt.placeOption initial arena).2
      have hstep := Expr.bears_placeOption step
        (Expr.placeOption test (Stmt.placeOption initial arena).2).2
      have hbody := body.grows_place (Expr.placeOption step
        (Expr.placeOption test (Stmt.placeOption initial arena).2).2).2
      refine (((hinitial.append htest.toGrows).append hstep.toGrows).append hbody).addPlain
        (fun child hm => ?_) rfl
      exact ((htest.append hstep).expresses child hm).mono hbody.kept
  | expression value => exact (value.bears_place arena).toGrows

theorem Stmt.grows_placeOption (item : Option Stmt) (arena : Arena) :
    Grows arena (Stmt.placeOption item arena).1.toList (Stmt.placeOption item arena).2 := by
  cases item with
  | none => exact .nil arena
  | some item => exact item.grows_place arena

theorem Stmt.grows_placeAll (body : List Stmt) (arena : Arena) :
    Grows arena (Stmt.placeAll body arena).1 (Stmt.placeAll body arena).2 := by
  cases body with
  | nil => exact .nil arena
  | cons first rest => exact (first.grows_place arena).append (Stmt.grows_placeAll rest _)

theorem Function.sound_code (literal : Function) : ∀ code ∈ literal.code.codes, code.Sound := by
  cases literal with
  | mk name parameters offset body source =>
    have hgrows : Grows [] [(Stmt.place (.block offset body) []).1]
        (Stmt.place (.block offset body) []).2 :=
      (Stmt.grows_placeAll body []).addPlain nofun rfl
    have hstanding := hgrows.standing standing_nil
    intro code hm
    obtain hm | hm := List.mem_cons.mp hm
    · cases hm
      exact ⟨hstanding.wellFormed, _, List.getElem?_concat_length, rfl⟩
    · obtain ⟨node, hnode, hcode⟩ := Node.mem_codesOfAll.mp hm
      exact hstanding.codes hnode code hcode

end

namespace Tree

-- A well-formed tree with well-formed function literals at every depth.
structure Sound (tree : Tree) : Prop where
  wellFormed : tree.WellFormed
  codes : ∀ code ∈ Node.codesOfAll tree.nodes, code.Sound

theorem sound_of_standing {arena : Arena} {root : Nat} (h : Standing [root] arena) :
    Sound ⟨arena, root⟩ := by
  refine ⟨h.wellFormed, fun code hm => ?_⟩
  obtain ⟨node, hnode, hcode⟩ := Node.mem_codesOfAll.mp hm
  exact h.codes hnode code hcode

theorem sound_ofProgram (program : Program) :
    program.tree.Sound ∧ ∃ root, program.tree.root? = some root ∧ root.isBlock := by
  have hgrows := (Stmt.block program.offset program.body).grows_place []
  exact ⟨sound_of_standing (hgrows.standing standing_nil), _, List.getElem?_concat_length, rfl⟩

theorem sound_ofExpr (value : Expr) :
    value.tree.Sound ∧ ∃ root, value.tree.root? = some root ∧ root.isExpression := by
  have hbears := value.bears_place []
  exact ⟨sound_of_standing (hbears.standing standing_nil), hbears.expresses _ List.mem_cons_self⟩

-- The tree that a text has in the arena is the placed tree of the text. It is well formed and so are
-- the trees of its function literals, and its root is what was asked for.
theorem sound_read (form : ScriptForm) (script : String) :
    Tree.read form script = (match form with
      | .statements => (Program.read script).map Program.tree
      | .expression => (Expr.read script).map Expr.tree) ∧
    ∀ tree, Tree.read form script = .ok tree → tree.Sound ∧
      ∃ root, tree.root? = some root ∧ (match form with
        | .statements => root.isBlock
        | .expression => root.isExpression) := by
  cases form with
  | statements =>
    have hread : Tree.read .statements script = (Program.read script).map Program.tree :=
      Builder.run_tree Builder.program_follows script.toList
    refine ⟨hread, fun tree ht => ?_⟩
    rw [hread] at ht
    cases hp : Program.read script <;> rw [hp] at ht <;> cases ht
    exact sound_ofProgram _
  | expression =>
    have hread : Tree.read .expression script = (Expr.read script).map Expr.tree :=
      Builder.run_tree Builder.wholeExpression_follows script.toList
    refine ⟨hread, fun tree ht => ?_⟩
    rw [hread] at ht
    cases hp : Expr.read script <;> rw [hp] at ht <;> cases ht
    exact sound_ofExpr _

section Sample

-- Nodes that no text stands for, a loop whose test is read behind its body, and a function.
def sampleText : String :=
  "var a = 1, b = -a * 2 + a++; do \x7b f = function (x) \x7b return x; \x7d; \x7d while (a < b);"

def sampleReferences : List (List Nat) :=
  [[], [0], [], [], [2, 3], [], [4, 5], [], [], [7, 8], [6, 9], [10], [1, 11], [], [], [13, 14],
    [15], [], [], [17, 18], [19, 16], [12, 20]]

theorem sound_read_sampleText : ∃ tree, Tree.read .statements sampleText = .ok tree ∧
    tree.nodes.map Node.children = sampleReferences ∧ tree.Sound := by
  have hreferences : (Tree.read .statements sampleText).toOption.map
      (fun tree => tree.nodes.map Node.children) = some sampleReferences := by
    decide +kernel
  cases hread : Tree.read .statements sampleText with
  | error error =>
    rw [hread] at hreferences
    cases hreferences
  | ok tree =>
    rw [hread] at hreferences
    exact ⟨tree, rfl, Option.some.inj hreferences,
      ((sound_read .statements sampleText).2 tree hread).1⟩

end Sample

end Tree

end ScriptEngine
