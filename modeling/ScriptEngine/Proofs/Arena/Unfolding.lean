import Mathlib.Data.List.Induction
import ScriptEngine.Proofs.Arena.WellFormed

-- Flat trees unfolded. Every node becomes a statement whose parts are the statements that the nodes
-- before it have become; this succeeds only if the parts are there and are of the right kind. A tree
-- that has been placed unfolds to itself.

namespace ScriptEngine

-- The expression that a statement is.
def Stmt.expr? : Stmt → Option Expr
  | .expression value => some value
  | _ => none

-- The expression that the node at a place has become.
def Stmt.exprAt? (items : List Stmt) (id : Nat) : Option Expr :=
  items[id]?.bind Stmt.expr?

-- A part that need not be there.
def Node.part? {α : Type} (find : Nat → Option α) : Option Nat → Option (Option α)
  | none => some none
  | some id => (find id).map some

mutual

-- The statement that a node becomes behind the statements of the nodes before it.
def Node.item? (items : List Stmt) : Node → Option Stmt
  | .empty offset => some (.empty offset)
  | .block offset body => do
    return .block offset (← body.mapM (items[·]?))
  | .branch offset test yes no => do
    return .branch offset (← Stmt.exprAt? items test) (← items[yes]?)
      (← Node.part? (items[·]?) no)
  | .declare offset name initial => do
    return .declare offset name (← Node.part? (Stmt.exprAt? items) initial)
  | .loop offset initial test step body testLast => do
    return .loop offset (← Node.part? (items[·]?) initial) (← Node.part? (Stmt.exprAt? items) test)
      (← Node.part? (Stmt.exprAt? items) step) (← items[body]?) testLast
  | .giveBack offset value => do
    return .giveBack offset (← Node.part? (Stmt.exprAt? items) value)
  | .breakLoop offset => some (.breakLoop offset)
  | .continueLoop offset => some (.continueLoop offset)
  | .literal offset value => some (.expression (.literal offset value))
  | .identifier offset name => some (.expression (.identifier offset name))
  | .receiver offset => some (.expression (.receiver offset))
  | .dot offset target name => do
    return .expression (.dot offset (← Stmt.exprAt? items target) name)
  | .subscript offset target index => do
    return .expression
      (.subscript offset (← Stmt.exprAt? items target) (← Stmt.exprAt? items index))
  | .unary offset operator operand => do
    return .expression (.unary offset operator (← Stmt.exprAt? items operand))
  | .binary offset operator left right => do
    return .expression
      (.binary offset operator (← Stmt.exprAt? items left) (← Stmt.exprAt? items right))
  | .logical offset operator left right => do
    return .expression
      (.logical offset operator (← Stmt.exprAt? items left) (← Stmt.exprAt? items right))
  | .ternary offset test yes no => do
    return .expression (.ternary offset (← Stmt.exprAt? items test) (← Stmt.exprAt? items yes)
      (← Stmt.exprAt? items no))
  | .assign offset target value => do
    return .expression
      (.assign offset (← Stmt.exprAt? items target) (← Stmt.exprAt? items value))
  | .update offset operator target value givesOld => do
    return .expression (.update offset operator (← Stmt.exprAt? items target)
      (← Stmt.exprAt? items value) givesOld)
  | .call offset callee arguments => do
    return .expression (.call offset (← Stmt.exprAt? items callee)
      (← arguments.mapM (Stmt.exprAt? items)))
  | .construct offset path arguments => do
    return .expression (.construct offset path (← arguments.mapM (Stmt.exprAt? items)))
  | .object offset entries => do
    return .expression (.object offset
      (← entries.mapM fun entry => (Stmt.exprAt? items entry.2).map (entry.1, ·)))
  | .array offset elements => do
    return .expression (.array offset (← elements.mapM (Stmt.exprAt? items)))
  | .function offset code => do
    return .expression (.function offset (← code.function?))

-- The statements that nodes become, one after the other.
def Node.itemsFrom? (items : List Stmt) : List Node → Option (List Stmt)
  | [] => some items
  | first :: rest =>
    (first.item? items).bind fun item => Node.itemsFrom? (items ++ [item]) rest

-- The function literal with the nodes of its body unfolded.
def Code.function? : Code → Option Function
  | .mk name parameters nodes body source =>
    (Node.itemsFrom? [] nodes).bind fun items =>
      match items[body]? with
      | some (.block offset body) => some (.mk name parameters offset body source)
      | _ => none

end

theorem Node.itemsFrom?_append (items : List Stmt) (nodes others : List Node) :
    Node.itemsFrom? items (nodes ++ others) =
      (Node.itemsFrom? items nodes).bind fun items => Node.itemsFrom? items others := by
  induction nodes generalizing items with
  | nil => simp [Node.itemsFrom?]
  | cons first rest ih =>
    simp only [List.cons_append, Node.itemsFrom?, Option.bind_assoc]
    congr 1
    funext item
    exact ih _

namespace Arena

-- The nodes become the statements.
def Unfolds (arena : Arena) (items : List Stmt) : Prop :=
  Node.itemsFrom? [] arena = some items

section Unfolds

variable {arena : Arena} {items before : List Stmt} {item : Stmt} {node : Node} {id : Nat}

theorem unfolds_nil : Unfolds [] [] := by
  rw [Unfolds, Node.itemsFrom?]

theorem unfolds_concat : Unfolds (arena ++ [node]) before ↔
    ∃ items item, Unfolds arena items ∧ node.item? items = some item ∧ before = items ++ [item] := by
  unfold Unfolds
  simp only [Node.itemsFrom?_append, Option.bind_eq_some_iff, Node.itemsFrom?,
    Option.some.injEq]
  grind

theorem Unfolds.length_eq (h : arena.Unfolds items) : items.length = arena.length := by
  induction arena using List.reverseRecOn generalizing items with
  | nil =>
    cases (unfolds_nil.symm.trans h : some [] = some items)
    rfl
  | append_singleton arena node ih =>
    obtain ⟨items, item, hu, -, rfl⟩ := unfolds_concat.mp h
    simp [ih hu]

-- The statement at a place is what the node there becomes behind the statements before it.
theorem Unfolds.node_of (h : arena.Unfolds items) (hi : items[id]? = some item) :
    ∃ node, arena[id]? = some node ∧ node.item? (items.take id) = some item := by
  induction arena using List.reverseRecOn generalizing items with
  | nil =>
    cases (unfolds_nil.symm.trans h : some [] = some items)
    cases hi
  | append_singleton arena node ih =>
    obtain ⟨items, last, hu, hlast, rfl⟩ := unfolds_concat.mp h
    have hlength := hu.length_eq
    by_cases hlt : id < items.length
    · rw [List.getElem?_append_left hlt] at hi
      rw [List.getElem?_append_left (hlength ▸ hlt), List.take_append_of_le_length (Nat.le_of_lt hlt)]
      exact ih hu hi
    · obtain rfl : id = items.length := by
        have := (List.getElem?_eq_some_iff.mp hi).1
        simp at this
        omega
      rw [List.getElem?_concat_length] at hi
      cases hi
      refine ⟨node, ?_, ?_⟩
      · rw [hlength, List.getElem?_concat_length]
      · rw [List.take_append_of_le_length (Nat.le_refl _), List.take_length]
        exact hlast

-- A node has been put behind nodes that unfold to more than `before`, and becomes the item.
def Gains (before : List Stmt) (result : Nat × Arena) (item : Stmt) : Prop :=
  ∃ after, result.2.Unfolds after ∧ before <+: after ∧ after[result.1]? = some item

theorem Unfolds.gains (h : arena.Unfolds items) (hp : before <+: items)
    (hn : node.item? items = some item) : Gains before (arena.add node) item := by
  refine ⟨items ++ [item], unfolds_concat.mpr ⟨items, item, h, hn, rfl⟩,
    hp.trans (List.prefix_append _ _), ?_⟩
  rw [Arena.add, ← h.length_eq]
  exact List.getElem?_concat_length

end Unfolds

end Arena

section Lookup

variable {items later : List Stmt} {id : Nat} {value : Expr} {item : Stmt}

theorem Stmt.exprAt?_of_item (h : items[id]? = some (.expression value)) :
    Stmt.exprAt? items id = some value := by
  rw [Stmt.exprAt?, h]
  rfl

-- What has been found is found among more statements too.
theorem Stmt.itemAt_mono (hp : items <+: later) (h : items[id]? = some item) :
    later[id]? = some item := by
  obtain ⟨more, rfl⟩ := hp
  rw [List.getElem?_append_left (List.getElem?_eq_some_iff.mp h).1]
  exact h

theorem Stmt.exprAt?_mono (hp : items <+: later) (h : Stmt.exprAt? items id = some value) :
    Stmt.exprAt? later id = some value := by
  obtain ⟨item, hi, hv⟩ := Option.bind_eq_some_iff.mp h
  rw [Stmt.exprAt?, Stmt.itemAt_mono hp hi]
  exact hv

theorem Node.part?_mono {α : Type} {f g : Nat → Option α} (hfg : ∀ x y, f x = some y → g x = some y)
    {part : Option Nat} {found : Option α} (h : Node.part? f part = some found) :
    Node.part? g part = some found := by
  cases part with
  | none => exact h
  | some id =>
    obtain ⟨y, hy, rfl⟩ := Option.map_eq_some_iff.mp h
    rw [Node.part?, hfg _ _ hy]
    rfl

end Lookup

open Arena

mutual

theorem Expr.gains_place (value : Expr) {arena : Arena} {items : List Stmt}
    (h : arena.Unfolds items) : Gains items (value.place arena) (.expression value) := by
  cases value with
  | literal _ _ | identifier _ _ | receiver _ => exact h.gains List.prefix_rfl rfl
  | function offset literal =>
    refine h.gains List.prefix_rfl ?_
    rw [Node.item?, literal.function?_code]
    rfl
  | dot offset target name =>
    obtain ⟨found, ht, hp, hi⟩ := target.gains_place h
    refine ht.gains hp ?_
    simp [Node.item?, Stmt.exprAt?_of_item hi]
  | unary offset operator operand =>
    obtain ⟨found, ht, hp, hi⟩ := operand.gains_place h
    refine ht.gains hp ?_
    simp [Node.item?, Stmt.exprAt?_of_item hi]
  | subscript offset left right | binary offset operator left right
  | logical offset operator left right | assign offset left right
  | update offset operator left right givesOld =>
    obtain ⟨found, hl, hp, hi⟩ := left.gains_place h
    obtain ⟨more, hr, hp', hi'⟩ := right.gains_place hl
    refine hr.gains (hp.trans hp') ?_
    simp [Node.item?, Stmt.exprAt?_mono hp' (Stmt.exprAt?_of_item hi), Stmt.exprAt?_of_item hi']
  | ternary offset test yes no =>
    obtain ⟨found, ht, hp, hi⟩ := test.gains_place h
    obtain ⟨more, hy, hp', hi'⟩ := yes.gains_place ht
    obtain ⟨all, hn, hp'', hi''⟩ := no.gains_place hy
    refine hn.gains (hp.trans (hp'.trans hp'')) ?_
    simp [Node.item?, Stmt.exprAt?_mono (hp'.trans hp'') (Stmt.exprAt?_of_item hi),
      Stmt.exprAt?_mono hp'' (Stmt.exprAt?_of_item hi'), Stmt.exprAt?_of_item hi'']
  | call offset callee arguments =>
    obtain ⟨found, hc, hp, hi⟩ := callee.gains_place h
    obtain ⟨all, ha, hp', hi'⟩ := Expr.gains_placeAll arguments hc
    refine ha.gains (hp.trans hp') ?_
    simp [Node.item?, Stmt.exprAt?_mono hp' (Stmt.exprAt?_of_item hi), hi']
  | construct offset path values | array offset values =>
    obtain ⟨all, ha, hp, hi⟩ := Expr.gains_placeAll values h
    refine ha.gains hp ?_
    simp [Node.item?, hi]
  | object offset entries =>
    obtain ⟨all, ha, hp, hi⟩ := Expr.gains_placeEntries entries h
    refine ha.gains hp ?_
    simp [Node.item?, hi]
termination_by structural value

theorem Expr.gains_placeAll (values : List Expr) {arena : Arena} {items : List Stmt}
    (h : arena.Unfolds items) : ∃ after, (Expr.placeAll values arena).2.Unfolds after ∧
      items <+: after ∧
      (Expr.placeAll values arena).1.mapM (Stmt.exprAt? after) = some values := by
  cases values with
  | nil => exact ⟨items, h, List.prefix_rfl, rfl⟩
  | cons first rest =>
    obtain ⟨found, hf, hp, hi⟩ := first.gains_place h
    obtain ⟨all, ha, hp', hi'⟩ := Expr.gains_placeAll rest hf
    refine ⟨all, ha, hp.trans hp', ?_⟩
    simp [Expr.placeAll, Stmt.exprAt?_mono hp' (Stmt.exprAt?_of_item hi), hi']
termination_by structural values

theorem Expr.gains_placeEntries (entries : List (String × Expr)) {arena : Arena}
    {items : List Stmt} (h : arena.Unfolds items) :
    ∃ after, (Expr.placeEntries entries arena).2.Unfolds after ∧ items <+: after ∧
      ((Expr.placeEntries entries arena).1.mapM
        fun entry => (Stmt.exprAt? after entry.2).map (entry.1, ·)) = some entries := by
  cases entries with
  | nil => exact ⟨items, h, List.prefix_rfl, rfl⟩
  | cons entry rest =>
    obtain ⟨key, first⟩ := entry
    obtain ⟨found, hf, hp, hi⟩ := first.gains_place h
    obtain ⟨all, ha, hp', hi'⟩ := Expr.gains_placeEntries rest hf
    refine ⟨all, ha, hp.trans hp', ?_⟩
    simp [Expr.placeEntries, Stmt.exprAt?_mono hp' (Stmt.exprAt?_of_item hi), hi']
termination_by structural entries

theorem Expr.gains_placeOption (value : Option Expr) {arena : Arena} {items : List Stmt}
    (h : arena.Unfolds items) : ∃ after, (Expr.placeOption value arena).2.Unfolds after ∧
      items <+: after ∧
      Node.part? (Stmt.exprAt? after) (Expr.placeOption value arena).1 = some value := by
  cases value with
  | none => exact ⟨items, h, List.prefix_rfl, rfl⟩
  | some value =>
    obtain ⟨found, hf, hp, hi⟩ := value.gains_place h
    refine ⟨found, hf, hp, ?_⟩
    simp [Expr.placeOption, Node.part?, Stmt.exprAt?_of_item hi]
termination_by structural value

theorem Stmt.gains_place (item : Stmt) {arena : Arena} {items : List Stmt}
    (h : arena.Unfolds items) : Gains items (item.place arena) item := by
  cases item with
  | empty _ | breakLoop _ | continueLoop _ => exact h.gains List.prefix_rfl rfl
  | expression value => exact value.gains_place h
  | block offset body =>
    obtain ⟨all, ha, hp, hi⟩ := Stmt.gains_placeAll body h
    refine ha.gains hp ?_
    simp [Node.item?, hi]
  | declare offset name initial =>
    obtain ⟨all, ha, hp, hi⟩ := Expr.gains_placeOption initial h
    refine ha.gains hp ?_
    simp [Node.item?, hi]
  | giveBack offset value =>
    obtain ⟨all, ha, hp, hi⟩ := Expr.gains_placeOption value h
    refine ha.gains hp ?_
    simp [Node.item?, hi]
  | branch offset test yes no =>
    obtain ⟨found, ht, hp, hi⟩ := test.gains_place h
    obtain ⟨more, hy, hp', hi'⟩ := yes.gains_place ht
    obtain ⟨all, hn, hp'', hi''⟩ := Stmt.gains_placeOption no hy
    refine hn.gains (hp.trans (hp'.trans hp'')) ?_
    simp [Node.item?, Stmt.exprAt?_mono (hp'.trans hp'') (Stmt.exprAt?_of_item hi),
      Stmt.itemAt_mono hp'' hi', hi'']
  | loop offset initial test step body testLast =>
    cases testLast with
    | true =>
      obtain ⟨a, ha, hp, hi⟩ := Stmt.gains_placeOption initial h
      obtain ⟨b, hb, hp₁, hi₁⟩ := body.gains_place ha
      obtain ⟨c, hc, hp₂, hi₂⟩ := Expr.gains_placeOption test hb
      obtain ⟨d, hd, hp₃, hi₃⟩ := Expr.gains_placeOption step hc
      refine hd.gains (hp.trans (hp₁.trans (hp₂.trans hp₃))) ?_
      simp [Node.item?, hi₃, Stmt.itemAt_mono (hp₂.trans hp₃) hi₁,
        Node.part?_mono (fun _ _ => Stmt.exprAt?_mono hp₃) hi₂,
        Node.part?_mono (fun _ _ => Stmt.itemAt_mono (hp₁.trans (hp₂.trans hp₃))) hi]
    | false =>
      obtain ⟨a, ha, hp, hi⟩ := Stmt.gains_placeOption initial h
      obtain ⟨b, hb, hp₁, hi₁⟩ := Expr.gains_placeOption test ha
      obtain ⟨c, hc, hp₂, hi₂⟩ := Expr.gains_placeOption step hb
      obtain ⟨d, hd, hp₃, hi₃⟩ := body.gains_place hc
      refine hd.gains (hp.trans (hp₁.trans (hp₂.trans hp₃))) ?_
      simp [Node.item?, hi₃, Node.part?_mono (fun _ _ => Stmt.exprAt?_mono (hp₂.trans hp₃)) hi₁,
        Node.part?_mono (fun _ _ => Stmt.exprAt?_mono hp₃) hi₂,
        Node.part?_mono (fun _ _ => Stmt.itemAt_mono (hp₁.trans (hp₂.trans hp₃))) hi]
termination_by structural item

theorem Stmt.gains_placeOption (item : Option Stmt) {arena : Arena} {items : List Stmt}
    (h : arena.Unfolds items) : ∃ after, (Stmt.placeOption item arena).2.Unfolds after ∧
      items <+: after ∧ Node.part? (after[·]?) (Stmt.placeOption item arena).1 = some item := by
  cases item with
  | none => exact ⟨items, h, List.prefix_rfl, rfl⟩
  | some item =>
    obtain ⟨found, hf, hp, hi⟩ := item.gains_place h
    refine ⟨found, hf, hp, ?_⟩
    simp [Stmt.placeOption, Node.part?, hi]
termination_by structural item

theorem Stmt.gains_placeAll (body : List Stmt) {arena : Arena} {items : List Stmt}
    (h : arena.Unfolds items) : ∃ after, (Stmt.placeAll body arena).2.Unfolds after ∧
      items <+: after ∧ (Stmt.placeAll body arena).1.mapM (after[·]?) = some body := by
  cases body with
  | nil => exact ⟨items, h, List.prefix_rfl, rfl⟩
  | cons first rest =>
    obtain ⟨found, hf, hp, hi⟩ := first.gains_place h
    obtain ⟨all, ha, hp', hi'⟩ := Stmt.gains_placeAll rest hf
    refine ⟨all, ha, hp.trans hp', ?_⟩
    simp [Stmt.placeAll, Stmt.itemAt_mono hp' hi, hi']
termination_by structural body

-- A function literal that has been placed unfolds to itself.
theorem Function.function?_code (literal : Function) : literal.code.function? = some literal := by
  cases literal with
  | mk name parameters offset body source =>
    obtain ⟨items, hu, -, hi⟩ := Stmt.gains_placeAll body unfolds_nil
    obtain ⟨after, hu', -, hi'⟩ : Gains [] ((Stmt.placeAll body []).2.add
        (.block offset (Stmt.placeAll body []).1)) (.block offset body) := by
      refine hu.gains List.nil_prefix ?_
      simp [Node.item?, hi]
    rw [Function.code, Code.function?]
    rw [Arena.Unfolds] at hu'
    simp only [hu', Option.bind_some, hi']
termination_by structural literal

end

end ScriptEngine
