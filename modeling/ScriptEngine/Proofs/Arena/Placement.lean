import ScriptEngine.Proofs.Arena.Builder

-- Where the nodes of a tree come to stand: children first and in the order in which they are read,
-- each node right behind them. For chains of operands the order of reading is made up for here:
-- joining them as soon as their operators allow gives the tree that joining level by level gives.

namespace ScriptEngine

mutual

def Expr.place : Expr → Arena → Nat × Arena
  | .literal offset value, arena => arena.add (.literal offset value)
  | .identifier offset name, arena => arena.add (.identifier offset name)
  | .receiver offset, arena => arena.add (.receiver offset)
  | .dot offset target name, arena =>
    let target := target.place arena
    target.2.add (.dot offset target.1 name)
  | .subscript offset target index, arena =>
    let target := target.place arena
    let index := index.place target.2
    index.2.add (.subscript offset target.1 index.1)
  | .unary offset operator operand, arena =>
    let operand := operand.place arena
    operand.2.add (.unary offset operator operand.1)
  | .binary offset operator left right, arena =>
    let left := left.place arena
    let right := right.place left.2
    right.2.add (.binary offset operator left.1 right.1)
  | .logical offset operator left right, arena =>
    let left := left.place arena
    let right := right.place left.2
    right.2.add (.logical offset operator left.1 right.1)
  | .ternary offset test yes no, arena =>
    let test := test.place arena
    let yes := yes.place test.2
    let no := no.place yes.2
    no.2.add (.ternary offset test.1 yes.1 no.1)
  | .assign offset target value, arena =>
    let target := target.place arena
    let value := value.place target.2
    value.2.add (.assign offset target.1 value.1)
  | .update offset operator target value givesOld, arena =>
    let target := target.place arena
    let value := value.place target.2
    value.2.add (.update offset operator target.1 value.1 givesOld)
  | .call offset callee arguments, arena =>
    let callee := callee.place arena
    let arguments := Expr.placeAll arguments callee.2
    arguments.2.add (.call offset callee.1 arguments.1)
  | .construct offset path arguments, arena =>
    let arguments := Expr.placeAll arguments arena
    arguments.2.add (.construct offset path arguments.1)
  | .object offset entries, arena =>
    let entries := Expr.placeEntries entries arena
    entries.2.add (.object offset entries.1)
  | .array offset elements, arena =>
    let elements := Expr.placeAll elements arena
    elements.2.add (.array offset elements.1)
  | .function offset literal, arena => arena.add (.function offset literal.code)

def Expr.placeAll : List Expr → Arena → List Nat × Arena
  | [], arena => ([], arena)
  | first :: rest, arena =>
    let first := first.place arena
    let rest := Expr.placeAll rest first.2
    (first.1 :: rest.1, rest.2)

def Expr.placeEntries : List (String × Expr) → Arena → List (String × Nat) × Arena
  | [], arena => ([], arena)
  | (key, value) :: rest, arena =>
    let value := value.place arena
    let rest := Expr.placeEntries rest value.2
    ((key, value.1) :: rest.1, rest.2)

def Expr.placeOption : Option Expr → Arena → Option Nat × Arena
  | none, arena => (none, arena)
  | some value, arena =>
    let value := value.place arena
    (some value.1, value.2)

def Stmt.place : Stmt → Arena → Nat × Arena
  | .empty offset, arena => arena.add (.empty offset)
  | .block offset body, arena =>
    let body := Stmt.placeAll body arena
    body.2.add (.block offset body.1)
  | .branch offset test yes no, arena =>
    let test := test.place arena
    let yes := yes.place test.2
    let no := Stmt.placeOption no yes.2
    no.2.add (.branch offset test.1 yes.1 no.1)
  | .declare offset name initial, arena =>
    let initial := Expr.placeOption initial arena
    initial.2.add (.declare offset name initial.1)
  -- A loop that tests last has its test behind its body in the text.
  | .loop offset initial test step body true, arena =>
    let initial := Stmt.placeOption initial arena
    let body := body.place initial.2
    let test := Expr.placeOption test body.2
    let step := Expr.placeOption step test.2
    step.2.add (.loop offset initial.1 test.1 step.1 body.1 true)
  | .loop offset initial test step body false, arena =>
    let initial := Stmt.placeOption initial arena
    let test := Expr.placeOption test initial.2
    let step := Expr.placeOption step test.2
    let body := body.place step.2
    body.2.add (.loop offset initial.1 test.1 step.1 body.1 false)
  | .giveBack offset value, arena =>
    let value := Expr.placeOption value arena
    value.2.add (.giveBack offset value.1)
  | .breakLoop offset, arena => arena.add (.breakLoop offset)
  | .continueLoop offset, arena => arena.add (.continueLoop offset)
  | .expression value, arena => value.place arena

def Stmt.placeOption : Option Stmt → Arena → Option Nat × Arena
  | none, arena => (none, arena)
  | some item, arena =>
    let item := item.place arena
    (some item.1, item.2)

def Stmt.placeAll : List Stmt → Arena → List Nat × Arena
  | [], arena => ([], arena)
  | first :: rest, arena =>
    let first := first.place arena
    let rest := Stmt.placeAll rest first.2
    (first.1 :: rest.1, rest.2)

-- The body of a function comes into an arena of its own.
def Function.code : Function → Code
  | .mk name parameters offset body source =>
    let body := Stmt.placeAll body []
    let block := body.2.add (.block offset body.1)
    .mk name parameters block.2 block.1 source

end

def Expr.tree (value : Expr) : Tree :=
  ⟨(value.place []).2, (value.place []).1⟩

def Program.tree (program : Program) : Tree :=
  let block := (Stmt.block program.offset program.body).place []
  ⟨block.2, block.1⟩

@[simp] theorem Function.code_name (literal : Function) : literal.code.name = literal.name := by
  cases literal
  simp [Function.code, Code.name, Function.name]

theorem ChainOp.place_join (operator : ChainOp) (offset : Nat) (left right : Expr) (arena : Arena) :
    (operator.join offset left right).place arena =
      (right.place (left.place arena).2).2.add
        (operator.node offset (left.place arena).1 (right.place (left.place arena).2).1) := by
  cases operator <;> simp [join, node, Expr.place]

theorem ChainOp.level_le_loosest (operator : ChainOp) : operator.level ≤ loosest := by
  cases operator with
  | binary operator => cases operator <;> decide
  | logical operator => cases operator <;> decide

namespace Chain

-- Joins the operands whose operators bind as tightly as a level or more so.
def settle (level : Nat) : List (Waiting Expr) → Expr → List (Waiting Expr) × Expr
  | [], right => ([], right)
  | top :: rest, right =>
    if top.operator.level ≤ level then
      settle level rest (top.operator.join top.offset top.left right)
    else
      (top :: rest, right)

-- The tree of a chain that is joined while it is read, behind operands that wait.
def close (waiting : List (Waiting Expr)) (operand : Expr) : List Link → Expr
  | [] => (settle ChainOp.loosest waiting operand).2
  | link :: rest =>
    let settled := settle link.operator.level waiting operand
    close (⟨link.operator, link.offset, settled.2⟩ :: settled.1) link.operand rest

section Close

variable {level : Nat} {waiting : List (Waiting Expr)} {operand : Expr} {links : List Link}

theorem settle_loosest (waiting : List (Waiting Expr)) (operand : Expr) :
    (settle ChainOp.loosest waiting operand).1 = [] := by
  induction waiting generalizing operand with
  | nil => rfl
  | cons top rest ih =>
    rw [settle, if_pos top.operator.level_le_loosest]
    exact ih _

theorem mem_settle {top : Waiting Expr} (h : top ∈ (settle level waiting operand).1) :
    top ∈ waiting := by
  induction waiting generalizing operand with
  | nil => exact h
  | cons next rest ih =>
    rw [settle] at h
    split at h
    · exact List.mem_cons_of_mem _ (ih h)
    · exact h

-- If nothing behind it binds tighter, what waits on top is joined at once.
theorem close_cons {top : Waiting Expr}
    (h : ∀ link ∈ links, top.operator.level ≤ link.operator.level) :
    close (top :: waiting) operand links =
      close waiting (top.operator.join top.offset top.left operand) links := by
  cases links with
  | nil => rw [close, close, settle, if_pos top.operator.level_le_loosest]
  | cons link rest =>
    rw [close, close, settle, if_pos (h link List.mem_cons_self)]

theorem le_joinLevel (h : ∀ link ∈ links, level ≤ link.operator.level) :
    ∀ link ∈ (joinLevel level operand links).links, level + 1 ≤ link.operator.level := by
  induction links generalizing operand with
  | nil => exact nofun
  | cons link rest ih =>
    obtain ⟨hlink, hrest⟩ := List.forall_mem_cons.mp h
    rw [joinLevel]
    split
    · exact ih hrest
    · next hne =>
      refine List.forall_mem_cons.mpr ⟨?_, ih hrest⟩
      exact Nat.lt_of_le_of_ne hlink (Ne.symm hne)

-- Joining the tightest level beforehand changes nothing.
theorem close_joinLevel (hw : ∀ top ∈ waiting, level < top.operator.level)
    (hl : ∀ link ∈ links, level ≤ link.operator.level) :
    close waiting (joinLevel level operand links).first (joinLevel level operand links).links =
      close waiting operand links := by
  induction links generalizing waiting operand with
  | nil => rfl
  | cons link rest ih =>
    obtain ⟨hlink, hrest⟩ := List.forall_mem_cons.mp hl
    rw [joinLevel]
    split
    · next he =>
      have hsettle : settle link.operator.level waiting operand = (waiting, operand) := by
        rw [he]
        cases waiting with
        | nil => rfl
        | cons top others => rw [settle, if_neg (Nat.not_le.mpr (hw top List.mem_cons_self))]
      rw [ih hw hrest, close, hsettle, close_cons]
      rw [he]
      exact hrest
    · next hne =>
      have hlt : level < link.operator.level := Nat.lt_of_le_of_ne hlink (Ne.symm hne)
      simp only [close]
      refine ih (List.forall_mem_cons.mpr ⟨hlt, fun top hm => hw top (mem_settle hm)⟩) hrest

-- Joining while reading gives the tree that joining level by level gives.
theorem close_nil (first : Expr) (links : List Link) :
    close [] first links = group ⟨first, links⟩ := by
  have hjoined (levels : Nat) :
      let joined := (List.range levels).foldl
        (fun chain level => joinLevel level chain.first chain.links) ⟨first, links⟩
      close [] joined.first joined.links = close [] first links ∧
        ∀ link ∈ joined.links, levels ≤ link.operator.level := by
    induction levels with
    | zero => exact ⟨rfl, fun _ _ => Nat.zero_le _⟩
    | succ level ih =>
      obtain ⟨hclose, hlevels⟩ := ih
      rw [List.range_succ, List.foldl_append]
      have hnone (top : Waiting Expr) (hm : top ∈ []) : level < top.operator.level :=
        absurd hm List.not_mem_nil
      exact ⟨(close_joinLevel hnone hlevels).trans hclose, le_joinLevel hlevels⟩
  obtain ⟨hclose, hlevels⟩ := hjoined (ChainOp.loosest + 1)
  rw [← hclose, List.eq_nil_iff_forall_not_mem.mpr fun link hm =>
    absurd link.operator.level_le_loosest (Nat.not_le.mpr (hlevels link hm))]
  rfl

end Close

end Chain

end ScriptEngine
