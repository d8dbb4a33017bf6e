import ScriptEngine.Proofs.Arena.Placement
import ScriptEngine.Proofs.Reading.Stream

-- The builders go along with the readers: they come to the same end, and where a reader gives a tree
-- its builder has placed the nodes of that tree.

namespace ScriptEngine

def Parsed.map {α β : Type} (f : α → β) : Parsed α → Parsed β
  | ok value rest => ok (f value) rest
  | refused error => refused error
  | spent => spent

namespace Builder

open ScriptEngine.Parser

variable {α β γ δ : Type} {arena : Arena}

theorem bind_run (build : Builder δ) (next : δ → Builder β) (arena : Arena) :
    (build >>= next) arena = (build arena >>= fun result => next result.1 result.2) := rfl

-- Reading without nodes leaves the arena as it is.
theorem lift_bind_run (part : Parser δ) (next : δ → Builder β) (arena : Arena) :
    (liftM part >>= next : Builder β) arena = (part >>= fun value => next value arena) := by
  funext stream
  change ((part >>= fun value => pure (value, arena) : Parser (δ × Arena)) >>=
    fun result => next result.1 result.2) stream = _
  rw [Parser.bind_apply, Parser.bind_apply, Parser.bind_apply]
  cases part stream <;> rfl

-- A builder gives the place of what a reader gives.
def Follows (place : α → β × Arena) (build : Parser (β × Arena)) (read : Parser α) : Prop :=
  ∀ stream, build stream = (read stream).map place

section Follows

variable {place : α → β × Arena} {read : Parser α}

theorem follows_spent : Follows place ((spent : Builder β) arena) spent :=
  fun _ => rfl

theorem follows_refuseAt {offset : Nat} {fault : ParseFault} :
    Follows place ((refuseAt offset fault : Builder β) arena) (refuseAt offset fault) :=
  fun _ => rfl

theorem follows_unexpected {expected : Expected} :
    Follows place ((unexpected expected : Builder β) arena) (unexpected expected) :=
  fun _ => rfl

theorem follows_pure {value : α} {result : β} (h : (result, arena) = place value) :
    Follows place ((pure result : Builder β) arena) (pure value) :=
  fun stream => congrArg (Parsed.ok · stream) h

theorem follows_add {value : α} {place : α → Nat × Arena} {node : Node}
    (h : arena.add node = place value) : Follows place (add node arena) (pure value) :=
  fun stream => congrArg (Parsed.ok · stream) h

-- A reader that comes to another where it stands.
theorem Follows.of_eq {build : Parser (β × Arena)} {read : Parser α} (other : Parser α)
    (he : read = other) (h : Follows place build other) : Follows place build read :=
  he ▸ h

-- A part of the text that has no nodes.
theorem Follows.lift {part : Parser γ} {next : γ → Builder β} {next' : γ → Parser α}
    (h : ∀ value, Follows place (next value arena) (next' value)) :
    Follows place ((liftM part >>= next : Builder β) arena) (part >>= next') := by
  intro stream
  rw [lift_bind_run, Parser.bind_apply, Parser.bind_apply]
  cases part stream with
  | ok value rest => exact h value rest
  | refused error => rfl
  | spent => rfl

-- A part with nodes, and what follows it.
theorem Follows.bind {inner : γ → δ × Arena} {build : Builder δ} {part : Parser γ}
    {next : δ → Builder β} {next' : γ → Parser α} (h : Follows inner (build arena) part)
    (hn : ∀ value, Follows place (next (inner value).1 (inner value).2) (next' value)) :
    Follows place ((build >>= next) arena) (part >>= next') := by
  intro stream
  rw [bind_run, Parser.bind_apply, Parser.bind_apply, h stream]
  cases part stream with
  | ok value rest => exact hn value rest
  | refused error => rfl
  | spent => rfl

-- What a reader makes of its last part.
theorem Follows.map {make : γ → α} {build : Parser (β × Arena)} {part : Parser γ}
    (h : Follows (fun value => place (make value)) build part) :
    Follows place build (part >>= fun value => pure (make value)) := by
  intro stream
  rw [h stream, Parser.bind_apply]
  cases part stream <;> rfl

-- A part in an arena of its own.
theorem Follows.apart {inner : γ → δ × Arena} {build : Builder δ} {part : Parser γ}
    (h : Follows inner (build []) part) :
    Follows (fun value => (inner value, arena)) (Builder.apart build arena) part := by
  intro stream
  change (build [] >>= fun result => pure (result, arena)) stream = _
  rw [Parser.bind_apply, h stream]
  cases part stream <;> rfl

-- A part that may be missing, where it is there.
theorem Follows.some {build : Builder Nat} {part : Parser Expr}
    (h : Follows (Expr.place · arena) (build arena) part) :
    Follows (Expr.placeOption · arena) ((Option.some <$> build : Builder (Option Nat)) arena)
      (Option.some <$> part) := by
  intro stream
  change (build arena >>= fun result => pure (Option.some result.1, result.2)) stream =
    Parsed.map _ ((part >>= fun value => pure (Option.some value)) stream)
  rw [Parser.bind_apply, Parser.bind_apply, h stream]
  cases part stream <;> rfl

-- A node is added between two parts.
theorem Follows.add {node : Node} {next : Nat → Builder β}
    (h : Follows place (next (arena.add node).1 (arena.add node).2) read) :
    Follows place ((Builder.add node >>= next) arena) read :=
  h

end Follows

-- The nodes of the operands that wait, and of the one that is at hand.
def placeWaiting : List (Waiting Expr) → Arena → List (Waiting Nat) × Arena
  | [], arena => ([], arena)
  | top :: rest, arena =>
    let rest := placeWaiting rest arena
    let left := top.left.place rest.2
    (⟨top.operator, top.offset, left.1⟩ :: rest.1, left.2)

def placeOperands (waiting : List (Waiting Expr)) (operand : Expr) (arena : Arena) :
    (List (Waiting Nat) × Nat) × Arena :=
  let waiting := placeWaiting waiting arena
  let operand := operand.place waiting.2
  ((waiting.1, operand.1), operand.2)

-- Where the readers join operands, the builders add the nodes that join them.
theorem settle_run (level : Nat) (waiting : List (Waiting Expr)) (operand : Expr) (arena : Arena) :
    settle level (placeOperands waiting operand arena).1.1 (placeOperands waiting operand arena).1.2
        (placeOperands waiting operand arena).2 =
      (pure (placeOperands (Chain.settle level waiting operand).1
        (Chain.settle level waiting operand).2 arena) : Parser _) := by
  induction waiting generalizing operand with
  | nil => rfl
  | cons top rest ih =>
    simp only [placeOperands, placeWaiting, settle, Chain.settle]
    split
    · next hle =>
      have hjoined := ih (top.operator.join top.offset top.left operand)
      simp only [placeOperands, ChainOp.place_join] at hjoined
      exact hjoined
    · rfl

variable {script : List Char} {fuel : Nat}

-- The nodes of a block, with where it ends.
def placeBlock (block : Grammar.Block) (arena : Arena) : (Nat × Nat) × Arena :=
  let body := (Stmt.block block.offset block.body).place arena
  ((body.1, block.stop), body.2)

-- The builders with some fuel follow the readers.
structure FollowsAt (script : List Char) (fuel : Nat) : Prop where
  expression (arena : Arena) : Follows (Expr.place · arena) (expression script fuel arena)
    (Grammar.expression script fuel)
  chain (waiting : List (Waiting Expr)) (operand : Expr) (arena : Arena) :
    Follows (fun links => (Chain.close waiting operand links).place arena)
      (chain script fuel (placeOperands waiting operand arena).1.1
        (placeOperands waiting operand arena).1.2 (placeOperands waiting operand arena).2)
      (Grammar.links script fuel)
  unary (arena : Arena) : Follows (Expr.place · arena) (unary script fuel arena)
    (Grammar.unary script fuel)
  primary (arena : Arena) : Follows (Expr.place · arena) (primary script fuel arena)
    (Grammar.primary script fuel)
  suffixes (target : Expr) (arena : Arena) : Follows (Expr.place · arena)
    (suffixes script fuel (target.place arena).1 (target.place arena).2)
    (Grammar.suffixes script fuel target)
  expressions (closing : Symbol) (arena : Arena) : Follows (Expr.placeAll · arena)
    (expressions script fuel closing arena) (Grammar.expressions script fuel closing)
  entries (arena : Arena) : Follows (Expr.placeEntries · arena) (entries script fuel arena)
    (Grammar.entries script fuel)
  function (arena : Arena) : Follows (fun literal => (literal.code, arena))
    (function script fuel arena) (Grammar.function script fuel)
  block (arena : Arena) : Follows (placeBlock · arena) (block script fuel arena)
    (Grammar.block script fuel)
  blockItems (arena : Arena) : Follows (Stmt.placeAll · arena) (blockItems script fuel arena)
    (Grammar.blockItems script fuel)
  statement (arena : Arena) : Follows (Stmt.place · arena) (statement script fuel arena)
    (Grammar.statement script fuel)
  optional (closing : Symbol) (arena : Arena) : Follows (Expr.placeOption · arena)
    (optional script fuel closing arena) (Grammar.optional script fuel closing)
  declarations (arena : Arena) : Follows (Stmt.place · arena) (declarations script fuel arena)
    (Grammar.declarations script fuel)

section Readers

variable (ih : FollowsAt script fuel)
include ih

theorem expression_follows (arena : Arena) :
    Follows (Expr.place · arena) (expression script (fuel + 1) arena)
      (Grammar.expression script (fuel + 1)) := by
  rw [expression, Grammar.expression]
  refine (ih.unary arena).bind fun first => ?_
  refine (ih.chain [] first arena).bind fun links => ?_
  simp only [Chain.close_nil]
  refine .lift fun offset => ?_
  refine .lift fun token => ?_
  split
  · refine .lift fun _ => ?_
    refine (ih.expression _).bind fun yes => ?_
    refine .lift fun _ => ?_
    refine (ih.expression _).bind fun no => ?_
    exact follows_add rfl
  · refine .lift fun _ => ?_
    exact (ih.expression _).bind fun value => follows_add rfl
  · next mark _ _ =>
    cases ho : BinaryOp.ofAssignment? mark with
    | some operator =>
      simp only [*]
      refine .lift fun _ => ?_
      exact (ih.expression _).bind fun value => follows_add rfl
    | none => exact .of_eq (pure (Chain.group ⟨first, links⟩)) (by simp only [*]) (follows_pure rfl)
  · exact .of_eq (pure (Chain.group ⟨first, links⟩)) (by simp only [*]) (follows_pure rfl)

theorem chain_follows (waiting : List (Waiting Expr)) (operand : Expr) (arena : Arena) :
    Follows (fun links => (Chain.close waiting operand links).place arena)
      (chain script (fuel + 1) (placeOperands waiting operand arena).1.1
        (placeOperands waiting operand arena).1.2 (placeOperands waiting operand arena).2)
      (Grammar.links script (fuel + 1)) := by
  -- Where no operator follows, all that waits is joined.
  have hdone : Follows (fun links => (Chain.close waiting operand links).place arena)
      ((settle ChainOp.loosest (placeOperands waiting operand arena).1.1
        (placeOperands waiting operand arena).1.2 >>= fun result => pure result.2 : Builder Nat)
        (placeOperands waiting operand arena).2) (pure []) := by
    rw [bind_run, settle_run]
    refine follows_pure ?_
    rw [Chain.close, placeOperands, Chain.settle_loosest]
    rfl
  rw [chain, Grammar.links]
  refine .lift fun offset => ?_
  refine .lift fun token => ?_
  split
  · next mark =>
    cases ho : ChainOp.ofSymbol? mark with
    | some operator =>
      simp only [*]
      rw [bind_run, settle_run]
      refine .lift fun _ => ?_
      refine (ih.unary _).bind fun next => .map ?_
      exact ih.chain (⟨operator, offset, (Chain.settle operator.level waiting operand).2⟩ ::
        (Chain.settle operator.level waiting operand).1) next arena
    | none => exact .of_eq (pure []) (by simp only [*]) hdone
  · exact .of_eq (pure []) (by simp only [*]) hdone

theorem unary_follows (arena : Arena) :
    Follows (Expr.place · arena) (unary script (fuel + 1) arena)
      (Grammar.unary script (fuel + 1)) := by
  rw [unary, Grammar.unary]
  refine .lift fun offset => ?_
  refine .lift fun token => ?_
  split
  · refine .lift fun _ => .add ?_
    exact (ih.unary _).bind fun operand => follows_add rfl
  · refine .lift fun _ => ?_
    exact (ih.unary _).bind fun operand => follows_add rfl
  · refine .lift fun _ => ?_
    exact (ih.primary _).bind fun target => .add (follows_add rfl)
  · refine .lift fun _ => ?_
    exact (ih.primary _).bind fun target => .add (follows_add rfl)
  · refine .lift fun _ => ?_
    exact (ih.unary _).bind fun operand => follows_add rfl
  · exact .of_eq (Grammar.primary script fuel) (by simp only [*]) (ih.primary arena)

theorem primary_follows (arena : Arena) :
    Follows (Expr.place · arena) (primary script (fuel + 1) arena)
      (Grammar.primary script (fuel + 1)) := by
  rw [primary, Grammar.primary]
  refine .lift fun offset => ?_
  refine .lift fun token => ?_
  split
  · exact .lift fun _ => .add (ih.suffixes (.identifier _ _) arena)
  · exact .lift fun _ => .add (ih.suffixes (.literal _ _) arena)
  · refine .lift fun _ => ?_
    refine (ih.expression _).bind fun inner => ?_
    exact .lift fun _ => ih.suffixes inner arena
  · refine .lift fun _ => ?_
    refine (ih.entries _).bind fun entries => ?_
    exact .lift fun _ => .add (ih.suffixes (.object _ entries) arena)
  · refine .lift fun _ => ?_
    refine (ih.expressions _ _).bind fun elements => ?_
    exact .lift fun _ => .add (ih.suffixes (.array _ elements) arena)
  · exact .lift fun _ => .add (ih.suffixes (.literal _ _) arena)
  · exact .lift fun _ => .add (ih.suffixes (.literal _ _) arena)
  · exact .lift fun _ => .add (ih.suffixes (.literal _ _) arena)
  · exact .lift fun _ => .add (ih.suffixes (.literal _ _) arena)
  · exact .lift fun _ => .add (ih.suffixes (.literal _ _) arena)
  · exact .lift fun _ => .add (ih.suffixes (.receiver _) arena)
  · refine .lift fun _ => ?_
    refine (ih.function _).bind fun literal => ?_
    dsimp only
    rw [Function.code_name]
    cases literal.name with
    | some name => exact follows_refuseAt
    | none => exact .add (ih.suffixes (.function _ literal) arena)
  · refine .lift fun _ => ?_
    refine .lift fun first => ?_
    refine .lift fun path => ?_
    refine .lift fun found => ?_
    cases found with
    | true =>
      refine (ih.expressions _ _).bind fun arguments => ?_
      exact .lift fun _ => .add (ih.suffixes (.construct _ _ arguments) arena)
    | false => exact .add (ih.suffixes (.construct _ _ []) arena)
  · exact .of_eq (unexpected _) (by simp only [*]) follows_unexpected

theorem suffixes_follows (target : Expr) (arena : Arena) :
    Follows (Expr.place · arena)
      (suffixes script (fuel + 1) (target.place arena).1 (target.place arena).2)
      (Grammar.suffixes script (fuel + 1) target) := by
  rw [suffixes, Grammar.suffixes]
  refine .lift fun offset => ?_
  refine .lift fun token => ?_
  split
  · refine .lift fun _ => ?_
    exact .lift fun name => .add (ih.suffixes (.dot _ target name) arena)
  · refine .lift fun _ => ?_
    refine (ih.expressions _ _).bind fun arguments => ?_
    exact .lift fun _ => .add (ih.suffixes (.call _ target arguments) arena)
  · refine .lift fun _ => ?_
    refine (ih.expression _).bind fun index => ?_
    exact .lift fun _ => .add (ih.suffixes (.subscript _ target index) arena)
  · exact .lift fun _ => .add (.add (ih.suffixes (Grammar.increment _ _ target true) arena))
  · exact .lift fun _ => .add (.add (ih.suffixes (Grammar.increment _ _ target true) arena))
  · exact .of_eq (pure target) (by simp only [*]) (follows_pure rfl)

theorem expressions_follows (closing : Symbol) (arena : Arena) :
    Follows (Expr.placeAll · arena) (expressions script (fuel + 1) closing arena)
      (Grammar.expressions script (fuel + 1) closing) := by
  rw [expressions, Grammar.expressions]
  refine .lift fun found => ?_
  cases found with
  | true => exact follows_pure rfl
  | false =>
    refine (ih.expression arena).bind fun first => ?_
    refine .lift fun found => ?_
    cases found with
    | true => exact follows_pure rfl
    | false =>
      refine .lift fun _ => ?_
      exact (ih.expressions closing _).bind fun rest => follows_pure rfl

theorem entries_follows (arena : Arena) :
    Follows (Expr.placeEntries · arena) (entries script (fuel + 1) arena)
      (Grammar.entries script (fuel + 1)) := by
  -- What follows a key is the same for both kinds of keys.
  have hentry (key : String) : Follows (Expr.placeEntries · arena)
      ((do
        advance
        expectSymbol .colon
        let value ← expression script fuel
        if ← atSymbol .rightBrace then
          return [(key, value)]
        else
          expectSymbol .comma
          return (key, value) :: (← entries script fuel) : Builder (List (String × Nat))) arena)
      (do
        advance
        expectSymbol .colon
        let value ← Grammar.expression script fuel
        if ← atSymbol .rightBrace then
          return [(key, value)]
        else
          expectSymbol .comma
          return (key, value) :: (← Grammar.entries script fuel)) := by
    refine .lift fun _ => ?_
    refine .lift fun _ => ?_
    refine (ih.expression _).bind fun value => ?_
    refine .lift fun found => ?_
    cases found with
    | true => exact follows_pure rfl
    | false =>
      refine .lift fun _ => ?_
      exact (ih.entries _).bind fun rest => follows_pure rfl
  rw [entries, Grammar.entries]
  refine .lift fun token => ?_
  split
  · exact follows_pure rfl
  · exact hentry _
  · exact hentry _
  · exact .of_eq (unexpected _) (by simp only [*]) follows_unexpected

-- What follows the name of a function, with or without one.
theorem functionTail_follows (arena : Arena) (start : Nat) (name : Option String) :
    Follows (fun literal : Function => (literal.code, arena))
      ((do
        expectSymbol .leftParen
        let parameters ← Grammar.parameters fuel
        expectSymbol .rightParen
        let ((body, stop), nodes) ← apart (block script fuel)
        return .mk name parameters nodes body (String.ofList (Text.slice script start stop)) :
          Builder Code) arena)
      (do
        expectSymbol .leftParen
        let parameters ← Grammar.parameters fuel
        expectSymbol .rightParen
        let block ← Grammar.block script fuel
        return .mk name parameters block.offset block.body
          (String.ofList (Text.slice script start block.stop))) := by
  refine .lift fun _ => ?_
  refine .lift fun parameters => ?_
  refine .lift fun _ => ?_
  exact (ih.block []).apart.bind fun block => follows_pure rfl

theorem function_follows (arena : Arena) :
    Follows (fun literal => (literal.code, arena)) (function script (fuel + 1) arena)
      (Grammar.function script (fuel + 1)) := by
  rw [function, Grammar.function]
  refine .lift fun start => ?_
  refine .lift fun token => ?_
  have hnone := functionTail_follows ih arena start none
  cases token with
  | none => exact hnone
  | some token =>
    cases token with
    | identifier name => exact .lift fun _ => functionTail_follows ih arena start (some name)
    | _ => exact hnone

theorem block_follows (arena : Arena) :
    Follows (placeBlock · arena) (block script (fuel + 1) arena)
      (Grammar.block script (fuel + 1)) := by
  rw [block, Grammar.block]
  refine .lift fun offset => ?_
  refine .lift fun _ => ?_
  refine (ih.blockItems _).bind fun body => ?_
  refine .lift fun stop => ?_
  exact .lift fun _ => .add (follows_pure rfl)

theorem blockItems_follows (arena : Arena) :
    Follows (Stmt.placeAll · arena) (blockItems script (fuel + 1) arena)
      (Grammar.blockItems script (fuel + 1)) := by
  rw [blockItems, Grammar.blockItems]
  refine .lift fun token => ?_
  split
  · exact follows_pure rfl
  · exact follows_unexpected
  · refine .of_eq (do return (← Grammar.statement script fuel) :: (← Grammar.blockItems script fuel))
      (by simp only [*]) ?_
    refine (ih.statement _).bind fun first => ?_
    exact (ih.blockItems _).bind fun rest => follows_pure rfl

theorem optional_follows (closing : Symbol) (arena : Arena) :
    Follows (Expr.placeOption · arena) (optional script (fuel + 1) closing arena)
      (Grammar.optional script (fuel + 1) closing) := by
  rw [optional, Grammar.optional]
  refine .lift fun found => ?_
  cases found with
  | true => exact follows_pure rfl
  | false =>
    refine (ih.expression _).bind fun value => ?_
    exact .lift fun _ => follows_pure rfl

theorem declarations_follows (arena : Arena) :
    Follows (Stmt.place · arena) (declarations script (fuel + 1) arena)
      (Grammar.declarations script (fuel + 1)) := by
  have htail (offset : Nat) (name : String) (initial : Option Expr) :
      Follows (Stmt.place · arena)
        ((do
          let first ← add (.declare offset name (Expr.placeOption initial arena).1)
          if ← acceptSymbol .comma then
            let rest ← declarations script fuel
            add (.block offset [first, rest])
          else
            Grammar.endStatement
            return first : Builder Nat) (Expr.placeOption initial arena).2)
        (do
          if ← acceptSymbol .comma then
            let rest ← Grammar.declarations script fuel
            return .block offset [.declare offset name initial, rest]
          else
            Grammar.endStatement
            return .declare offset name initial) := by
    refine .add (.lift fun found => ?_)
    cases found with
    | true => exact (ih.declarations _).bind fun rest => follows_add rfl
    | false => exact .lift fun _ => follows_pure rfl
  rw [declarations, Grammar.declarations]
  refine .lift fun offset => ?_
  refine .lift fun name => ?_
  refine .lift fun found => ?_
  cases found with
  | true => exact (ih.expression arena).some.bind fun initial => htail offset name initial
  | false => exact htail offset name none

theorem statement_follows (arena : Arena) :
    Follows (Stmt.place · arena) (statement script (fuel + 1) arena)
      (Grammar.statement script (fuel + 1)) := by
  rw [statement, Grammar.statement]
  refine .lift fun offset => ?_
  refine .lift fun token => ?_
  split
  · exact (ih.block _).bind fun block => follows_pure rfl
  · exact .lift fun _ => ih.declarations _
  · exact .lift fun _ => ih.declarations _
  · exact .lift fun _ => ih.declarations _
  · refine .lift fun _ => ?_
    refine .lift fun _ => ?_
    refine (ih.expression _).bind fun test => ?_
    refine .lift fun _ => ?_
    refine (ih.statement _).bind fun yes => ?_
    refine .lift fun found => ?_
    cases found with
    | true => exact (ih.statement _).bind fun no => follows_add rfl
    | false => exact follows_add rfl
  · refine .lift fun _ => ?_
    refine .lift fun _ => ?_
    refine (ih.expression _).bind fun test => ?_
    refine .lift fun _ => ?_
    exact (ih.statement _).bind fun body => follows_add rfl
  · refine .lift fun _ => ?_
    refine (ih.block _).bind fun block => ?_
    refine .lift fun _ => ?_
    refine .lift fun _ => ?_
    refine (ih.expression _).bind fun test => ?_
    refine .lift fun _ => ?_
    exact .lift fun _ => follows_add rfl
  · refine .lift fun _ => ?_
    refine .lift fun _ => ?_
    refine (ih.statement _).bind fun initial => ?_
    refine (ih.optional _ _).bind fun test => ?_
    refine (ih.optional _ _).bind fun step => ?_
    exact (ih.statement _).bind fun body => follows_add rfl
  · refine .lift fun _ => ?_
    refine .lift fun token => ?_
    split
    · exact .lift fun _ => follows_add rfl
    · exact follows_add rfl
    · exact follows_add rfl
    · refine .of_eq (do
          let value ← Grammar.expression script fuel
          let _ ← acceptSymbol .semicolon
          return .giveBack offset (some value)) (by simp only [*]) ?_
      refine (ih.expression _).bind fun value => ?_
      exact .lift fun _ => follows_add rfl
  · refine .lift fun _ => ?_
    exact .lift fun _ => follows_add rfl
  · refine .lift fun _ => ?_
    exact .lift fun _ => follows_add rfl
  · refine .lift fun _ => ?_
    refine (ih.function _).bind fun literal => ?_
    dsimp only
    rw [Function.code_name]
    cases literal.name with
    | some name => exact .add (.add (follows_add rfl))
    | none => exact follows_refuseAt
  · exact .lift fun _ => follows_add rfl
  · next token _ _ _ _ _ _ _ _ _ _ _ _ _ =>
    cases hs : Grammar.startsExpression token with
    | true =>
      simp only [*]
      refine (ih.expression _).bind fun value => ?_
      exact .lift fun _ => follows_pure rfl
    | false => exact .of_eq (unexpected .statement) (by simp [*]) follows_unexpected
  · exact follows_unexpected

end Readers

-- Every reader is followed, with any fuel.
theorem followsAt (script : List Char) (fuel : Nat) : FollowsAt script fuel := by
  induction fuel with
  | zero =>
    exact ⟨fun _ => follows_spent, fun _ _ _ => follows_spent, fun _ => follows_spent,
      fun _ => follows_spent, fun _ _ => follows_spent, fun _ _ => follows_spent,
      fun _ => follows_spent, fun _ => follows_spent, fun _ => follows_spent,
      fun _ => follows_spent, fun _ => follows_spent, fun _ _ => follows_spent,
      fun _ => follows_spent⟩
  | succ fuel ih =>
    exact ⟨expression_follows ih, chain_follows ih, unary_follows ih, primary_follows ih,
      suffixes_follows ih, expressions_follows ih, entries_follows ih, function_follows ih,
      block_follows ih, blockItems_follows ih, statement_follows ih, optional_follows ih,
      declarations_follows ih⟩

theorem items_follows (script : List Char) (fuel : Nat) (arena : Arena) :
    Follows (Stmt.placeAll · arena) (items script fuel arena) (Grammar.items script fuel) := by
  induction fuel generalizing arena with
  | zero => exact follows_spent
  | succ fuel ih =>
    rw [items, Grammar.items]
    refine .lift fun token => ?_
    cases token with
    | none => exact follows_pure rfl
    | some token =>
      refine ((followsAt script fuel).statement _).bind fun first => ?_
      exact (ih _).bind fun rest => follows_pure rfl

theorem program_follows (script : List Char) (fuel : Nat) :
    Follows (fun value => (value.tree.root, value.tree.nodes)) (program script fuel [])
      (Grammar.program script fuel) := by
  refine .lift fun offset => ?_
  exact (items_follows script fuel []).bind fun body => follows_add rfl

theorem wholeExpression_follows (script : List Char) (fuel : Nat) :
    Follows (fun value => (value.tree.root, value.tree.nodes)) (wholeExpression script fuel [])
      (Grammar.wholeExpression script fuel) := by
  refine ((followsAt script fuel).expression []).bind fun value => ?_
  refine .lift fun _ => ?_
  exact .lift fun _ => follows_pure rfl

theorem run_tree {build : List Char → Nat → Builder Nat} {read : List Char → Nat → Parser α}
    {make : α → Tree} (h : ∀ script fuel,
      Follows (fun value => ((make value).root, (make value).nodes)) (build script fuel [])
        (read script fuel)) (script : List Char) :
    Grammar.run (fun text fuel => tree (build text fuel)) script =
      (Grammar.run read script).map make := by
  have hrun (fuel : Nat) (stream : Stream) : (tree (build script fuel)).run stream =
      ((read script fuel).run stream).map make := by
    change (build script fuel [] >>= fun result => pure (Tree.mk result.2 result.1)) stream = _
    rw [Parser.bind_apply, h script fuel stream, Parser.run]
    cases read script fuel stream <;> rfl
  unfold Grammar.run
  cases Stream.ofText script with
  | broken error => rfl
  | next lexeme rest =>
    simp only [hrun]
    cases Parser.run (read script _) _ <;> rfl
  | done offset =>
    simp only [hrun]
    cases Parser.run (read script _) _ <;> rfl

end Builder

namespace Tree

theorem read_statements (script : String) :
    Tree.read .statements script = (Program.read script).map Program.tree :=
  Builder.run_tree Builder.program_follows script.toList

theorem read_expression (script : String) :
    Tree.read .expression script = (Expr.read script).map Expr.tree :=
  Builder.run_tree Builder.wholeExpression_follows script.toList

end Tree

end ScriptEngine
