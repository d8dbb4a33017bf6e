import ScriptEngine.Proofs.Reading.Joining

-- Reading without places. Which tree a reader comes to, or which fault, depends on the tokens alone:
-- with all offsets forgotten, two texts with the same tokens are read alike.

namespace ScriptEngine

-- What is read, up to places.
def Parsed.relabel {α β : Type} (r : Relabelling) (f : α → β) : Parsed α → Parsed β
  | ok value rest => ok (f value) (rest.relabel r)
  | refused error => refused ⟨error.fault, r.offset error.offset⟩
  | spent => spent

namespace Parser

variable {α β γ δ : Type}

-- On a stream without places the second reader does what the first one does, up to places.
def Erases (f : α → β) (reader : Parser α) (other : Parser β) : Prop :=
  ∀ stream : Stream, other (stream.relabel .erasing) = (reader stream).relabel .erasing f

section Erases

variable {f : α → β} {reader : Parser α} {other : Parser β}

theorem erases_pure {value : α} {result : β} (h : result = f value) :
    Erases f (pure value) (pure result) :=
  fun stream => congrArg (Parsed.ok · (stream.relabel .erasing)) h

theorem erases_spent : Erases f spent spent :=
  fun _ => rfl

theorem erases_refuseAt {offset : Nat} {fault : ParseFault} :
    Erases f (refuseAt offset fault) (refuseAt 0 fault) :=
  fun _ => rfl

theorem erases_unexpected {expected : Expected} :
    Erases f (unexpected expected) (unexpected expected) := by
  intro stream
  change Parsed.refused ⟨.unexpected (stream.relabel .erasing).token? expected,
    (stream.relabel .erasing).offset⟩ = _
  rw [Stream.token?_relabel, Stream.offset_relabel]
  rfl

-- One reader after another.
theorem Erases.bind {inner : γ → δ} {part : Parser γ} {part' : Parser δ} {next : γ → Parser α}
    {next' : δ → Parser β} (h : Erases inner part part')
    (hn : ∀ value, Erases f (next value) (next' (inner value))) :
    Erases f (part >>= next) (part' >>= next') := by
  intro stream
  rw [bind_apply, bind_apply, h stream]
  cases part stream with
  | ok value rest => exact hn value rest
  | refused error => rfl
  | spent => rfl

theorem Erases.map {inner : γ → δ} {part : Parser γ} {part' : Parser δ} {make : γ → α}
    {make' : δ → β} (h : Erases inner part part') (hm : ∀ value, make' (inner value) = f (make value)) :
    Erases f (make <$> part) (make' <$> part') :=
  h.bind fun value => erases_pure (hm value)

-- The offset at hand is forgotten.
theorem erases_here {next next' : Nat → _} (h : ∀ offset, Erases f (next offset) (next' 0)) :
    Erases f (here >>= next) (here >>= next') := by
  intro stream
  change next' (stream.relabel .erasing).offset _ = (next stream.offset stream).relabel _ f
  rw [Stream.offset_relabel]
  exact h stream.offset stream

theorem erases_hereStop {next next' : Nat → _} (h : ∀ offset, Erases f (next offset) (next' 0)) :
    Erases f (hereStop >>= next) (hereStop >>= next') := by
  intro stream
  change next' (stream.relabel .erasing).stop _ = (next stream.stop stream).relabel _ f
  rw [Stream.stop_relabel]
  exact h stream.stop stream

-- The token at hand is the same.
theorem erases_peek {next next' : Option Token → _} (h : ∀ token, Erases f (next token) (next' token)) :
    Erases f (peek >>= next) (peek >>= next') := by
  intro stream
  change next' (stream.relabel .erasing).token? _ = (next stream.token? stream).relabel _ f
  rw [Stream.token?_relabel]
  exact h stream.token? stream

-- A reader of tokens alone.
theorem Erases.same {part : Parser γ} {next : γ → Parser α} {next' : γ → Parser β}
    (h : Erases id part part) (hn : ∀ value, Erases f (next value) (next' value)) :
    Erases f (part >>= next) (part >>= next') :=
  h.bind hn

end Erases

section Tokens

theorem erases_advance : Erases id advance advance := by
  rintro (⟨lexeme, (_ | _ | _)⟩ | _ | _) <;> rfl

theorem erases_expectSymbol (mark : Symbol) : Erases id (expectSymbol mark) (expectSymbol mark) := by
  unfold expectSymbol
  refine erases_peek fun token => ?_
  split
  · split
    · exact erases_advance
    · exact erases_unexpected
  · exact erases_unexpected

theorem erases_expectKeyword (word : Keyword) :
    Erases id (expectKeyword word) (expectKeyword word) := by
  unfold expectKeyword
  refine erases_peek fun token => ?_
  split
  · split
    · exact erases_advance
    · exact erases_unexpected
  · exact erases_unexpected

theorem erases_expectEnd : Erases id expectEnd expectEnd := by
  unfold expectEnd
  refine erases_peek fun token => ?_
  split
  · exact erases_pure rfl
  · exact erases_unexpected

theorem erases_acceptSymbol (mark : Symbol) : Erases id (acceptSymbol mark) (acceptSymbol mark) := by
  unfold acceptSymbol
  refine erases_peek fun token => ?_
  split
  · split
    · exact erases_advance.same fun _ => erases_pure rfl
    · exact erases_pure rfl
  · exact erases_pure rfl

theorem erases_acceptKeyword (word : Keyword) :
    Erases id (acceptKeyword word) (acceptKeyword word) := by
  unfold acceptKeyword
  refine erases_peek fun token => ?_
  split
  · split
    · exact erases_advance.same fun _ => erases_pure rfl
    · exact erases_pure rfl
  · exact erases_pure rfl

theorem erases_atSymbol (mark : Symbol) : Erases id (atSymbol mark) (atSymbol mark) := by
  unfold atSymbol
  refine erases_peek fun token => ?_
  split <;> exact erases_pure rfl

theorem erases_identifier : Erases id identifier identifier := by
  unfold identifier
  refine erases_peek fun token => ?_
  split
  · exact erases_advance.same fun _ => erases_pure rfl
  · exact erases_unexpected

theorem erases_endStatement : Erases id Grammar.endStatement Grammar.endStatement := by
  unfold Grammar.endStatement
  refine erases_peek fun token => ?_
  split
  · exact erases_pure rfl
  · exact erases_expectSymbol _

theorem erases_parameters (fuel : Nat) :
    Erases id (Grammar.parameters fuel) (Grammar.parameters fuel) := by
  induction fuel with
  | zero => exact erases_spent
  | succ fuel ih =>
    unfold Grammar.parameters
    refine (erases_atSymbol _).same fun found => ?_
    cases found with
    | true => exact erases_pure rfl
    | false =>
      refine erases_identifier.same fun name => ?_
      refine (erases_atSymbol _).same fun found => ?_
      cases found with
      | true => exact erases_pure rfl
      | false =>
        refine (erases_expectSymbol _).same fun _ => ?_
        exact ih.same fun rest => erases_pure rfl

theorem erases_pathTail (fuel : Nat) : Erases id (Grammar.pathTail fuel) (Grammar.pathTail fuel) := by
  induction fuel with
  | zero => exact erases_spent
  | succ fuel ih =>
    unfold Grammar.pathTail
    refine (erases_acceptSymbol _).same fun found => ?_
    cases found with
    | true =>
      refine erases_identifier.same fun name => ?_
      exact ih.same fun rest => erases_pure rfl
    | false => exact erases_pure rfl

end Tokens

end Parser

namespace Grammar

open ScriptEngine.Parser

variable {script other : List Char} {fuel : Nat}

-- Readers with some fuel look at nothing but tokens, whatever the texts are.
structure ErasesAt (script other : List Char) (fuel : Nat) : Prop where
  expression : Erases (Expr.relabel .erasing) (expression script fuel) (expression other fuel)
  links : Erases (List.map (Link.relabel .erasing)) (links script fuel) (links other fuel)
  unary : Erases (Expr.relabel .erasing) (unary script fuel) (unary other fuel)
  primary : Erases (Expr.relabel .erasing) (primary script fuel) (primary other fuel)
  suffixes (target : Expr) : Erases (Expr.relabel .erasing) (suffixes script fuel target)
    (suffixes other fuel (target.relabel .erasing))
  expressions (closing : Symbol) : Erases (Expr.relabelAll .erasing)
    (expressions script fuel closing) (expressions other fuel closing)
  entries : Erases (Expr.relabelEntries .erasing) (entries script fuel) (entries other fuel)
  function : Erases (Function.relabel .erasing) (function script fuel) (function other fuel)
  block : Erases (Block.relabel .erasing) (block script fuel) (block other fuel)
  blockItems : Erases (Stmt.relabelAll .erasing) (blockItems script fuel) (blockItems other fuel)
  statement : Erases (Stmt.relabel .erasing) (statement script fuel) (statement other fuel)
  optional (closing : Symbol) : Erases (Option.map (Expr.relabel .erasing))
    (optional script fuel closing) (optional other fuel closing)
  declarations : Erases (Stmt.relabel .erasing) (declarations script fuel)
    (declarations other fuel)

section Readers

variable (ih : ErasesAt script other fuel)
include ih

theorem expression_erases : Erases (Expr.relabel .erasing) (expression script (fuel + 1))
    (expression other (fuel + 1)) := by
  rw [expression, expression]
  refine ih.unary.bind fun first => ?_
  refine ih.links.bind fun links => ?_
  refine erases_here fun offset => ?_
  refine erases_peek fun token => ?_
  have hleft : Chain.group ⟨first.relabel .erasing, links.map (Link.relabel .erasing)⟩ =
      (Chain.group ⟨first, links⟩).relabel .erasing := (Chain.group_relabel ⟨first, links⟩).symm
  rw [hleft]
  split
  · refine erases_advance.same fun _ => ?_
    refine ih.expression.bind fun yes => ?_
    refine (erases_expectSymbol _).same fun _ => ?_
    exact ih.expression.bind fun no => erases_pure rfl
  · refine erases_advance.same fun _ => ?_
    exact ih.expression.bind fun value => erases_pure rfl
  · next mark _ _ =>
    cases BinaryOp.ofAssignment? mark with
    | some operator =>
      refine erases_advance.same fun _ => ?_
      exact ih.expression.bind fun value => erases_pure rfl
    | none => exact erases_pure rfl
  · exact erases_pure rfl

theorem links_erases : Erases (List.map (Link.relabel .erasing)) (links script (fuel + 1))
    (links other (fuel + 1)) := by
  rw [links, links]
  refine erases_here fun offset => ?_
  refine erases_peek fun token => ?_
  split
  · next mark =>
    cases ChainOp.ofSymbol? mark with
    | some operator =>
      refine erases_advance.same fun _ => ?_
      refine ih.unary.bind fun operand => ?_
      exact ih.links.bind fun rest => erases_pure rfl
    | none => exact erases_pure rfl
  · exact erases_pure rfl

theorem unary_erases : Erases (Expr.relabel .erasing) (unary script (fuel + 1))
    (unary other (fuel + 1)) := by
  rw [unary, unary]
  refine erases_here fun offset => ?_
  refine erases_peek fun token => ?_
  split
  · refine erases_advance.same fun _ => ?_
    exact ih.unary.bind fun operand => erases_pure rfl
  · refine erases_advance.same fun _ => ?_
    exact ih.unary.bind fun operand => erases_pure rfl
  · refine erases_advance.same fun _ => ?_
    exact ih.primary.bind fun target => erases_pure rfl
  · refine erases_advance.same fun _ => ?_
    exact ih.primary.bind fun target => erases_pure rfl
  · refine erases_advance.same fun _ => ?_
    exact ih.unary.bind fun operand => erases_pure rfl
  · exact ih.primary

theorem primary_erases : Erases (Expr.relabel .erasing) (primary script (fuel + 1))
    (primary other (fuel + 1)) := by
  rw [primary, primary]
  refine erases_here fun offset => ?_
  refine erases_peek fun token => ?_
  split
  · exact erases_advance.same fun _ => ih.suffixes (.identifier offset _)
  · exact erases_advance.same fun _ => ih.suffixes (.literal offset _)
  · refine erases_advance.same fun _ => ?_
    refine ih.expression.bind fun inner => ?_
    exact (erases_expectSymbol _).same fun _ => ih.suffixes inner
  · refine erases_advance.same fun _ => ?_
    refine ih.entries.bind fun entries => ?_
    exact (erases_expectSymbol _).same fun _ => ih.suffixes (.object offset entries)
  · refine erases_advance.same fun _ => ?_
    refine (ih.expressions _).bind fun elements => ?_
    exact (erases_expectSymbol _).same fun _ => ih.suffixes (.array offset elements)
  · exact erases_advance.same fun _ => ih.suffixes (.literal offset _)
  · exact erases_advance.same fun _ => ih.suffixes (.literal offset _)
  · exact erases_advance.same fun _ => ih.suffixes (.literal offset _)
  · exact erases_advance.same fun _ => ih.suffixes (.literal offset _)
  · exact erases_advance.same fun _ => ih.suffixes (.literal offset _)
  · exact erases_advance.same fun _ => ih.suffixes (.receiver offset)
  · refine erases_advance.same fun _ => ?_
    refine ih.function.bind fun literal => ?_
    rw [Function.relabel_name]
    cases literal.name with
    | some name => exact erases_refuseAt
    | none => exact ih.suffixes (.function offset literal)
  · refine erases_advance.same fun _ => ?_
    refine erases_identifier.same fun first => ?_
    refine (erases_pathTail _).same fun path => ?_
    refine (erases_acceptSymbol _).same fun found => ?_
    cases found with
    | true =>
      refine (ih.expressions _).bind fun arguments => ?_
      exact (erases_expectSymbol _).same fun _ => ih.suffixes (.construct offset _ arguments)
    | false => exact ih.suffixes (.construct offset _ [])
  · exact erases_unexpected

theorem suffixes_erases (target : Expr) : Erases (Expr.relabel .erasing)
    (suffixes script (fuel + 1) target) (suffixes other (fuel + 1) (target.relabel .erasing)) := by
  rw [suffixes, suffixes]
  refine erases_here fun offset => ?_
  refine erases_peek fun token => ?_
  split
  · refine erases_advance.same fun _ => ?_
    exact erases_identifier.same fun name => ih.suffixes (.dot offset target name)
  · refine erases_advance.same fun _ => ?_
    refine (ih.expressions _).bind fun arguments => ?_
    exact (erases_expectSymbol _).same fun _ => ih.suffixes (.call offset target arguments)
  · refine erases_advance.same fun _ => ?_
    refine ih.expression.bind fun index => ?_
    exact (erases_expectSymbol _).same fun _ => ih.suffixes (.subscript offset target index)
  · exact erases_advance.same fun _ => ih.suffixes (increment offset _ target true)
  · exact erases_advance.same fun _ => ih.suffixes (increment offset _ target true)
  · exact erases_pure rfl

theorem expressions_erases (closing : Symbol) : Erases (Expr.relabelAll .erasing)
    (expressions script (fuel + 1) closing) (expressions other (fuel + 1) closing) := by
  rw [expressions, expressions]
  refine (erases_atSymbol _).same fun found => ?_
  cases found with
  | true => exact erases_pure rfl
  | false =>
    refine ih.expression.bind fun first => ?_
    refine (erases_atSymbol _).same fun found => ?_
    cases found with
    | true => exact erases_pure rfl
    | false =>
      refine (erases_expectSymbol _).same fun _ => ?_
      exact (ih.expressions closing).bind fun rest => erases_pure rfl

theorem entries_erases : Erases (Expr.relabelEntries .erasing) (entries script (fuel + 1))
    (entries other (fuel + 1)) := by
  -- What follows a key is the same for both kinds of keys.
  have hentry (key : String) : Erases (Expr.relabelEntries .erasing)
      (do
        advance
        expectSymbol .colon
        let value ← expression script fuel
        if ← atSymbol .rightBrace then
          return [(key, value)]
        else
          expectSymbol .comma
          return (key, value) :: (← entries script fuel))
      (do
        advance
        expectSymbol .colon
        let value ← expression other fuel
        if ← atSymbol .rightBrace then
          return [(key, value)]
        else
          expectSymbol .comma
          return (key, value) :: (← entries other fuel)) := by
    refine erases_advance.same fun _ => ?_
    refine (erases_expectSymbol _).same fun _ => ?_
    refine ih.expression.bind fun value => ?_
    refine (erases_atSymbol _).same fun found => ?_
    cases found with
    | true => exact erases_pure rfl
    | false =>
      refine (erases_expectSymbol _).same fun _ => ?_
      exact ih.entries.bind fun rest => erases_pure rfl
  rw [entries, entries]
  refine erases_peek fun token => ?_
  split
  · exact erases_pure rfl
  · exact hentry _
  · exact hentry _
  · exact erases_unexpected

-- What follows the name of a function, with or without one.
theorem functionTail_erases (start : Nat) (name : Option String) :
    Erases (Function.relabel .erasing)
      (do
        expectSymbol .leftParen
        let parameters ← parameters fuel
        expectSymbol .rightParen
        let block ← block script fuel
        return .mk name parameters block.offset block.body
          (String.ofList (Text.slice script start block.stop)))
      (do
        expectSymbol .leftParen
        let parameters ← parameters fuel
        expectSymbol .rightParen
        let block ← block other fuel
        return .mk name parameters block.offset block.body
          (String.ofList (Text.slice other 0 block.stop))) := by
  refine (erases_expectSymbol _).same fun _ => ?_
  refine (erases_parameters _).same fun parameters => ?_
  refine (erases_expectSymbol _).same fun _ => ?_
  refine ih.block.bind fun block => erases_pure ?_
  have hsource : String.ofList (Text.slice other 0 0) = "" := by
    rw [Text.slice, Text.takeBytes, String.ofList_nil]
  exact congrArg (Function.mk name parameters 0 (Stmt.relabelAll .erasing block.body)) hsource

theorem function_erases : Erases (Function.relabel .erasing) (function script (fuel + 1))
    (function other (fuel + 1)) := by
  rw [function, function]
  refine erases_here fun start => ?_
  refine erases_peek fun token => ?_
  split
  · exact erases_advance.same fun _ => functionTail_erases ih start (some _)
  · exact functionTail_erases ih start none

theorem block_erases : Erases (Block.relabel .erasing) (block script (fuel + 1))
    (block other (fuel + 1)) := by
  rw [block, block]
  refine erases_here fun offset => ?_
  refine (erases_expectSymbol _).same fun _ => ?_
  refine ih.blockItems.bind fun body => ?_
  refine erases_hereStop fun stop => ?_
  exact (erases_expectSymbol _).same fun _ => erases_pure rfl

theorem blockItems_erases : Erases (Stmt.relabelAll .erasing) (blockItems script (fuel + 1))
    (blockItems other (fuel + 1)) := by
  rw [blockItems, blockItems]
  refine erases_peek fun token => ?_
  split
  · exact erases_pure rfl
  · exact erases_unexpected
  · refine ih.statement.bind fun first => ?_
    exact ih.blockItems.bind fun rest => erases_pure rfl

theorem optional_erases (closing : Symbol) : Erases (Option.map (Expr.relabel .erasing))
    (optional script (fuel + 1) closing) (optional other (fuel + 1) closing) := by
  rw [optional, optional]
  refine (erases_acceptSymbol _).same fun found => ?_
  cases found with
  | true => exact erases_pure rfl
  | false =>
    refine ih.expression.bind fun value => ?_
    exact (erases_expectSymbol _).same fun _ => erases_pure rfl

-- What follows the value of a declared name, or the name alone.
theorem declarationTail_erases (offset : Nat) (name : String) (initial : Option Expr) :
    Erases (Stmt.relabel .erasing)
      (do
        if ← acceptSymbol .comma then
          let rest ← declarations script fuel
          return .block offset [.declare offset name initial, rest]
        else
          endStatement
          return .declare offset name initial)
      (do
        if ← acceptSymbol .comma then
          let rest ← declarations other fuel
          return .block 0 [.declare 0 name (initial.map (Expr.relabel .erasing)), rest]
        else
          endStatement
          return .declare 0 name (initial.map (Expr.relabel .erasing))) := by
  have hdeclare : Stmt.declare 0 name (initial.map (Expr.relabel .erasing)) =
      (Stmt.declare offset name initial).relabel .erasing := by
    cases initial <;> rfl
  rw [hdeclare]
  refine (erases_acceptSymbol _).same fun found => ?_
  cases found with
  | true => exact ih.declarations.bind fun rest => erases_pure rfl
  | false => exact erases_endStatement.same fun _ => erases_pure rfl

theorem declarations_erases : Erases (Stmt.relabel .erasing) (declarations script (fuel + 1))
    (declarations other (fuel + 1)) := by
  rw [declarations, declarations]
  refine erases_here fun offset => ?_
  refine erases_identifier.same fun name => ?_
  refine (erases_acceptSymbol _).same fun found => ?_
  cases found with
  | true =>
    have hinitial : Erases (Option.map (Expr.relabel .erasing)) (some <$> expression script fuel)
        (some <$> expression other fuel) := ih.expression.map fun _ => rfl
    exact hinitial.bind fun initial => declarationTail_erases ih offset name initial
  | false => exact declarationTail_erases ih offset name none

theorem statement_erases : Erases (Stmt.relabel .erasing) (statement script (fuel + 1))
    (statement other (fuel + 1)) := by
  rw [statement, statement]
  refine erases_here fun offset => ?_
  refine erases_peek fun token => ?_
  split
  · exact ih.block.bind fun block => erases_pure rfl
  · exact erases_advance.same fun _ => ih.declarations
  · exact erases_advance.same fun _ => ih.declarations
  · exact erases_advance.same fun _ => ih.declarations
  · refine erases_advance.same fun _ => ?_
    refine (erases_expectSymbol _).same fun _ => ?_
    refine ih.expression.bind fun test => ?_
    refine (erases_expectSymbol _).same fun _ => ?_
    refine ih.statement.bind fun yes => ?_
    refine (erases_acceptKeyword _).same fun found => ?_
    cases found with
    | true => exact ih.statement.bind fun no => erases_pure rfl
    | false => exact erases_pure rfl
  · refine erases_advance.same fun _ => ?_
    refine (erases_expectSymbol _).same fun _ => ?_
    refine ih.expression.bind fun test => ?_
    refine (erases_expectSymbol _).same fun _ => ?_
    exact ih.statement.bind fun body => erases_pure rfl
  · refine erases_advance.same fun _ => ?_
    refine ih.block.bind fun block => ?_
    refine (erases_expectKeyword _).same fun _ => ?_
    refine (erases_expectSymbol _).same fun _ => ?_
    refine ih.expression.bind fun test => ?_
    refine (erases_expectSymbol _).same fun _ => ?_
    exact erases_endStatement.same fun _ => erases_pure rfl
  · refine erases_advance.same fun _ => ?_
    refine (erases_expectSymbol _).same fun _ => ?_
    refine ih.statement.bind fun initial => ?_
    refine (ih.optional _).bind fun test => ?_
    refine (ih.optional _).bind fun step => ?_
    refine ih.statement.bind fun body => erases_pure ?_
    rw [Stmt.relabel_loop]
    rfl
  · refine erases_advance.same fun _ => ?_
    refine erases_peek fun token => ?_
    split
    · exact erases_advance.same fun _ => erases_pure rfl
    · exact erases_pure rfl
    · exact erases_pure rfl
    · refine ih.expression.bind fun value => ?_
      exact (erases_acceptSymbol _).same fun _ => erases_pure rfl
  · refine erases_advance.same fun _ => ?_
    exact erases_endStatement.same fun _ => erases_pure rfl
  · refine erases_advance.same fun _ => ?_
    exact erases_endStatement.same fun _ => erases_pure rfl
  · refine erases_advance.same fun _ => ?_
    refine ih.function.bind fun literal => ?_
    rw [Function.relabel_name]
    cases literal.name with
    | some name => exact erases_pure rfl
    | none => exact erases_refuseAt
  · exact erases_advance.same fun _ => erases_pure rfl
  · next token _ _ _ _ _ _ _ _ _ _ _ _ _ =>
    cases startsExpression token with
    | true =>
      refine ih.expression.bind fun value => ?_
      exact erases_endStatement.same fun _ => erases_pure rfl
    | false => exact erases_unexpected
  · exact erases_unexpected

end Readers

theorem erasesAt (script other : List Char) (fuel : Nat) : ErasesAt script other fuel := by
  induction fuel with
  | zero =>
    exact ⟨erases_spent, erases_spent, erases_spent, erases_spent, fun _ => erases_spent,
      fun _ => erases_spent, erases_spent, erases_spent, erases_spent, erases_spent, erases_spent,
      fun _ => erases_spent, erases_spent⟩
  | succ fuel ih =>
    exact ⟨expression_erases ih, links_erases ih, unary_erases ih, primary_erases ih,
      suffixes_erases ih, expressions_erases ih, entries_erases ih, function_erases ih,
      block_erases ih, blockItems_erases ih, statement_erases ih, optional_erases ih,
      declarations_erases ih⟩

theorem items_erases (script other : List Char) (fuel : Nat) :
    Erases (Stmt.relabelAll .erasing) (items script fuel) (items other fuel) := by
  induction fuel with
  | zero => exact erases_spent
  | succ fuel ih =>
    rw [items, items]
    refine erases_peek fun token => ?_
    cases token with
    | none => exact erases_pure rfl
    | some token =>
      refine (erasesAt script other fuel).statement.bind fun first => ?_
      exact ih.bind fun rest => erases_pure rfl

theorem program_erases (script other : List Char) (fuel : Nat) :
    Erases (Program.relabel .erasing) (program script fuel) (program other fuel) := by
  refine erases_here fun offset => ?_
  exact (items_erases script other fuel).bind fun body => erases_pure rfl

theorem wholeExpression_erases (script other : List Char) (fuel : Nat) :
    Erases (Expr.relabel .erasing) (wholeExpression script fuel) (wholeExpression other fuel) := by
  refine (erasesAt script other fuel).expression.bind fun value => ?_
  refine (erases_acceptSymbol _).same fun _ => ?_
  exact erases_expectEnd.same fun _ => erases_pure rfl

theorem length_relabel (r : Relabelling) (stream : Stream) :
    (stream.relabel r).length = stream.length := by
  induction stream with
  | next lexeme rest ih => exact congrArg (· + 1) ih
  | done | broken => rfl

section Run

variable {α : Type} {f : α → α}

-- A tree up to places, or the fault alone.
def placeless (f : α → α) (result : Except ParseError α) : Except ParseFault α :=
  (result.map f).mapError ParseError.fault

-- What a reader comes to on the tokens of a text.
def outcome : Parsed α → Except ParseError α
  | .ok value _ => .ok value
  | .refused error => .error error
  | .spent => .error ⟨.unexpected none .endOfInput, 0⟩

def runOn (reader : Nat → Parser α) : Stream → Except ParseError α
  | .broken error => .error error
  | stream => outcome ((reader (8 * (stream.length + 1))).run stream)

theorem run_eq (reader : List Char → Nat → Parser α) (script : List Char) :
    run reader script = runOn (reader script) (Stream.ofText script) := by
  unfold run
  cases Stream.ofText script <;> rfl

theorem placeless_outcome (parsed : Parsed α) :
    placeless f (outcome parsed) = placeless id (outcome (parsed.relabel .erasing f)) := by
  cases parsed <;> rfl

theorem placeless_runOn {reader other : Nat → Parser α} (h : ∀ fuel, Erases f (reader fuel) (other fuel))
    (stream : Stream) :
    placeless f (runOn reader stream) = placeless id (runOn other (stream.relabel .erasing)) := by
  have hrun (fuel : Nat) : (other fuel).run (stream.relabel .erasing) =
      ((reader fuel).run stream).relabel .erasing f := h fuel stream
  have hlength := length_relabel .erasing stream
  cases stream with
  | broken error => rfl
  | done | next =>
    rw [runOn, placeless_outcome, ← hrun, ← hlength]
    · rfl
    · rintro error ⟨⟩

-- Texts with the same tokens are read alike.
theorem placeless_run {reader : List Char → Nat → Parser α}
    (h : ∀ script other fuel, Erases f (reader script fuel) (reader other fuel))
    {script other : List Char}
    (hs : (Stream.ofText script).relabel .erasing = (Stream.ofText other).relabel .erasing) :
    placeless f (run reader script) = placeless f (run reader other) := by
  rw [run_eq, run_eq, placeless_runOn (h script script), hs, ← placeless_runOn (h other script)]

end Run

end Grammar

end ScriptEngine
