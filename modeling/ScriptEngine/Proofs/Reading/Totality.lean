import ScriptEngine.Fault
import ScriptEngine.Proofs.Reading.Settling
import ScriptEngine.Proofs.Reading.Turns

-- Reading comes to an end. With calls enough for the tokens that are left every reader settles, and
-- one that gives a value has moved past a token where its rule has one. Each reader is followed
-- once, along its calls, and the fuel that `run` gives is enough for all of them.

namespace ScriptEngine

namespace Grammar

open ScriptEngine.Parser

inductive Reader where
  | expression | links | unary | primary
  | suffixes (target : Expr)
  | expressions (closing : Symbol)
  | entries | parameters | pathTail | function | block | blockItems | statement
  | optional (closing : Symbol)
  | declarations | items

-- The calls from a reader to the first one that moves past a token.
@[grind] def Reader.depth : Reader → Nat
  | links | suffixes _ | entries | parameters | pathTail | primary | function | block
  | declarations => 1
  | unary => 2
  | expression => 3
  | expressions _ | optional _ | statement => 4
  | blockItems | items => 5

-- The reader settles, and where its rule has a token it has moved past one.
def Reader.Settles (script : List Char) (fuel : Nat) : Reader → Stream → Prop
  | expression, s => Parser.Settles script 1 s.length (Grammar.expression script fuel) s
  | links, s => Parser.Settles script 0 s.length (Grammar.links script fuel) s
  | unary, s => Parser.Settles script 1 s.length (Grammar.unary script fuel) s
  | primary, s => Parser.Settles script 1 s.length (Grammar.primary script fuel) s
  | suffixes target, s => Parser.Settles script 0 s.length (Grammar.suffixes script fuel target) s
  | expressions closing, s =>
    Parser.Settles script 0 s.length (Grammar.expressions script fuel closing) s
  | entries, s => Parser.Settles script 0 s.length (Grammar.entries script fuel) s
  | parameters, s => Parser.Settles script 0 s.length (Grammar.parameters fuel) s
  | pathTail, s => Parser.Settles script 0 s.length (Grammar.pathTail fuel) s
  | function, s => Parser.Settles script 1 s.length (Grammar.function script fuel) s
  | block, s => Parser.Settles script 1 s.length (Grammar.block script fuel) s
  | blockItems, s => Parser.Settles script 0 s.length (Grammar.blockItems script fuel) s
  | statement, s => Parser.Settles script 1 s.length (Grammar.statement script fuel) s
  | optional closing, s => Parser.Settles script 1 s.length (Grammar.optional script fuel closing) s
  | declarations, s => Parser.Settles script 1 s.length (Grammar.declarations script fuel) s
  | items, s => Parser.Settles script 0 s.length (Grammar.items script fuel) s

-- Eight calls for every token are enough.
def Reader.Total (script : List Char) (fuel : Nat) (reader : Reader) : Prop :=
  ∀ {s : Stream}, s.At script → 8 * s.length + reader.depth ≤ fuel →
    reader.Settles script fuel s

def TotalAt (script : List Char) (fuel : Nat) : Prop :=
  ∀ reader : Reader, reader.Total script fuel

section

variable {script : List Char} {fuel k n : Nat} {s : Stream}

theorem settles_endStatement (hs : s.At script) :
    Parser.Settles script 0 s.length endStatement s := by
  refine .peek ?_
  split
  · exact .pure hs (Nat.le_refl _)
  · exact (Parser.Settles.expectSymbol hs).mono (by omega)

-- A loop settles if its turn does and, behind a turn that moved on, the rest of the loop does.
theorem settles_loop {α : Type} {turn : Nat → Parser (Turn α)} (hadvances : Advances turn)
    (hturn : Parser.Settles script 0 s.length (turn fuel) s)
    (hrest : ∀ {t : Stream}, t.At script → t.length < s.length →
      Parser.Settles script 0 t.length (loop turn fuel) t) :
    Parser.Settles script 0 s.length (loop turn (fuel + 1)) s := by
  rw [loop]
  refine hturn.bind fun result t ht hst hl => ?_
  cases result with
  | last values => exact .pure hst hl
  | more value =>
    have hlt := hadvances ht
    exact (hrest hst hlt).bind fun _ u _ hsu hu => .pure hsu (by omega)

theorem settles_separated {α : Type} {closing : Symbol} {value : α} (hs : s.At script) :
    Parser.Settles script 0 s.length (separated closing value) s := by
  refine (Parser.Settles.atSymbol hs).bind fun last t _ hst hl => ?_
  cases last with
  | true => exact .pure hst hl
  | false => exact (Parser.Settles.expectSymbol hst).bind fun _ u _ hsu hu => .pure hsu (by omega)

theorem total_expression (ih : TotalAt script fuel) : Reader.expression.Total script (fuel + 1) := by
  intro s hs hfuel
  dsimp only [Reader.depth] at hfuel
  change Parser.Settles script 1 s.length (expression script (fuel + 1)) s
  rw [expression]
  have hu : Parser.Settles script 1 s.length (unary script fuel) s :=
    ih .unary hs (by grind)
  refine hu.bind fun first a _ ha hla => ?_
  have hl : Parser.Settles script 0 a.length (links script fuel) a := ih .links ha (by grind)
  refine hl.bind fun operands b _ hb hlb => ?_
  have hvalue : ∀ {t : Stream}, t.At script → t.length < b.length →
      Parser.Settles script 1 t.length (expression script fuel) t :=
    fun ht hlt => ih .expression ht (by grind)
  refine .here (.peek ?_)
  split
  · next ht =>
    refine .past hb ht fun hc hlc => ?_
    refine (hvalue hc hlc).bind fun yes d _ hd hld => ?_
    refine (Parser.Settles.expectSymbol hd).bind fun _ e _ he hle => ?_
    exact (hvalue he (by omega)).bind fun no t _ ht hlt => .pure ht (by omega)
  · next ht =>
    refine .past hb ht fun hc hlc => ?_
    exact (hvalue hc hlc).bind fun value t _ ht hlt => .pure ht (by omega)
  · next ht =>
    split
    · refine .past hb ht fun hc hlc => ?_
      exact (hvalue hc hlc).bind fun value t _ ht hlt => .pure ht (by omega)
    · exact .pure hb (by omega)
  · exact .pure hb (by omega)

theorem total_links (ih : TotalAt script fuel) : Reader.links.Total script (fuel + 1) := by
  intro s hs hfuel
  dsimp only [Reader.depth] at hfuel
  change Parser.Settles script 0 s.length (links script (fuel + 1)) s
  rw [links]
  refine .here (.peek ?_)
  split
  · next mark ht =>
    split
    · refine .past hs ht fun {a} ha hla => ?_
      have hu : Parser.Settles script 1 a.length (unary script fuel) a := ih .unary ha (by grind)
      refine hu.bind fun operand b _ hb hlb => ?_
      have hl : Parser.Settles script 0 b.length (links script fuel) b := ih .links hb (by grind)
      exact hl.bind fun operands t _ ht hlt => .pure ht (by omega)
    · exact .pure hs (Nat.le_refl _)
  · exact .pure hs (Nat.le_refl _)

theorem total_unary (ih : TotalAt script fuel) : Reader.unary.Total script (fuel + 1) := by
  intro s hs hfuel
  dsimp only [Reader.depth] at hfuel
  change Parser.Settles script 1 s.length (unary script (fuel + 1)) s
  rw [unary]
  have hoperand : ∀ {a : Stream} {next : Expr → Expr}, a.At script → a.length < s.length →
      Parser.Settles script 1 s.length (do return next (← unary script fuel)) a := by
    intro a next ha hla
    have hu : Parser.Settles script 1 a.length (unary script fuel) a := ih .unary ha (by grind)
    exact hu.bind fun operand t _ ht hlt => .pure ht (by omega)
  have htarget : ∀ {a : Stream} {next : Expr → Expr}, a.At script → a.length < s.length →
      Parser.Settles script 1 s.length (do return next (← primary script fuel)) a := by
    intro a next ha hla
    have hp : Parser.Settles script 1 a.length (primary script fuel) a := ih .primary ha (by grind)
    exact hp.bind fun target t _ ht hlt => .pure ht (by omega)
  refine .here (.peek ?_)
  split
  · next ht => exact .past hs ht hoperand
  · next ht => exact .past hs ht hoperand
  · next ht => exact .past hs ht htarget
  · next ht => exact .past hs ht htarget
  · next ht => exact .past hs ht hoperand
  · exact ih .primary hs (by grind)

theorem total_primary (ih : TotalAt script fuel) : Reader.primary.Total script (fuel + 1) := by
  intro s hs hfuel
  dsimp only [Reader.depth] at hfuel
  change Parser.Settles script 1 s.length (primary script (fuel + 1)) s
  rw [primary]
  have hsuffixes : ∀ {t : Stream} {target : Expr}, t.At script → t.length < s.length →
      Parser.Settles script 1 s.length (suffixes script fuel target) t := by
    intro t target ht hlt
    have hr : Parser.Settles script 0 t.length (suffixes script fuel target) t :=
      ih (.suffixes target) ht (by grind)
    exact hr.mono (by omega)
  have hexpressions : ∀ {a : Stream} {closing : Symbol}, a.At script → a.length < s.length →
      Parser.Settles script 0 a.length (expressions script fuel closing) a :=
    fun ha hla => ih (.expressions _) ha (by grind)
  refine .here (.peek ?_)
  split
  · next ht => exact .past hs ht hsuffixes
  · next ht => exact .past hs ht hsuffixes
  · next ht =>
    refine .past hs ht fun {a} ha hla => ?_
    have he : Parser.Settles script 1 a.length (expression script fuel) a :=
      ih .expression ha (by grind)
    refine he.bind fun inner b _ hb hlb => ?_
    exact (Parser.Settles.expectSymbol hb).bind fun _ c _ hc hlc => hsuffixes hc (by omega)
  · next ht =>
    refine .past hs ht fun {a} ha hla => ?_
    have he : Parser.Settles script 0 a.length (entries script fuel) a := ih .entries ha (by grind)
    refine he.bind fun pairs b _ hb hlb => ?_
    exact (Parser.Settles.expectSymbol hb).bind fun _ c _ hc hlc => hsuffixes hc (by omega)
  · next ht =>
    refine .past hs ht fun {a} ha hla => ?_
    refine (hexpressions ha hla).bind fun elements b _ hb hlb => ?_
    exact (Parser.Settles.expectSymbol hb).bind fun _ c _ hc hlc => hsuffixes hc (by omega)
  · next ht => exact .past hs ht hsuffixes
  · next ht => exact .past hs ht hsuffixes
  · next ht => exact .past hs ht hsuffixes
  · next ht => exact .past hs ht hsuffixes
  · next ht => exact .past hs ht hsuffixes
  · next ht => exact .past hs ht hsuffixes
  · next ht =>
    refine .past hs ht fun {a} ha hla => ?_
    have hf : Parser.Settles script 1 a.length (function script fuel) a :=
      ih .function ha (by grind)
    refine hf.bind fun literal b _ hb hlb => ?_
    split
    · exact .refuseAt hs.boundary
    · exact hsuffixes hb (by omega)
  · next ht =>
    refine .past hs ht fun {a} ha hla => ?_
    refine (Parser.Settles.identifier ha).bind fun name b _ hb hlb => ?_
    have hp : Parser.Settles script 0 b.length (pathTail fuel) b := ih .pathTail hb (by grind)
    refine hp.bind fun names c _ hc hlc => ?_
    refine (Parser.Settles.acceptSymbol hc).bind fun found d _ hd hld => ?_
    split
    · refine (hexpressions hd (by omega)).bind fun arguments e _ he hle => ?_
      exact (Parser.Settles.expectSymbol he).bind fun _ t _ ht hlt => hsuffixes ht (by omega)
    · exact hsuffixes hd (by omega)
  · exact .unexpected hs

theorem total_suffixes {target : Expr} (ih : TotalAt script fuel) :
    (Reader.suffixes target).Total script (fuel + 1) := by
  intro s hs hfuel
  dsimp only [Reader.depth] at hfuel
  change Parser.Settles script 0 s.length (suffixes script (fuel + 1) target) s
  rw [suffixes]
  have hsuffixes : ∀ {t : Stream} {target : Expr}, t.At script → t.length < s.length →
      Parser.Settles script 0 s.length (suffixes script fuel target) t := by
    intro t target ht hlt
    have hr : Parser.Settles script 0 t.length (suffixes script fuel target) t :=
      ih (.suffixes target) ht (by grind)
    exact hr.mono (by omega)
  refine .here (.peek ?_)
  split
  · next ht =>
    refine .past hs ht fun {a} ha hla => ?_
    exact (Parser.Settles.identifier ha).bind fun name b _ hb hlb => hsuffixes hb (by omega)
  · next ht =>
    refine .past hs ht fun {a} ha hla => ?_
    have he : Parser.Settles script 0 a.length (expressions script fuel .rightParen) a :=
      ih (.expressions _) ha (by grind)
    refine he.bind fun arguments b _ hb hlb => ?_
    exact (Parser.Settles.expectSymbol hb).bind fun _ c _ hc hlc => hsuffixes hc (by omega)
  · next ht =>
    refine .past hs ht fun {a} ha hla => ?_
    have he : Parser.Settles script 1 a.length (expression script fuel) a :=
      ih .expression ha (by grind)
    refine he.bind fun index b _ hb hlb => ?_
    exact (Parser.Settles.expectSymbol hb).bind fun _ c _ hc hlc => hsuffixes hc (by omega)
  · next ht => exact .past hs ht hsuffixes
  · next ht => exact .past hs ht hsuffixes
  · exact .pure hs (Nat.le_refl _)

theorem total_expressions {closing : Symbol} (ih : TotalAt script fuel) :
    (Reader.expressions closing).Total script (fuel + 1) := by
  intro s hs hfuel
  dsimp only [Reader.depth] at hfuel
  have hloop := congrFun (@expressions_eq_loop script closing)
  change Parser.Settles script 0 s.length (expressions script (fuel + 1) closing) s
  rw [hloop]
  refine settles_loop expressionTurn_advances ?_ fun ht hlt => ?_
  · refine (Parser.Settles.atSymbol hs).bind fun last a _ ha hla => ?_
    split
    · exact .pure ha hla
    · have he : Parser.Settles script 1 a.length (expression script fuel) a :=
        ih .expression ha (by grind)
      exact he.bind fun value b _ hb hlb => (settles_separated hb).mono (by omega)
  · rw [← hloop]
    exact ih (.expressions closing) ht (by grind)

theorem total_entries (ih : TotalAt script fuel) : Reader.entries.Total script (fuel + 1) := by
  intro s hs hfuel
  dsimp only [Reader.depth] at hfuel
  change Parser.Settles script 0 s.length (entries script (fuel + 1)) s
  rw [entries_eq_loop]
  have hentry : ∀ {token : Token} {key : String}, s.token? = some token →
      Parser.Settles script 0 s.length (do
        advance
        expectSymbol .colon
        let value ← expression script fuel
        separated .rightBrace (key, value)) s := by
    intro token key ht
    refine .past hs ht fun {a} ha hla => ?_
    refine (Parser.Settles.expectSymbol ha).bind fun _ b _ hb hlb => ?_
    have he : Parser.Settles script 1 b.length (expression script fuel) b :=
      ih .expression hb (by grind)
    exact he.bind fun value c _ hc hlc => (settles_separated hc).mono (by omega)
  refine settles_loop entryTurn_advances ?_ fun ht hlt => ?_
  · refine .peek ?_
    split
    · exact .pure hs (Nat.le_refl _)
    · next ht => exact hentry ht
    · next ht => exact hentry ht
    · exact .unexpected hs
  · rw [← entries_eq_loop]
    exact ih .entries ht (by grind)

theorem total_parameters (ih : TotalAt script fuel) :
    Reader.parameters.Total script (fuel + 1) := by
  intro s hs hfuel
  dsimp only [Reader.depth] at hfuel
  change Parser.Settles script 0 s.length (parameters (fuel + 1)) s
  rw [parameters_eq_loop]
  refine settles_loop parameterTurn_advances ?_ fun ht hlt => ?_
  · refine (Parser.Settles.atSymbol hs).bind fun last a _ ha hla => ?_
    split
    · exact .pure ha hla
    · exact (Parser.Settles.identifier ha).bind fun name b _ hb hlb =>
        (settles_separated hb).mono (by omega)
  · rw [← parameters_eq_loop]
    exact ih .parameters ht (by grind)

theorem total_pathTail (ih : TotalAt script fuel) : Reader.pathTail.Total script (fuel + 1) := by
  intro s hs hfuel
  dsimp only [Reader.depth] at hfuel
  change Parser.Settles script 0 s.length (pathTail (fuel + 1)) s
  rw [pathTail]
  refine (Parser.Settles.acceptSymbol hs).bind fun found a _ ha hla => ?_
  split
  · refine (Parser.Settles.identifier ha).bind fun name b _ hb hlb => ?_
    have hp : Parser.Settles script 0 b.length (pathTail fuel) b := ih .pathTail hb (by grind)
    exact hp.bind fun names t _ ht hlt => .pure ht (by omega)
  · exact .pure ha hla

theorem total_function (ih : TotalAt script fuel) : Reader.function.Total script (fuel + 1) := by
  intro s hs hfuel
  dsimp only [Reader.depth] at hfuel
  change Parser.Settles script 1 s.length (function script (fuel + 1)) s
  rw [function]
  have htail : ∀ {a : Stream} {name : Option String}, a.At script → a.length ≤ s.length →
      Parser.Settles script 1 s.length (do
        expectSymbol .leftParen
        let parameters ← parameters fuel
        expectSymbol .rightParen
        let block ← block script fuel
        return .mk name parameters block.offset block.body
          (String.ofList (Text.slice script s.offset block.stop)) : Parser Function) a := by
    intro a name ha hla
    refine (Parser.Settles.expectSymbol ha).bind fun _ b _ hb hlb => ?_
    have hp : Parser.Settles script 0 b.length (parameters fuel) b := ih .parameters hb (by grind)
    refine hp.bind fun names c _ hc hlc => ?_
    refine (Parser.Settles.expectSymbol hc).bind fun _ d _ hd hld => ?_
    have hbody : Parser.Settles script 1 d.length (block script fuel) d := ih .block hd (by grind)
    exact hbody.bind fun body t _ ht hlt => .pure ht (by omega)
  refine .here (.peek ?_)
  split
  · next ht => exact .past hs ht fun ha hla => htail ha (Nat.le_of_lt hla)
  · exact htail hs (Nat.le_refl _)

theorem total_block (ih : TotalAt script fuel) : Reader.block.Total script (fuel + 1) := by
  intro s hs hfuel
  dsimp only [Reader.depth] at hfuel
  change Parser.Settles script 1 s.length (block script (fuel + 1)) s
  rw [block]
  refine .here ((Parser.Settles.expectSymbol hs).bind fun _ a _ ha hla => ?_)
  have hi : Parser.Settles script 0 a.length (blockItems script fuel) a :=
    ih .blockItems ha (by grind)
  refine hi.bind fun body b _ hb hlb => .hereStop ?_
  exact (Parser.Settles.expectSymbol hb).bind fun _ t _ ht hlt => .pure ht (by omega)

theorem total_blockItems (ih : TotalAt script fuel) :
    Reader.blockItems.Total script (fuel + 1) := by
  intro s hs hfuel
  dsimp only [Reader.depth] at hfuel
  change Parser.Settles script 0 s.length (blockItems script (fuel + 1)) s
  rw [blockItems_eq_loop]
  refine settles_loop blockItemTurn_advances ?_ fun ht hlt => ?_
  · refine .peek ?_
    split
    · exact .pure hs (Nat.le_refl _)
    · exact .unexpected hs
    · have hv : Parser.Settles script 1 s.length (statement script fuel) s :=
        ih .statement hs (by grind)
      exact hv.bind fun value t _ ht hlt => .pure ht (by omega)
  · rw [← blockItems_eq_loop]
    exact ih .blockItems ht (by grind)

theorem total_items (ih : TotalAt script fuel) : Reader.items.Total script (fuel + 1) := by
  intro s hs hfuel
  dsimp only [Reader.depth] at hfuel
  change Parser.Settles script 0 s.length (items script (fuel + 1)) s
  rw [items_eq_loop]
  refine settles_loop itemTurn_advances ?_ fun ht hlt => ?_
  · refine .peek ?_
    split
    · exact .pure hs (Nat.le_refl _)
    · have hv : Parser.Settles script 1 s.length (statement script fuel) s :=
        ih .statement hs (by grind)
      exact hv.bind fun value t _ ht hlt => .pure ht (by omega)
  · rw [← items_eq_loop]
    exact ih .items ht (by grind)

theorem total_optional {closing : Symbol} (ih : TotalAt script fuel) :
    (Reader.optional closing).Total script (fuel + 1) := by
  intro s hs hfuel
  dsimp only [Reader.depth] at hfuel
  change Parser.Settles script 1 s.length (optional script (fuel + 1) closing) s
  rw [optional]
  refine (Parser.Settles.acceptSymbol hs).bind fun found a hfound ha hla => ?_
  obtain ⟨rfl, hp⟩ | ⟨rfl, -, rfl⟩ := acceptSymbol_eq_ok.mp hfound
  · exact .pure ha (by grind)
  · have he : Parser.Settles script 1 s.length (expression script fuel) s :=
      ih .expression hs (by grind)
    refine he.bind fun value b _ hb hlb => ?_
    exact (Parser.Settles.expectSymbol hb).bind fun _ t _ ht hlt => .pure ht (by omega)

theorem total_declarations (ih : TotalAt script fuel) :
    Reader.declarations.Total script (fuel + 1) := by
  intro s hs hfuel
  dsimp only [Reader.depth] at hfuel
  change Parser.Settles script 1 s.length (declarations script (fuel + 1)) s
  rw [declarations]
  have htail : ∀ {c : Stream} {name : String} {initial : Option Expr}, c.At script →
      c.length < s.length → Parser.Settles script 1 s.length (do
        if ← acceptSymbol .comma then
          let rest ← declarations script fuel
          return .block s.offset [.declare s.offset name initial, rest]
        else
          endStatement
          return .declare s.offset name initial : Parser Stmt) c := by
    intro c name initial hc hlc
    refine (Parser.Settles.acceptSymbol hc).bind fun more d _ hd hld => ?_
    split
    · have hr : Parser.Settles script 1 d.length (declarations script fuel) d :=
        ih .declarations hd (by grind)
      exact hr.bind fun others t _ ht hlt => .pure ht (by omega)
    · exact (settles_endStatement hd).bind fun _ t _ ht hlt => .pure ht (by omega)
  refine .here ((Parser.Settles.identifier hs).bind fun name a _ ha hla => ?_)
  refine (Parser.Settles.acceptSymbol ha).bind fun assigned b _ hb hlb => ?_
  split
  · have he : Parser.Settles script 1 b.length (expression script fuel) b :=
      ih .expression hb (by grind)
    have hv : Parser.Settles script 1 b.length (some <$> expression script fuel) b :=
      he.bind fun value c _ hc hlc => .pure hc hlc
    exact hv.bind fun initial c _ hc hlc => htail hc (by omega)
  · exact htail hb (by omega)

theorem total_statement (ih : TotalAt script fuel) : Reader.statement.Total script (fuel + 1) := by
  intro s hs hfuel
  dsimp only [Reader.depth] at hfuel
  change Parser.Settles script 1 s.length (statement script (fuel + 1)) s
  rw [statement]
  have hexpression : ∀ {a : Stream}, a.At script → a.length ≤ s.length →
      Parser.Settles script 1 a.length (expression script fuel) a :=
    fun ha hla => ih .expression ha (by grind)
  have hstatement : ∀ {a : Stream}, a.At script → a.length < s.length →
      Parser.Settles script 1 a.length (statement script fuel) a :=
    fun ha hla => ih .statement ha (by grind)
  have hoptional : ∀ {a : Stream} {closing : Symbol}, a.At script → a.length < s.length →
      Parser.Settles script 1 a.length (optional script fuel closing) a :=
    fun ha hla => ih (.optional _) ha (by grind)
  have hdeclarations : ∀ {a : Stream}, a.At script → a.length < s.length →
      Parser.Settles script 1 s.length (declarations script fuel) a := by
    intro a ha hla
    have hd : Parser.Settles script 1 a.length (declarations script fuel) a :=
      ih .declarations ha (by grind)
    exact hd.mono (by omega)
  refine .here (.peek ?_)
  split
  · have hb : Parser.Settles script 1 s.length (block script fuel) s := ih .block hs (by grind)
    exact hb.bind fun body t _ ht hlt => .pure ht (by omega)
  · next ht => exact .past hs ht hdeclarations
  · next ht => exact .past hs ht hdeclarations
  · next ht => exact .past hs ht hdeclarations
  · next ht =>
    refine .past hs ht fun {a} ha hla => ?_
    refine (Parser.Settles.expectSymbol ha).bind fun _ b _ hb hlb => ?_
    refine (hexpression hb (by omega)).bind fun test c _ hc hlc => ?_
    refine (Parser.Settles.expectSymbol hc).bind fun _ d _ hd hld => ?_
    refine (hstatement hd (by omega)).bind fun yes e _ he hle => ?_
    refine (Parser.Settles.acceptKeyword he).bind fun found f _ hf hlf => ?_
    split
    · exact (hstatement hf (by omega)).bind fun no t _ ht hlt => .pure ht (by omega)
    · exact .pure hf (by omega)
  · next ht =>
    refine .past hs ht fun {a} ha hla => ?_
    refine (Parser.Settles.expectSymbol ha).bind fun _ b _ hb hlb => ?_
    refine (hexpression hb (by omega)).bind fun test c _ hc hlc => ?_
    refine (Parser.Settles.expectSymbol hc).bind fun _ d _ hd hld => ?_
    exact (hstatement hd (by omega)).bind fun body t _ ht hlt => .pure ht (by omega)
  · next ht =>
    refine .past hs ht fun {a} ha hla => ?_
    have hbody : Parser.Settles script 1 a.length (block script fuel) a := ih .block ha (by grind)
    refine hbody.bind fun body b _ hb hlb => ?_
    refine (Parser.Settles.expectKeyword hb).bind fun _ c _ hc hlc => ?_
    refine (Parser.Settles.expectSymbol hc).bind fun _ d _ hd hld => ?_
    refine (hexpression hd (by omega)).bind fun test e _ he hle => ?_
    refine (Parser.Settles.expectSymbol he).bind fun _ f _ hf hlf => ?_
    exact (settles_endStatement hf).bind fun _ t _ ht hlt => .pure ht (by omega)
  · next ht =>
    refine .past hs ht fun {a} ha hla => ?_
    refine (Parser.Settles.expectSymbol ha).bind fun _ b _ hb hlb => ?_
    refine (hstatement hb (by omega)).bind fun initial c _ hc hlc => ?_
    refine (hoptional hc (by omega)).bind fun test d _ hd hld => ?_
    refine (hoptional hd (by omega)).bind fun step e _ he hle => ?_
    exact (hstatement he (by omega)).bind fun body t _ ht hlt => .pure ht (by omega)
  · next ht =>
    refine .past hs ht fun ha hla => .peek ?_
    split
    · next ht => exact .past ha ht fun hst hlt => .pure hst (by omega)
    · exact .pure ha (by omega)
    · exact .pure ha (by omega)
    · refine (hexpression ha (by omega)).bind fun value b _ hb hlb => ?_
      exact (Parser.Settles.acceptSymbol hb).bind fun _ t _ ht hlt => .pure ht (by omega)
  · next ht =>
    refine .past hs ht fun {a} ha hla => ?_
    exact (settles_endStatement ha).bind fun _ t _ ht hlt => .pure ht (by omega)
  · next ht =>
    refine .past hs ht fun {a} ha hla => ?_
    exact (settles_endStatement ha).bind fun _ t _ ht hlt => .pure ht (by omega)
  · next ht =>
    refine .past hs ht fun {a} ha hla => ?_
    have hf : Parser.Settles script 1 a.length (function script fuel) a :=
      ih .function ha (by grind)
    refine hf.bind fun literal b _ hb hlb => ?_
    split
    · exact .pure hb (by omega)
    · exact .refuseAt hs.boundary
  · next ht => exact .past hs ht fun ha hla => .pure ha (by omega)
  · split
    · refine (hexpression hs (Nat.le_refl _)).bind fun value a _ ha hla => ?_
      exact (settles_endStatement ha).bind fun _ t _ ht hlt => .pure ht (by omega)
    · exact .unexpected hs
  · exact .unexpected hs

theorem total (script : List Char) (fuel : Nat) : TotalAt script fuel := by
  induction fuel with
  | zero =>
    intro reader s _ hfuel
    cases reader <;> simp [Reader.depth] at hfuel
  | succ fuel ih =>
    intro reader
    cases reader with
    | expression => exact total_expression ih
    | links => exact total_links ih
    | unary => exact total_unary ih
    | primary => exact total_primary ih
    | suffixes _ => exact total_suffixes ih
    | expressions _ => exact total_expressions ih
    | entries => exact total_entries ih
    | parameters => exact total_parameters ih
    | pathTail => exact total_pathTail ih
    | function => exact total_function ih
    | block => exact total_block ih
    | blockItems => exact total_blockItems ih
    | statement => exact total_statement ih
    | optional _ => exact total_optional ih
    | declarations => exact total_declarations ih
    | items => exact total_items ih

theorem settles_program (hs : s.At script) (hfuel : 8 * (s.length + 1) ≤ fuel) :
    Parser.Settles script 0 s.length (program script fuel) s := by
  have hi : Parser.Settles script 0 s.length (items script fuel) s :=
    total script fuel .items hs (by grind)
  exact .here (hi.bind fun body t _ ht hlt => .pure ht hlt)

theorem settles_wholeExpression (hs : s.At script) (hfuel : 8 * (s.length + 1) ≤ fuel) :
    Parser.Settles script 0 s.length (wholeExpression script fuel) s := by
  have he : Parser.Settles script 1 s.length (expression script fuel) s :=
    total script fuel .expression hs (by grind)
  refine he.bind fun value a _ ha hla => ?_
  refine (Parser.Settles.acceptSymbol ha).bind fun found b _ hb hlb => ?_
  exact (Parser.Settles.expectEnd hb).bind fun _ t _ ht hlt => .pure ht (by omega)

-- Such a text is no script: there is a syntax error at a position of it.
structure Refused (script : String) (error : ParseError) : Prop where
  kind : (Error.ofParse script error).kind = .syntaxError
  position : String.Pos.Raw.IsValid script ⟨error.offset⟩
  inside : error.offset ≤ script.utf8ByteSize

theorem refused_of_boundary {script : String} {error : ParseError}
    (h : Text.Boundary script.toList error.offset) : Refused script error :=
  ⟨rfl, h.isValid, h.isValid.le_utf8ByteSize⟩

-- A reader that settles makes a value of the text or refuses it.
theorem run_total {α : Type} {reader : List Char → Nat → Parser α} {script : String}
    (h : Parser.Settles script.toList 0 (Stream.ofText script.toList).length
      (reader script.toList (8 * ((Stream.ofText script.toList).length + 1)))
      (Stream.ofText script.toList)) :
    (∃ value, run reader script.toList = .ok value) ∨
      ∃ error, run reader script.toList = .error error ∧ Refused script error := by
  have hplace := (@Stream.ofText_at script.toList).boundary
  unfold Parser.Settles at h
  unfold run
  split
  · next error hs =>
    rw [hs] at hplace
    exact .inr ⟨error, rfl, refused_of_boundary hplace⟩
  · generalize (reader script.toList _).run (Stream.ofText script.toList) = parsed at h ⊢
    cases parsed with
    | ok value t => exact .inl ⟨value, rfl⟩
    | refused error => exact .inr ⟨error, rfl, refused_of_boundary h⟩
    | spent => exact h.elim

-- Whenever the reader gives a value it has moved past a token.
def Progresses {α : Type} (parser : Parser α) : Prop :=
  ∀ {s t : Stream} {value : α}, parser.run s = .ok value t → t.length < s.length

theorem statement_progresses : Progresses (statement script fuel) :=
  fun h => (Gives.derives (.statement _) h).length_le

theorem expression_progresses : Progresses (expression script fuel) :=
  fun h => (Gives.derives (.expression _) h).length_le

end

end Grammar

open Grammar

-- Every text is a program or a syntax error at a position of it, and so for an expression. The fuel
-- is never spent, statements and expressions are more than no token, and the readers of lists are
-- loops in which every turn moves on.
theorem Program.read_total (script : String) :
    ((∃ program, Program.read script = .ok program) ∨
      ∃ error, Program.read script = .error error ∧ Refused script error) ∧
    ((∃ value, Expr.read script = .ok value) ∨
      ∃ error, Expr.read script = .error error ∧ Refused script error) ∧
    (∀ spare, let s := Stream.ofText script.toList
      (program script.toList (8 * (s.length + 1) + spare)).run s ≠ .spent ∧
      (wholeExpression script.toList (8 * (s.length + 1) + spare)).run s ≠ .spent) ∧
    (∀ fuel, Progresses (statement script.toList fuel) ∧
      Progresses (expression script.toList fuel)) ∧
    (∀ closing,
      (fun fuel => expressions script.toList fuel closing) =
        loop (expressionTurn script.toList closing) ∧
      Advances (expressionTurn script.toList closing)) ∧
    (parameters = loop parameterTurn ∧ Advances parameterTurn) ∧
    (entries script.toList = loop (entryTurn script.toList) ∧
      Advances (entryTurn script.toList)) ∧
    (blockItems script.toList = loop (blockItemTurn script.toList) ∧
      Advances (blockItemTurn script.toList)) ∧
    items script.toList = loop (itemTurn script.toList) ∧ Advances (itemTurn script.toList) := by
  have hplace := @Stream.ofText_at script.toList
  refine ⟨run_total (settles_program hplace (Nat.le_refl _)),
    run_total (settles_wholeExpression hplace (Nat.le_refl _)), fun spare => ⟨?_, ?_⟩,
    fun fuel => ⟨statement_progresses, expression_progresses⟩,
    fun closing => ⟨expressions_eq_loop, expressionTurn_advances⟩,
    ⟨parameters_eq_loop, parameterTurn_advances⟩, ⟨entries_eq_loop, entryTurn_advances⟩,
    ⟨blockItems_eq_loop, blockItemTurn_advances⟩, items_eq_loop, itemTurn_advances⟩
  · exact (settles_program hplace (Nat.le_add_right _ _)).ne_spent
  · exact (settles_wholeExpression hplace (Nat.le_add_right _ _)).ne_spent

end ScriptEngine
