import ScriptEngine.Proofs.Reading.Derivation

-- What the readers give can be derived. The fuel bounds the depth of the calls, so the proof is an
-- induction on it: each reader is taken apart once, and the readers that it calls have less fuel.

namespace ScriptEngine.Grammar

open ScriptEngine.Parser

-- The reader of the phrase, with some fuel, gives the value of the phrase.
def Gives (script : List Char) (fuel : Nat) : Phrase → Stream → Stream → Prop
  | .expression value, s, t => (expression script fuel).run s = .ok value t
  | .links operands, s, t => (links script fuel).run s = .ok operands t
  | .unary value, s, t => (unary script fuel).run s = .ok value t
  | .primary value, s, t => (primary script fuel).run s = .ok value t
  | .suffixes target value, s, t => (suffixes script fuel target).run s = .ok value t
  | .expressions closing values, s, t => (expressions script fuel closing).run s = .ok values t
  | .entries pairs, s, t => (entries script fuel).run s = .ok pairs t
  | .parameters names, s, t => (parameters fuel).run s = .ok names t
  | .pathTail names, s, t => (pathTail fuel).run s = .ok names t
  | .function literal, s, t => (function script fuel).run s = .ok literal t
  | .block body, s, t => (block script fuel).run s = .ok body t
  | .blockItems body, s, t => (blockItems script fuel).run s = .ok body t
  | .statement value, s, t => (statement script fuel).run s = .ok value t
  | .optional closing value, s, t => (optional script fuel closing).run s = .ok value t
  | .declarations value, s, t => (declarations script fuel).run s = .ok value t
  | .items body, s, t => (items script fuel).run s = .ok body t

theorem endStatement_eq_ok {s t : Stream} {u : Unit} :
    endStatement.run s = .ok u t ↔ s.Closes t := by
  rw [endStatement, run_peek_bind]
  split
  · next ht =>
    have hn : ¬ s.Passes (.symbol .semicolon) t := by
      intro h
      rw [h.token?] at ht
      cases ht
    simp [Stream.Closes, ht, hn, eq_comm]
  · next token ht => simp [Stream.Closes, ht, expectSymbol_eq_ok]

def SoundAt (script : List Char) (fuel : Nat) : Prop :=
  ∀ (phrase : Phrase) {s t : Stream}, Gives script fuel phrase s t → Derives script phrase s t

section

variable {script : List Char} {fuel : Nat} {s t : Stream}

theorem expression_sound {value : Expr} (ih : SoundAt script fuel)
    (h : (expression script (fuel + 1)).run s = .ok value t) :
    Derives script (.expression value) s t := by
  rw [expression] at h
  simp only [bind_eq_ok, run_here_bind, run_peek_bind] at h
  obtain ⟨first, a, hf, operands, b, hl, h⟩ := h
  replace hf := ih (.unary _) hf
  replace hl := ih (.links _) hl
  split at h
  · next ht =>
    simp only [bind_eq_ok, advance_eq_ok ht, expectSymbol_eq_ok, run_pure, Parsed.ok.injEq] at h
    obtain ⟨-, c, hq, yes, d, hy, -, e, hc, no, _, hn, rfl, rfl⟩ := h
    exact .ternary hf hl hq (ih (.expression _) hy) hc (ih (.expression _) hn)
  · next ht =>
    simp only [bind_eq_ok, advance_eq_ok ht, run_pure, Parsed.ok.injEq] at h
    obtain ⟨-, c, hq, value, _, hv, rfl, rfl⟩ := h
    exact .assign hf hl hq (ih (.expression _) hv)
  · next mark hm hm' ht =>
    split at h
    · next operator ho =>
      simp only [bind_eq_ok, advance_eq_ok ht, run_pure, Parsed.ok.injEq] at h
      obtain ⟨-, c, hq, value, _, hv, rfl, rfl⟩ := h
      exact .update hf hl hq ho (ih (.expression _) hv)
    · next ho =>
      simp only [run_pure, Parsed.ok.injEq] at h
      obtain ⟨rfl, rfl⟩ := h
      refine .chain hf hl ?_
      rw [ht, endsChain, ho]
      · rfl
      · exact fun he => hm (by cases he; rfl)
      · exact fun he => hm' (by cases he; rfl)
  · next hm =>
    simp only [run_pure, Parsed.ok.injEq] at h
    obtain ⟨rfl, rfl⟩ := h
    refine .chain hf hl ?_
    unfold endsChain
    split <;> simp_all

theorem links_sound {operands : List Link} (ih : SoundAt script fuel)
    (h : (links script (fuel + 1)).run s = .ok operands t) :
    Derives script (.links operands) s t := by
  rw [links] at h
  simp only [run_here_bind, run_peek_bind] at h
  split at h
  · next mark ht =>
    split at h
    · next operator ho =>
      simp only [bind_eq_ok, advance_eq_ok ht, run_pure, Parsed.ok.injEq] at h
      obtain ⟨-, a, hp, operand, b, hu, operands, _, hl, rfl, rfl⟩ := h
      exact .link hp ho (ih (.unary _) hu) (ih (.links _) hl)
    · next ho =>
      simp only [run_pure, Parsed.ok.injEq] at h
      obtain ⟨rfl, rfl⟩ := h
      exact .noLinks (by simp [ht, endsLinks, ho])
  · next ht =>
    simp only [run_pure, Parsed.ok.injEq] at h
    obtain ⟨rfl, rfl⟩ := h
    refine .noLinks ?_
    unfold endsLinks
    split <;> simp_all

theorem unary_sound {value : Expr} (ih : SoundAt script fuel)
    (h : (unary script (fuel + 1)).run s = .ok value t) : Derives script (.unary value) s t := by
  rw [unary] at h
  simp only [run_here_bind, run_peek_bind] at h
  split at h
  · next ht =>
    simp only [bind_eq_ok, advance_eq_ok ht, run_pure, Parsed.ok.injEq] at h
    obtain ⟨-, a, hp, operand, _, hu, rfl, rfl⟩ := h
    exact .signed .minus hp (ih (.unary _) hu)
  · next ht =>
    simp only [bind_eq_ok, advance_eq_ok ht, run_pure, Parsed.ok.injEq] at h
    obtain ⟨-, a, hp, operand, _, hu, rfl, rfl⟩ := h
    exact .signed .bang hp (ih (.unary _) hu)
  · next ht =>
    simp only [bind_eq_ok, advance_eq_ok ht, run_pure, Parsed.ok.injEq] at h
    obtain ⟨-, a, hp, target, _, hv, rfl, rfl⟩ := h
    exact .bumped .up hp (ih (.primary _) hv)
  · next ht =>
    simp only [bind_eq_ok, advance_eq_ok ht, run_pure, Parsed.ok.injEq] at h
    obtain ⟨-, a, hp, target, _, hv, rfl, rfl⟩ := h
    exact .bumped .down hp (ih (.primary _) hv)
  · next ht =>
    simp only [bind_eq_ok, advance_eq_ok ht, run_pure, Parsed.ok.injEq] at h
    obtain ⟨-, a, hp, operand, _, hu, rfl, rfl⟩ := h
    exact .signed .typeOf hp (ih (.unary _) hu)
  · next ht =>
    refine .unsigned ?_ (ih (.primary _) h)
    unfold startsOperand
    split <;> simp_all

-- Every operand of one token goes on to its suffixes in the same way.
theorem atom_sound {value : Expr} (ih : SoundAt script fuel) (atom : Atom)
    (ht : s.token? = some atom.token)
    (h : (do
      advance
      suffixes script fuel (atom.expr s.offset) : Parser Expr).run s = .ok value t) :
    Derives script (.primary value) s t := by
  simp only [bind_eq_ok, advance_eq_ok ht] at h
  obtain ⟨-, a, hp, hs⟩ := h
  exact .atom atom hp (ih (.suffixes _ _) hs)

theorem primary_sound {value : Expr} (ih : SoundAt script fuel)
    (h : (primary script (fuel + 1)).run s = .ok value t) :
    Derives script (.primary value) s t := by
  rw [primary] at h
  simp only [run_here_bind, run_peek_bind] at h
  split at h
  · next name ht => exact atom_sound ih (.identifier name) ht h
  · next value ht => exact atom_sound ih (.literal value) ht h
  · next ht =>
    simp only [bind_eq_ok, advance_eq_ok ht, expectSymbol_eq_ok] at h
    obtain ⟨-, a, hp, inner, b, he, -, c, hc, hs⟩ := h
    exact .parens hp (ih (.expression _) he) hc (ih (.suffixes _ _) hs)
  · next ht =>
    simp only [bind_eq_ok, advance_eq_ok ht, expectSymbol_eq_ok] at h
    obtain ⟨-, a, hp, pairs, b, he, -, c, hc, hs⟩ := h
    exact .object hp (ih (.entries _) he) hc (ih (.suffixes _ _) hs)
  · next ht =>
    simp only [bind_eq_ok, advance_eq_ok ht, expectSymbol_eq_ok] at h
    obtain ⟨-, a, hp, elements, b, he, -, c, hc, hs⟩ := h
    exact .array hp (ih (.expressions _ _) he) hc (ih (.suffixes _ _) hs)
  · next ht => exact atom_sound ih (.boolean true) ht h
  · next ht => exact atom_sound ih (.boolean false) ht h
  · next ht => exact atom_sound ih .null ht h
  · next ht => exact atom_sound ih .undefined ht h
  · next ht => exact atom_sound ih .infinity ht h
  · next ht => exact atom_sound ih .receiver ht h
  · next ht =>
    simp only [bind_eq_ok, advance_eq_ok ht] at h
    obtain ⟨-, a, hp, literal, b, hf, h⟩ := h
    split at h
    · simp at h
    · next hn => exact .lambda hp (ih (.function _) hf) hn (ih (.suffixes _ _) h)
  · next ht =>
    simp only [bind_eq_ok, advance_eq_ok ht, identifier_eq_ok, acceptSymbol_eq_ok] at h
    obtain ⟨-, a, hp, first, b, hi, names, c, hn, found, d, hd, h⟩ := h
    obtain ⟨rfl, hd⟩ | ⟨rfl, hd, rfl⟩ := hd
    · simp only [if_true, bind_eq_ok, expectSymbol_eq_ok] at h
      obtain ⟨arguments, e, ha, -, f, hc, hs⟩ := h
      exact .construct hp hi (ih (.pathTail _) hn) hd (ih (.expressions _ _) ha) hc
        (ih (.suffixes _ _) hs)
    · exact .constructBare hp hi (ih (.pathTail _) hn) hd (ih (.suffixes _ _) h)
  · simp at h

theorem suffixes_sound {target value : Expr} (ih : SoundAt script fuel)
    (h : (suffixes script (fuel + 1) target).run s = .ok value t) :
    Derives script (.suffixes target value) s t := by
  rw [suffixes] at h
  simp only [run_here_bind, run_peek_bind] at h
  split at h
  · next ht =>
    simp only [bind_eq_ok, advance_eq_ok ht, identifier_eq_ok] at h
    obtain ⟨-, a, hp, name, b, hi, hs⟩ := h
    exact .dot hp hi (ih (.suffixes _ _) hs)
  · next ht =>
    simp only [bind_eq_ok, advance_eq_ok ht, expectSymbol_eq_ok] at h
    obtain ⟨-, a, hp, arguments, b, ha, -, c, hc, hs⟩ := h
    exact .call hp (ih (.expressions _ _) ha) hc (ih (.suffixes _ _) hs)
  · next ht =>
    simp only [bind_eq_ok, advance_eq_ok ht, expectSymbol_eq_ok] at h
    obtain ⟨-, a, hp, index, b, he, -, c, hc, hs⟩ := h
    exact .subscript hp (ih (.expression _) he) hc (ih (.suffixes _ _) hs)
  · next ht =>
    simp only [bind_eq_ok, advance_eq_ok ht] at h
    obtain ⟨-, a, hp, hs⟩ := h
    exact .postfixed .up hp (ih (.suffixes _ _) hs)
  · next ht =>
    simp only [bind_eq_ok, advance_eq_ok ht] at h
    obtain ⟨-, a, hp, hs⟩ := h
    exact .postfixed .down hp (ih (.suffixes _ _) hs)
  · next ht =>
    simp only [run_pure, Parsed.ok.injEq] at h
    obtain ⟨rfl, rfl⟩ := h
    refine .noSuffix ?_
    unfold endsSuffixes
    split <;> simp_all

theorem expressions_sound {closing : Symbol} {values : List Expr} (ih : SoundAt script fuel)
    (h : (expressions script (fuel + 1) closing).run s = .ok values t) :
    Derives script (.expressions closing values) s t := by
  rw [expressions] at h
  simp only [bind_eq_ok, atSymbol_eq_ok] at h
  obtain ⟨found, _, ⟨hf, rfl⟩, h⟩ := h
  cases found with
  | true =>
    simp only [if_true, run_pure, Parsed.ok.injEq] at h
    obtain ⟨rfl, rfl⟩ := h
    exact .noExpressions (hf.mp rfl)
  | false =>
    have hs : s.token? ≠ some (.symbol closing) := fun he => by simp [he] at hf
    simp only [Bool.false_eq_true, if_false, bind_eq_ok, atSymbol_eq_ok] at h
    obtain ⟨value, a, hv, last, _, ⟨hl, rfl⟩, h⟩ := h
    cases last with
    | true =>
      simp only [if_true, run_pure, Parsed.ok.injEq] at h
      obtain ⟨rfl, rfl⟩ := h
      exact .lastExpression hs (ih (.expression _) hv) (hl.mp rfl)
    | false =>
      have ha : a.token? ≠ some (.symbol closing) := fun he => by simp [he] at hl
      simp only [Bool.false_eq_true, if_false, bind_eq_ok, expectSymbol_eq_ok, run_pure,
        Parsed.ok.injEq] at h
      obtain ⟨-, b, hc, values, _, hm, rfl, rfl⟩ := h
      exact .moreExpressions hs (ih (.expression _) hv) ha hc (ih (.expressions _ _) hm)

-- The two kinds of keys are read in the same way.
theorem entry_sound {pairs : List (String × Expr)} {token : Token} {key : String}
    (ih : SoundAt script fuel) (hk : token = .identifier key ∨ token = .literal (.string key))
    (ht : s.token? = some token)
    (h : (do
      advance
      expectSymbol .colon
      let value ← expression script fuel
      if ← atSymbol .rightBrace then
        return [(key, value)]
      else
        expectSymbol .comma
        return (key, value) :: (← entries script fuel) : Parser (List (String × Expr))).run s
        = .ok pairs t) :
    Derives script (.entries pairs) s t := by
  simp only [bind_eq_ok, advance_eq_ok ht, expectSymbol_eq_ok, atSymbol_eq_ok] at h
  obtain ⟨-, a, hp, -, b, hc, value, c, hv, last, _, ⟨hl, rfl⟩, h⟩ := h
  cases last with
  | true =>
    simp only [if_true, run_pure, Parsed.ok.injEq] at h
    obtain ⟨rfl, rfl⟩ := h
    exact .lastEntry hp hk hc (ih (.expression _) hv) (hl.mp rfl)
  | false =>
    simp only [Bool.false_eq_true, if_false, bind_eq_ok, expectSymbol_eq_ok, run_pure,
      Parsed.ok.injEq] at h
    obtain ⟨-, d, hd, pairs, _, hm, rfl, rfl⟩ := h
    exact .moreEntries hp hk hc (ih (.expression _) hv) hd (ih (.entries _) hm)

theorem entries_sound {pairs : List (String × Expr)} (ih : SoundAt script fuel)
    (h : (entries script (fuel + 1)).run s = .ok pairs t) :
    Derives script (.entries pairs) s t := by
  rw [entries] at h
  simp only [run_peek_bind] at h
  split at h
  · next ht =>
    simp only [run_pure, Parsed.ok.injEq] at h
    obtain ⟨rfl, rfl⟩ := h
    exact .noEntries ht
  · next key ht => exact entry_sound ih (.inl rfl) ht h
  · next key ht => exact entry_sound ih (.inr rfl) ht h
  · simp at h

theorem parameters_sound {names : List String} (ih : SoundAt script fuel)
    (h : (parameters (fuel + 1)).run s = .ok names t) :
    Derives script (.parameters names) s t := by
  rw [parameters] at h
  simp only [bind_eq_ok, atSymbol_eq_ok] at h
  obtain ⟨found, _, ⟨hf, rfl⟩, h⟩ := h
  cases found with
  | true =>
    simp only [if_true, run_pure, Parsed.ok.injEq] at h
    obtain ⟨rfl, rfl⟩ := h
    exact .noParameters (hf.mp rfl)
  | false =>
    simp only [Bool.false_eq_true, if_false, bind_eq_ok, identifier_eq_ok, atSymbol_eq_ok] at h
    obtain ⟨name, a, hp, last, _, ⟨hl, rfl⟩, h⟩ := h
    cases last with
    | true =>
      simp only [if_true, run_pure, Parsed.ok.injEq] at h
      obtain ⟨rfl, rfl⟩ := h
      exact .lastParameter hp (hl.mp rfl)
    | false =>
      simp only [Bool.false_eq_true, if_false, bind_eq_ok, expectSymbol_eq_ok, run_pure,
        Parsed.ok.injEq] at h
      obtain ⟨-, b, hc, names, _, hm, rfl, rfl⟩ := h
      exact .moreParameters hp hc (ih (.parameters _) hm)

theorem pathTail_sound {names : List String} (ih : SoundAt script fuel)
    (h : (pathTail (fuel + 1)).run s = .ok names t) : Derives script (.pathTail names) s t := by
  rw [pathTail] at h
  simp only [bind_eq_ok, acceptSymbol_eq_ok] at h
  obtain ⟨found, a, ⟨rfl, hp⟩ | ⟨rfl, hp, rfl⟩, h⟩ := h
  · simp only [if_true, bind_eq_ok, identifier_eq_ok, run_pure, Parsed.ok.injEq] at h
    obtain ⟨name, b, hi, names, _, hn, rfl, rfl⟩ := h
    exact .pathStep hp hi (ih (.pathTail _) hn)
  · simp only [Bool.false_eq_true, if_false, run_pure, Parsed.ok.injEq] at h
    obtain ⟨rfl, rfl⟩ := h
    exact .pathEnd hp

theorem function_sound {literal : Function} (ih : SoundAt script fuel)
    (h : (function script (fuel + 1)).run s = .ok literal t) :
    Derives script (.function literal) s t := by
  rw [function] at h
  simp only [run_here_bind, run_peek_bind] at h
  split at h
  · next name ht =>
    simp only [bind_eq_ok, advance_eq_ok ht, expectSymbol_eq_ok, run_pure, Parsed.ok.injEq] at h
    obtain ⟨-, a, hp, _, _, ⟨rfl, rfl⟩, -, b, ho, names, c, hn, -, d, hc, body, _, hb, rfl, rfl⟩ := h
    exact .named hp ho (ih (.parameters _) hn) hc (ih (.block _) hb)
  · next ht =>
    simp only [bind_eq_ok, expectSymbol_eq_ok, run_pure, Parsed.ok.injEq] at h
    obtain ⟨_, _, ⟨rfl, rfl⟩, -, a, ho, names, b, hn, -, c, hc, body, _, hb, rfl, rfl⟩ := h
    exact .unnamed ho (ih (.parameters _) hn) hc (ih (.block _) hb)

theorem block_sound {body : Block} (ih : SoundAt script fuel)
    (h : (block script (fuel + 1)).run s = .ok body t) : Derives script (.block body) s t := by
  rw [block] at h
  simp only [run_here_bind, bind_eq_ok, expectSymbol_eq_ok, run_hereStop_bind, run_pure,
    Parsed.ok.injEq] at h
  obtain ⟨-, a, ho, items, b, hi, -, _, hc, rfl, rfl⟩ := h
  exact .block ho (ih (.blockItems _) hi) hc

theorem blockItems_sound {body : List Stmt} (ih : SoundAt script fuel)
    (h : (blockItems script (fuel + 1)).run s = .ok body t) :
    Derives script (.blockItems body) s t := by
  rw [blockItems] at h
  simp only [run_peek_bind] at h
  split at h
  · next ht =>
    simp only [run_pure, Parsed.ok.injEq] at h
    obtain ⟨rfl, rfl⟩ := h
    exact .noBlockItems ht
  · simp at h
  · next hb hn =>
    simp only [bind_eq_ok, run_pure, Parsed.ok.injEq] at h
    obtain ⟨first, a, hf, body, _, hi, rfl, rfl⟩ := h
    exact .moreBlockItems hb hn (ih (.statement _) hf) (ih (.blockItems _) hi)

theorem optional_sound {closing : Symbol} {value : Option Expr} (ih : SoundAt script fuel)
    (h : (optional script (fuel + 1) closing).run s = .ok value t) :
    Derives script (.optional closing value) s t := by
  rw [optional] at h
  simp only [bind_eq_ok, acceptSymbol_eq_ok] at h
  obtain ⟨found, a, ⟨rfl, hp⟩ | ⟨rfl, hp, rfl⟩, h⟩ := h
  · simp only [if_true, run_pure, Parsed.ok.injEq] at h
    obtain ⟨rfl, rfl⟩ := h
    exact .noOption hp
  · simp only [Bool.false_eq_true, if_false, bind_eq_ok, expectSymbol_eq_ok, run_pure,
      Parsed.ok.injEq] at h
    obtain ⟨value, b, hv, -, _, hc, rfl, rfl⟩ := h
    exact .someOption hp (ih (.expression _) hv) hc

-- What follows a declared name and its value.
theorem declarationTail_eq_ok {offset : Nat} {name : String} {initial : Option Expr}
    {value : Stmt} :
    (do
      if ← acceptSymbol .comma then
        let rest ← declarations script fuel
        return .block offset [.declare offset name initial, rest]
      else
        endStatement
        return .declare offset name initial : Parser Stmt).run s = .ok value t ↔
    (∃ a others, s.Passes (.symbol .comma) a ∧ Gives script fuel (.declarations others) a t ∧
      .block offset [.declare offset name initial, others] = value) ∨
    (s.token? ≠ some (.symbol .comma) ∧ s.Closes t ∧ .declare offset name initial = value) := by
  simp only [bind_eq_ok, acceptSymbol_eq_ok]
  constructor
  · rintro ⟨more, a, ⟨rfl, ha⟩ | ⟨rfl, ha, rfl⟩, h⟩
    · simp only [if_true, bind_eq_ok, run_pure, Parsed.ok.injEq] at h
      obtain ⟨others, _, ho, rfl, rfl⟩ := h
      exact .inl ⟨a, others, ha, ho, rfl⟩
    · simp only [Bool.false_eq_true, if_false, bind_eq_ok, endStatement_eq_ok, run_pure,
        Parsed.ok.injEq] at h
      obtain ⟨-, _, hc, rfl, rfl⟩ := h
      exact .inr ⟨ha, hc, rfl⟩
  · rintro (⟨a, others, ha, ho, rfl⟩ | ⟨ha, hc, rfl⟩)
    · refine ⟨true, a, .inl ⟨rfl, ha⟩, ?_⟩
      simp only [if_true, bind_eq_ok]
      exact ⟨others, t, ho, rfl⟩
    · refine ⟨false, s, .inr ⟨rfl, ha, rfl⟩, ?_⟩
      simp only [Bool.false_eq_true, if_false, bind_eq_ok, endStatement_eq_ok]
      exact ⟨(), t, hc, rfl⟩

theorem declarations_sound {value : Stmt} (ih : SoundAt script fuel)
    (h : (declarations script (fuel + 1)).run s = .ok value t) :
    Derives script (.declarations value) s t := by
  rw [declarations] at h
  simp only [run_here_bind, @bind_eq_ok _ _ identifier, identifier_eq_ok,
    @bind_eq_ok _ _ (acceptSymbol .assign), acceptSymbol_eq_ok] at h
  obtain ⟨name, a, hp, assigned, b, ⟨rfl, hb⟩ | ⟨rfl, hb, rfl⟩, h⟩ := h
  · rw [if_pos rfl, bind_eq_ok] at h
    obtain ⟨_, c, hv, h⟩ := h
    obtain ⟨initial, he, rfl⟩ := map_eq_ok.mp hv
    replace he := ih (.expression _) he
    obtain ⟨d, others, hd, ho, rfl⟩ | ⟨hd, hc, rfl⟩ := declarationTail_eq_ok.mp h
    · exact .moreDeclarationsValue hp hb he hd (ih (.declarations _) ho)
    · exact .declarationValue hp hb he hd hc
  · obtain ⟨d, others, hd, ho, rfl⟩ | ⟨hd, hc, rfl⟩ := declarationTail_eq_ok.mp h
    · exact .moreDeclarations hp hd (ih (.declarations _) ho)
    · exact .declaration hp hb hd hc

theorem items_sound {body : List Stmt} (ih : SoundAt script fuel)
    (h : (items script (fuel + 1)).run s = .ok body t) : Derives script (.items body) s t := by
  rw [items] at h
  simp only [run_peek_bind] at h
  split at h
  · next ht =>
    simp only [run_pure, Parsed.ok.injEq] at h
    obtain ⟨rfl, rfl⟩ := h
    exact .noItems ht
  · next token ht =>
    simp only [bind_eq_ok, run_pure, Parsed.ok.injEq] at h
    obtain ⟨first, a, hf, body, _, hi, rfl, rfl⟩ := h
    exact .moreItems (by simp [ht]) (ih (.statement _) hf) (ih (.items _) hi)

-- What follows the word `return`.
theorem giveBack_sound {a : Stream} {value : Stmt} (ih : SoundAt script fuel)
    (hp : s.Passes (.keyword .returnWord) a)
    (h : (match a.token? with
      | some (.symbol .semicolon) => do
        advance
        return .giveBack s.offset none
      | some (.symbol .rightBrace) | none => return .giveBack s.offset none
      | _ => do
        let value ← expression script fuel
        let _ ← acceptSymbol .semicolon
        return .giveBack s.offset (some value) : Parser Stmt).run a = .ok value t) :
    Derives script (.statement value) s t := by
  split at h
  · next ht =>
    simp only [bind_eq_ok, advance_eq_ok ht, run_pure, Parsed.ok.injEq] at h
    obtain ⟨-, _, hc, rfl, rfl⟩ := h
    exact .giveNothing hp hc
  · next ht =>
    simp only [run_pure, Parsed.ok.injEq] at h
    obtain ⟨rfl, rfl⟩ := h
    exact .giveNothingAtEnd hp (by simp [ht, endsReturn])
  · next ht =>
    simp only [run_pure, Parsed.ok.injEq] at h
    obtain ⟨rfl, rfl⟩ := h
    exact .giveNothingAtEnd hp (by simp [ht, endsReturn])
  · next hs hb hn =>
    simp only [bind_eq_ok, acceptSymbol_eq_ok, run_pure, Parsed.ok.injEq] at h
    have he : endsReturn a.token? = false := by
      unfold endsReturn
      split <;> simp_all
    obtain ⟨value, b, hv, _, _, ⟨-, hc⟩ | ⟨-, hc, rfl⟩, rfl, rfl⟩ := h
    · exact .giveBackClosed hp hs he (ih (.expression _) hv) hc
    · exact .giveBack hp hs he (ih (.expression _) hv) hc

theorem statement_sound {value : Stmt} (ih : SoundAt script fuel)
    (h : (statement script (fuel + 1)).run s = .ok value t) :
    Derives script (.statement value) s t := by
  rw [statement] at h
  simp only [run_here_bind, run_peek_bind] at h
  split at h
  · next ht =>
    simp only [bind_eq_ok, run_pure, Parsed.ok.injEq] at h
    obtain ⟨body, _, hb, rfl, rfl⟩ := h
    exact .blockStatement ht (ih (.block _) hb)
  · next ht =>
    simp only [bind_eq_ok, advance_eq_ok ht] at h
    obtain ⟨-, a, hp, hd⟩ := h
    exact .declare (by simp) hp (ih (.declarations _) hd)
  · next ht =>
    simp only [bind_eq_ok, advance_eq_ok ht] at h
    obtain ⟨-, a, hp, hd⟩ := h
    exact .declare (by simp) hp (ih (.declarations _) hd)
  · next ht =>
    simp only [bind_eq_ok, advance_eq_ok ht] at h
    obtain ⟨-, a, hp, hd⟩ := h
    exact .declare (by simp) hp (ih (.declarations _) hd)
  · next ht =>
    simp only [bind_eq_ok, advance_eq_ok ht, expectSymbol_eq_ok, acceptKeyword_eq_ok] at h
    obtain ⟨-, a, hp, -, b, ho, test, c, he, -, d, hc, yes, e, hy, found, f, hf, h⟩ := h
    obtain ⟨rfl, hf⟩ | ⟨rfl, hf, rfl⟩ := hf
    · simp only [if_true, bind_eq_ok, run_pure, Parsed.ok.injEq] at h
      obtain ⟨no, _, hn, rfl, rfl⟩ := h
      exact .branchElse hp ho (ih (.expression _) he) hc (ih (.statement _) hy) hf
        (ih (.statement _) hn)
    · simp only [Bool.false_eq_true, if_false, run_pure, Parsed.ok.injEq] at h
      obtain ⟨rfl, rfl⟩ := h
      exact .branch hp ho (ih (.expression _) he) hc (ih (.statement _) hy) hf
  · next ht =>
    simp only [bind_eq_ok, advance_eq_ok ht, expectSymbol_eq_ok, run_pure, Parsed.ok.injEq] at h
    obtain ⟨-, a, hp, -, b, ho, test, c, he, -, d, hc, body, _, hb, rfl, rfl⟩ := h
    exact .whileLoop hp ho (ih (.expression _) he) hc (ih (.statement _) hb)
  · next ht =>
    simp only [bind_eq_ok, advance_eq_ok ht, expectSymbol_eq_ok, expectKeyword_eq_ok,
      endStatement_eq_ok, run_pure, Parsed.ok.injEq] at h
    obtain ⟨-, a, hp, body, b, hb, -, c, hw, -, d, ho, test, e, he, -, f, hc, -, _, hz, rfl, rfl⟩ := h
    exact .doLoop hp (ih (.block _) hb) hw ho (ih (.expression _) he) hc hz
  · next ht =>
    simp only [bind_eq_ok, advance_eq_ok ht, expectSymbol_eq_ok, run_pure, Parsed.ok.injEq] at h
    obtain ⟨-, a, hp, -, b, ho, initial, c, hi, test, d, he, step, e, hs, body, _, hb, rfl, rfl⟩ := h
    exact .forLoop hp ho (ih (.statement _) hi) (ih (.optional _ _) he) (ih (.optional _ _) hs)
      (ih (.statement _) hb)
  · next ht =>
    simp only [bind_eq_ok, advance_eq_ok ht, run_peek_bind] at h
    obtain ⟨-, a, hp, h⟩ := h
    exact giveBack_sound ih hp h
  · next ht =>
    simp only [bind_eq_ok, advance_eq_ok ht, endStatement_eq_ok, run_pure, Parsed.ok.injEq] at h
    obtain ⟨-, a, hp, -, _, hc, rfl, rfl⟩ := h
    exact .jump .breakLoop hp hc
  · next ht =>
    simp only [bind_eq_ok, advance_eq_ok ht, endStatement_eq_ok, run_pure, Parsed.ok.injEq] at h
    obtain ⟨-, a, hp, -, _, hc, rfl, rfl⟩ := h
    exact .jump .continueLoop hp hc
  · next ht =>
    simp only [bind_eq_ok, advance_eq_ok ht] at h
    obtain ⟨-, a, hp, literal, b, hf, h⟩ := h
    split at h
    · next name hn =>
      simp only [run_pure, Parsed.ok.injEq] at h
      obtain ⟨rfl, rfl⟩ := h
      exact .functionStatement hp (ih (.function _) hf) hn
    · simp at h
  · next ht =>
    simp only [bind_eq_ok, advance_eq_ok ht, run_pure, Parsed.ok.injEq] at h
    obtain ⟨-, _, hp, rfl, rfl⟩ := h
    exact .empty hp
  · next token _ _ _ _ _ _ _ _ _ _ _ _ _ ht =>
    split at h
    · next hs =>
      simp only [bind_eq_ok, endStatement_eq_ok, run_pure, Parsed.ok.injEq] at h
      obtain ⟨value, a, hv, -, _, hc, rfl, rfl⟩ := h
      refine .expressionStatement ?_ (ih (.expression _) hv) hc
      unfold startsExpressionStatement
      split <;> simp_all
    · simp at h
  · simp at h

theorem Gives.derives (phrase : Phrase) (h : Gives script fuel phrase s t) :
    Derives script phrase s t := by
  induction fuel generalizing phrase s t with
  | zero =>
    cases phrase <;>
      simp [Gives, expression, links, unary, primary, suffixes, expressions, entries, parameters,
        pathTail, function, block, blockItems, statement, optional, declarations, items] at h
  | succ fuel ih =>
    have ih : SoundAt script fuel := fun phrase => ih phrase
    cases phrase with
    | expression _ => exact expression_sound ih h
    | links _ => exact links_sound ih h
    | unary _ => exact unary_sound ih h
    | primary _ => exact primary_sound ih h
    | suffixes _ _ => exact suffixes_sound ih h
    | expressions _ _ => exact expressions_sound ih h
    | entries _ => exact entries_sound ih h
    | parameters _ => exact parameters_sound ih h
    | pathTail _ => exact pathTail_sound ih h
    | function _ => exact function_sound ih h
    | block _ => exact block_sound ih h
    | blockItems _ => exact blockItems_sound ih h
    | statement _ => exact statement_sound ih h
    | optional _ _ => exact optional_sound ih h
    | declarations _ => exact declarations_sound ih h
    | items _ => exact items_sound ih h

end

end ScriptEngine.Grammar
