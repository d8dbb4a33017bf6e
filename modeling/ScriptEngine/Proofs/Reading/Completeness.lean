import ScriptEngine.Proofs.Reading.Soundness

-- What can be derived is given by the readers, with fuel in proportion to the tokens of the phrase.
-- So the fuel of `run` is a proved bound: derivations and readers agree on what a text spells.

namespace ScriptEngine.Grammar

open ScriptEngine.Parser

-- The calls from the reader of a phrase to the first one that moves past a token.
@[grind] def Phrase.depth : Phrase → Nat
  | links _ | suffixes _ _ | entries _ | parameters _ | pathTail _ | primary _ | function _
  | block _ | declarations _ => 1
  | unary _ => 2
  | expression _ => 3
  | expressions _ _ | optional _ _ | statement _ => 4
  | blockItems _ | items _ => 5

-- Every token of a phrase pays for eight calls.
@[grind] def Affords (fuel : Nat) (phrase : Phrase) (s t : Stream) : Prop :=
  8 * s.length + phrase.depth ≤ fuel + 8 * t.length

def CompleteAt (script : List Char) (fuel : Nat) : Prop :=
  ∀ (phrase : Phrase) {s t : Stream}, Derives script phrase s t → Affords fuel phrase s t →
    Gives script fuel phrase s t

section

variable {script : List Char} {fuel : Nat} {s t : Stream}

theorem expression_complete {value : Expr} (ih : CompleteAt script fuel)
    (h : Derives script (.expression value) s t)
    (hfuel : Affords (fuel + 1) (.expression value) s t) :
    (expression script (fuel + 1)).run s = .ok value t := by
  rw [expression]
  simp only [bind_eq_ok, run_here_bind, run_peek_bind]
  cases h with
  | chain hf hl hc =>
    refine ⟨_, _, ih _ hf (by grind), _, _, ih _ hl (by grind), ?_⟩
    split <;> simp_all [endsChain]
  | ternary hf hl hq hy hc hn =>
    refine ⟨_, _, ih _ hf (by grind), _, _, ih _ hl (by grind), ?_⟩
    simp only [hq.token?, bind_eq_ok, advance_eq_ok hq.token?, expectSymbol_eq_ok, run_pure,
      Parsed.ok.injEq]
    exact ⟨(), _, hq, _, _, ih _ hy (by grind), (), _, hc, _, _, ih _ hn (by grind), rfl, rfl⟩
  | assign hf hl hq hv =>
    refine ⟨_, _, ih _ hf (by grind), _, _, ih _ hl (by grind), ?_⟩
    simp only [hq.token?, bind_eq_ok, advance_eq_ok hq.token?, run_pure, Parsed.ok.injEq]
    exact ⟨(), _, hq, _, _, ih _ hv (by grind), rfl, rfl⟩
  | update hf hl hq ho hv =>
    refine ⟨_, _, ih _ hf (by grind), _, _, ih _ hl (by grind), ?_⟩
    rw [hq.token?]
    split
    · next he => cases he; cases ho
    · next he => cases he; cases ho
    · next he =>
      cases he
      simp only [ho, bind_eq_ok, advance_eq_ok hq.token?, run_pure, Parsed.ok.injEq]
      exact ⟨(), _, hq, _, _, ih _ hv (by grind), rfl, rfl⟩
    · next he => exact absurd rfl (he _)

theorem links_complete {operands : List Link} (ih : CompleteAt script fuel)
    (h : Derives script (.links operands) s t)
    (hfuel : Affords (fuel + 1) (.links operands) s t) :
    (links script (fuel + 1)).run s = .ok operands t := by
  rw [links]
  simp only [run_here_bind, run_peek_bind]
  cases h with
  | noLinks hs =>
    split
    · next mark ht =>
      split
      · next operator ho => simp [ht, endsLinks, ho] at hs
      · rfl
    · rfl
  | link hp ho hu hl =>
    simp only [hp.token?, ho, bind_eq_ok, advance_eq_ok hp.token?, run_pure, Parsed.ok.injEq]
    exact ⟨(), _, hp, _, _, ih _ hu (by grind), _, _, ih _ hl (by grind), rfl, rfl⟩

theorem unary_complete {value : Expr} (ih : CompleteAt script fuel)
    (h : Derives script (.unary value) s t) (hfuel : Affords (fuel + 1) (.unary value) s t) :
    (unary script (fuel + 1)).run s = .ok value t := by
  rw [unary]
  simp only [run_here_bind, run_peek_bind]
  cases h with
  | signed sign hp hu =>
    have hu := ih (.unary _) hu (by grind)
    cases sign <;>
    · simp only [hp.token?, Sign.token, bind_eq_ok, advance_eq_ok hp.token?, run_pure,
        Parsed.ok.injEq]
      exact ⟨(), _, hp, _, _, hu, rfl, rfl⟩
  | bumped bump hp hv =>
    have hv := ih (.primary _) hv (by grind)
    cases bump <;>
    · simp only [hp.token?, Bump.mark, bind_eq_ok, advance_eq_ok hp.token?, run_pure,
        Parsed.ok.injEq]
      exact ⟨(), _, hp, _, _, hv, rfl, rfl⟩
  | unsigned hs hv =>
    have hv : (primary script fuel).run s = .ok value t := ih (.primary _) hv (by grind)
    split <;> simp_all [startsOperand]

theorem primary_complete {value : Expr} (ih : CompleteAt script fuel)
    (h : Derives script (.primary value) s t) (hfuel : Affords (fuel + 1) (.primary value) s t) :
    (primary script (fuel + 1)).run s = .ok value t := by
  rw [primary]
  simp only [run_here_bind, run_peek_bind]
  cases h with
  | atom atom hp hs =>
    have hs := ih (.suffixes _ _) hs (by grind)
    have ht := hp.token?
    cases atom <;> try cases ‹Bool›
    all_goals
      simp only [ht, Atom.token, bind_eq_ok, advance_eq_ok ht]
      exact ⟨(), _, hp, hs⟩
  | parens hp he hc hs =>
    simp only [hp.token?, bind_eq_ok, advance_eq_ok hp.token?, expectSymbol_eq_ok]
    exact ⟨(), _, hp, _, _, ih _ he (by grind), (), _, hc, ih _ hs (by grind)⟩
  | object hp he hc hs =>
    simp only [hp.token?, bind_eq_ok, advance_eq_ok hp.token?, expectSymbol_eq_ok]
    exact ⟨(), _, hp, _, _, ih _ he (by grind), (), _, hc, ih _ hs (by grind)⟩
  | array hp he hc hs =>
    simp only [hp.token?, bind_eq_ok, advance_eq_ok hp.token?, expectSymbol_eq_ok]
    exact ⟨(), _, hp, _, _, ih _ he (by grind), (), _, hc, ih _ hs (by grind)⟩
  | lambda hp hf hn hs =>
    simp only [hp.token?, bind_eq_ok, advance_eq_ok hp.token?]
    refine ⟨(), _, hp, _, _, ih _ hf (by grind), ?_⟩
    rw [hn]
    exact ih _ hs (by grind)
  | construct hp hi hn hd ha hc hs =>
    simp only [hp.token?, bind_eq_ok, advance_eq_ok hp.token?, identifier_eq_ok,
      acceptSymbol_eq_ok]
    refine ⟨(), _, hp, _, _, hi, _, _, ih _ hn (by grind), true, _, .inl ⟨rfl, hd⟩, ?_⟩
    simp only [if_true, bind_eq_ok, expectSymbol_eq_ok]
    exact ⟨_, _, ih _ ha (by grind), (), _, hc, ih _ hs (by grind)⟩
  | constructBare hp hi hn hd hs =>
    simp only [hp.token?, bind_eq_ok, advance_eq_ok hp.token?, identifier_eq_ok,
      acceptSymbol_eq_ok]
    exact ⟨(), _, hp, _, _, hi, _, _, ih _ hn (by grind), false, _, .inr ⟨rfl, hd, rfl⟩,
      ih _ hs (by grind)⟩

theorem suffixes_complete {target value : Expr} (ih : CompleteAt script fuel)
    (h : Derives script (.suffixes target value) s t)
    (hfuel : Affords (fuel + 1) (.suffixes target value) s t) :
    (suffixes script (fuel + 1) target).run s = .ok value t := by
  rw [suffixes]
  simp only [run_here_bind, run_peek_bind]
  cases h with
  | noSuffix hs => split <;> simp_all [endsSuffixes]
  | dot hp hi hs =>
    simp only [hp.token?, bind_eq_ok, advance_eq_ok hp.token?, identifier_eq_ok]
    exact ⟨(), _, hp, _, _, hi, ih _ hs (by grind)⟩
  | call hp ha hc hs =>
    simp only [hp.token?, bind_eq_ok, advance_eq_ok hp.token?, expectSymbol_eq_ok]
    exact ⟨(), _, hp, _, _, ih _ ha (by grind), (), _, hc, ih _ hs (by grind)⟩
  | subscript hp he hc hs =>
    simp only [hp.token?, bind_eq_ok, advance_eq_ok hp.token?, expectSymbol_eq_ok]
    exact ⟨(), _, hp, _, _, ih _ he (by grind), (), _, hc, ih _ hs (by grind)⟩
  | postfixed bump hp hs =>
    have hs := ih (.suffixes _ _) hs (by grind)
    cases bump <;>
    · simp only [hp.token?, Bump.mark, bind_eq_ok, advance_eq_ok hp.token?]
      exact ⟨(), _, hp, hs⟩

theorem expressions_complete {closing : Symbol} {values : List Expr} (ih : CompleteAt script fuel)
    (h : Derives script (.expressions closing values) s t)
    (hfuel : Affords (fuel + 1) (.expressions closing values) s t) :
    (expressions script (fuel + 1) closing).run s = .ok values t := by
  rw [expressions]
  simp only [bind_eq_ok, atSymbol_eq_ok]
  cases h with
  | noExpressions hs => exact ⟨true, _, ⟨by simp [hs], rfl⟩, rfl⟩
  | lastExpression hs hv ht =>
    refine ⟨false, _, ⟨by simp [hs], rfl⟩, ?_⟩
    simp only [Bool.false_eq_true, if_false, bind_eq_ok, atSymbol_eq_ok]
    exact ⟨_, _, ih _ hv (by grind), true, _, ⟨by simp [ht], rfl⟩, rfl⟩
  | moreExpressions hs hv ha hc hm =>
    refine ⟨false, _, ⟨by simp [hs], rfl⟩, ?_⟩
    simp only [Bool.false_eq_true, if_false, bind_eq_ok, atSymbol_eq_ok]
    refine ⟨_, _, ih _ hv (by grind), false, _, ⟨by simp [ha], rfl⟩, ?_⟩
    simp only [Bool.false_eq_true, if_false, bind_eq_ok, expectSymbol_eq_ok, run_pure,
      Parsed.ok.injEq]
    exact ⟨(), _, hc, _, _, ih _ hm (by grind), rfl, rfl⟩

theorem entries_complete {pairs : List (String × Expr)} (ih : CompleteAt script fuel)
    (h : Derives script (.entries pairs) s t) (hfuel : Affords (fuel + 1) (.entries pairs) s t) :
    (entries script (fuel + 1)).run s = .ok pairs t := by
  rw [entries]
  simp only [run_peek_bind]
  cases h with
  | noEntries hs => simp [hs]
  | lastEntry hp hk hc hv ht =>
    have hv := ih (.expression _) hv (by grind)
    obtain rfl | rfl := hk
    all_goals
      simp only [hp.token?, bind_eq_ok, advance_eq_ok hp.token?, expectSymbol_eq_ok,
        atSymbol_eq_ok]
      exact ⟨(), _, hp, (), _, hc, _, _, hv, true, _, ⟨by simp [ht], rfl⟩, rfl⟩
  | moreEntries hp hk hc hv hd hm =>
    have hv := ih (.expression _) hv (by grind)
    have hm := ih (.entries _) hm (by grind)
    obtain rfl | rfl := hk
    all_goals
      simp only [hp.token?, bind_eq_ok, advance_eq_ok hp.token?, expectSymbol_eq_ok,
        atSymbol_eq_ok]
      refine ⟨(), _, hp, (), _, hc, _, _, hv, false, _, ⟨by simp [hd.token?], rfl⟩, ?_⟩
      simp only [Bool.false_eq_true, if_false, bind_eq_ok, expectSymbol_eq_ok, run_pure,
        Parsed.ok.injEq]
      exact ⟨(), _, hd, _, _, hm, rfl, rfl⟩

theorem parameters_complete {names : List String} (ih : CompleteAt script fuel)
    (h : Derives script (.parameters names) s t)
    (hfuel : Affords (fuel + 1) (.parameters names) s t) :
    (parameters (fuel + 1)).run s = .ok names t := by
  rw [parameters]
  simp only [bind_eq_ok, atSymbol_eq_ok]
  cases h with
  | noParameters hs => exact ⟨true, _, ⟨by simp [hs], rfl⟩, rfl⟩
  | lastParameter hp ht =>
    refine ⟨false, _, ⟨by simp [hp.token?], rfl⟩, ?_⟩
    simp only [Bool.false_eq_true, if_false, bind_eq_ok, identifier_eq_ok, atSymbol_eq_ok]
    exact ⟨_, _, hp, true, _, ⟨by simp [ht], rfl⟩, rfl⟩
  | moreParameters hp hc hm =>
    refine ⟨false, _, ⟨by simp [hp.token?], rfl⟩, ?_⟩
    simp only [Bool.false_eq_true, if_false, bind_eq_ok, identifier_eq_ok, atSymbol_eq_ok]
    refine ⟨_, _, hp, false, _, ⟨by simp [hc.token?], rfl⟩, ?_⟩
    simp only [Bool.false_eq_true, if_false, bind_eq_ok, expectSymbol_eq_ok, run_pure,
      Parsed.ok.injEq]
    exact ⟨(), _, hc, _, _, ih (.parameters _) hm (by grind), rfl, rfl⟩

theorem pathTail_complete {names : List String} (ih : CompleteAt script fuel)
    (h : Derives script (.pathTail names) s t)
    (hfuel : Affords (fuel + 1) (.pathTail names) s t) :
    (pathTail (fuel + 1)).run s = .ok names t := by
  rw [pathTail]
  simp only [bind_eq_ok, acceptSymbol_eq_ok]
  cases h with
  | pathEnd hs => exact ⟨false, _, .inr ⟨rfl, hs, rfl⟩, rfl⟩
  | pathStep hp hi hn =>
    refine ⟨true, _, .inl ⟨rfl, hp⟩, ?_⟩
    simp only [if_true, bind_eq_ok, identifier_eq_ok, run_pure, Parsed.ok.injEq]
    exact ⟨_, _, hi, _, _, ih (.pathTail _) hn (by grind), rfl, rfl⟩

theorem function_complete {literal : Function} (ih : CompleteAt script fuel)
    (h : Derives script (.function literal) s t)
    (hfuel : Affords (fuel + 1) (.function literal) s t) :
    (function script (fuel + 1)).run s = .ok literal t := by
  rw [function]
  simp only [run_here_bind, run_peek_bind]
  cases h with
  | unnamed ho hn hc hb =>
    simp only [ho.token?, bind_eq_ok, expectSymbol_eq_ok, run_pure, Parsed.ok.injEq]
    exact ⟨_, _, ⟨rfl, rfl⟩, (), _, ho, _, _, ih (.parameters _) hn (by grind), (), _, hc, _, _,
      ih (.block _) hb (by grind), rfl, rfl⟩
  | named hp ho hn hc hb =>
    simp only [hp.token?, bind_eq_ok, advance_eq_ok hp.token?, expectSymbol_eq_ok, run_pure,
      Parsed.ok.injEq]
    exact ⟨(), _, hp, _, _, ⟨rfl, rfl⟩, (), _, ho, _, _, ih (.parameters _) hn (by grind), (), _, hc,
      _, _, ih (.block _) hb (by grind), rfl, rfl⟩

theorem block_complete {body : Block} (ih : CompleteAt script fuel)
    (h : Derives script (.block body) s t) (hfuel : Affords (fuel + 1) (.block body) s t) :
    (block script (fuel + 1)).run s = .ok body t := by
  rw [block]
  simp only [run_here_bind, bind_eq_ok, expectSymbol_eq_ok, run_hereStop_bind, run_pure,
    Parsed.ok.injEq]
  cases h with
  | block ho hi hc =>
    exact ⟨(), _, ho, _, _, ih (.blockItems _) hi (by grind), (), _, hc, rfl, rfl⟩

theorem blockItems_complete {body : List Stmt} (ih : CompleteAt script fuel)
    (h : Derives script (.blockItems body) s t)
    (hfuel : Affords (fuel + 1) (.blockItems body) s t) :
    (blockItems script (fuel + 1)).run s = .ok body t := by
  rw [blockItems]
  simp only [run_peek_bind]
  cases h with
  | noBlockItems hs => simp [hs]
  | moreBlockItems hb hn hf hi =>
    split
    · next ht => exact absurd ht hb
    · next ht => exact absurd ht hn
    · simp only [bind_eq_ok, run_pure, Parsed.ok.injEq]
      exact ⟨_, _, ih (.statement _) hf (by grind), _, _, ih (.blockItems _) hi (by grind), rfl, rfl⟩

theorem optional_complete {closing : Symbol} {value : Option Expr} (ih : CompleteAt script fuel)
    (h : Derives script (.optional closing value) s t)
    (hfuel : Affords (fuel + 1) (.optional closing value) s t) :
    (optional script (fuel + 1) closing).run s = .ok value t := by
  rw [optional]
  simp only [bind_eq_ok, acceptSymbol_eq_ok]
  cases h with
  | noOption hp => exact ⟨true, _, .inl ⟨rfl, hp⟩, rfl⟩
  | someOption hp hv hc =>
    refine ⟨false, _, .inr ⟨rfl, hp, rfl⟩, ?_⟩
    simp only [Bool.false_eq_true, if_false, bind_eq_ok, expectSymbol_eq_ok, run_pure,
      Parsed.ok.injEq]
    exact ⟨_, _, ih (.expression _) hv (by grind), (), _, hc, rfl, rfl⟩

theorem declarations_complete {value : Stmt} (ih : CompleteAt script fuel)
    (h : Derives script (.declarations value) s t)
    (hfuel : Affords (fuel + 1) (.declarations value) s t) :
    (declarations script (fuel + 1)).run s = .ok value t := by
  rw [declarations]
  simp only [run_here_bind, @bind_eq_ok _ _ identifier, identifier_eq_ok,
    @bind_eq_ok _ _ (acceptSymbol .assign), acceptSymbol_eq_ok]
  cases h with
  | declaration hp hb hd hc =>
    exact ⟨_, _, hp, false, _, .inr ⟨rfl, hb, rfl⟩,
      declarationTail_eq_ok.mpr (.inr ⟨hd, hc, rfl⟩)⟩
  | moreDeclarations hp hd ho =>
    exact ⟨_, _, hp, false, _, .inr ⟨rfl, by simp [hd.token?], rfl⟩,
      declarationTail_eq_ok.mpr (.inl ⟨_, _, hd, ih _ ho (by grind), rfl⟩)⟩
  | declarationValue hp hb hv hd hc =>
    refine ⟨_, _, hp, true, _, .inl ⟨rfl, hb⟩, ?_⟩
    rw [if_pos rfl, bind_eq_ok]
    exact ⟨_, _, map_eq_ok.mpr ⟨_, ih _ hv (by grind), rfl⟩,
      declarationTail_eq_ok.mpr (.inr ⟨hd, hc, rfl⟩)⟩
  | moreDeclarationsValue hp hb hv hd ho =>
    refine ⟨_, _, hp, true, _, .inl ⟨rfl, hb⟩, ?_⟩
    rw [if_pos rfl, bind_eq_ok]
    exact ⟨_, _, map_eq_ok.mpr ⟨_, ih _ hv (by grind), rfl⟩,
      declarationTail_eq_ok.mpr (.inl ⟨_, _, hd, ih _ ho (by grind), rfl⟩)⟩

theorem items_complete {body : List Stmt} (ih : CompleteAt script fuel)
    (h : Derives script (.items body) s t) (hfuel : Affords (fuel + 1) (.items body) s t) :
    (items script (fuel + 1)).run s = .ok body t := by
  rw [items]
  simp only [run_peek_bind]
  cases h with
  | noItems hs => simp [hs]
  | moreItems hs hf hi =>
    split
    · next ht => exact absurd ht hs
    · simp only [bind_eq_ok, run_pure, Parsed.ok.injEq]
      exact ⟨_, _, ih (.statement _) hf (by grind), _, _, ih (.items _) hi (by grind), rfl, rfl⟩

theorem statement_complete {value : Stmt} (ih : CompleteAt script fuel)
    (h : Derives script (.statement value) s t)
    (hfuel : Affords (fuel + 1) (.statement value) s t) :
    (statement script (fuel + 1)).run s = .ok value t := by
  rw [statement]
  simp only [run_here_bind, run_peek_bind]
  cases h with
  | blockStatement ht hb =>
    simp only [ht, bind_eq_ok, run_pure, Parsed.ok.injEq]
    exact ⟨_, _, ih (.block _) hb (by grind), rfl, rfl⟩
  | declare hw hp hd =>
    have hd := ih (.declarations _) hd (by grind)
    simp only [List.mem_cons, List.not_mem_nil, or_false] at hw
    obtain rfl | rfl | rfl := hw
    all_goals
      simp only [hp.token?, bind_eq_ok, advance_eq_ok hp.token?]
      exact ⟨(), _, hp, hd⟩
  | branch hp ho he hc hy hn =>
    simp only [hp.token?, bind_eq_ok, advance_eq_ok hp.token?, expectSymbol_eq_ok,
      acceptKeyword_eq_ok]
    exact ⟨(), _, hp, (), _, ho, _, _, ih (.expression _) he (by grind), (), _, hc, _, _,
      ih (.statement _) hy (by grind), false, _, .inr ⟨rfl, hn, rfl⟩, rfl⟩
  | branchElse hp ho he hc hy hw hn =>
    simp only [hp.token?, bind_eq_ok, advance_eq_ok hp.token?, expectSymbol_eq_ok,
      acceptKeyword_eq_ok]
    refine ⟨(), _, hp, (), _, ho, _, _, ih (.expression _) he (by grind), (), _, hc, _, _,
      ih (.statement _) hy (by grind), true, _, .inl ⟨rfl, hw⟩, ?_⟩
    simp only [if_true, bind_eq_ok]
    exact ⟨_, _, ih (.statement _) hn (by grind), rfl⟩
  | whileLoop hp ho he hc hb =>
    simp only [hp.token?, bind_eq_ok, advance_eq_ok hp.token?, expectSymbol_eq_ok]
    exact ⟨(), _, hp, (), _, ho, _, _, ih (.expression _) he (by grind), (), _, hc, _, _,
      ih (.statement _) hb (by grind), rfl⟩
  | doLoop hp hb hw ho he hc hz =>
    simp only [hp.token?, bind_eq_ok, advance_eq_ok hp.token?, expectSymbol_eq_ok,
      expectKeyword_eq_ok, endStatement_eq_ok]
    exact ⟨(), _, hp, _, _, ih (.block _) hb (by grind), (), _, hw, (), _, ho, _, _,
      ih (.expression _) he (by grind), (), _, hc, (), _, hz, rfl⟩
  | forLoop hp ho hi he hs hb =>
    simp only [hp.token?, bind_eq_ok, advance_eq_ok hp.token?, expectSymbol_eq_ok]
    exact ⟨(), _, hp, (), _, ho, _, _, ih (.statement _) hi (by grind), _, _,
      ih (.optional _ _) he (by grind), _, _, ih (.optional _ _) hs (by grind), _, _,
      ih (.statement _) hb (by grind), rfl⟩
  | giveNothing hp hc =>
    simp only [hp.token?, bind_eq_ok, advance_eq_ok hp.token?, run_peek_bind]
    refine ⟨(), _, hp, ?_⟩
    simp only [hc.token?, bind_eq_ok, advance_eq_ok hc.token?]
    exact ⟨(), _, hc, rfl⟩
  | giveNothingAtEnd hp hz =>
    simp only [hp.token?, bind_eq_ok, advance_eq_ok hp.token?, run_peek_bind]
    refine ⟨(), _, hp, ?_⟩
    split <;> simp_all [endsReturn]
  | giveBack hp hs hz hv hc =>
    simp only [hp.token?, bind_eq_ok, advance_eq_ok hp.token?, run_peek_bind]
    refine ⟨(), _, hp, ?_⟩
    split
    · next ht => exact absurd ht hs
    · next ht => simp [ht, endsReturn] at hz
    · next ht => simp [ht, endsReturn] at hz
    · simp only [bind_eq_ok, acceptSymbol_eq_ok]
      exact ⟨_, _, ih (.expression _) hv (by grind), false, _, .inr ⟨rfl, hc, rfl⟩, rfl⟩
  | giveBackClosed hp hs hz hv hc =>
    simp only [hp.token?, bind_eq_ok, advance_eq_ok hp.token?, run_peek_bind]
    refine ⟨(), _, hp, ?_⟩
    split
    · next ht => exact absurd ht hs
    · next ht => simp [ht, endsReturn] at hz
    · next ht => simp [ht, endsReturn] at hz
    · simp only [bind_eq_ok, acceptSymbol_eq_ok]
      exact ⟨_, _, ih (.expression _) hv (by grind), true, _, .inl ⟨rfl, hc⟩, rfl⟩
  | jump jump hp hc =>
    cases jump <;>
    · simp only [hp.token?, Jump.word, bind_eq_ok, advance_eq_ok hp.token?, endStatement_eq_ok]
      exact ⟨(), _, hp, (), _, hc, rfl⟩
  | functionStatement hp hf hn =>
    simp only [hp.token?, bind_eq_ok, advance_eq_ok hp.token?]
    refine ⟨(), _, hp, _, _, ih (.function _) hf (by grind), ?_⟩
    rw [hn]
    rfl
  | empty hp =>
    simp only [hp.token?, bind_eq_ok, advance_eq_ok hp.token?]
    exact ⟨(), _, hp, rfl⟩
  | expressionStatement ht hv hc =>
    have hv := ih (.expression _) hv (by grind)
    split
    case h_14 token hb hf _ _ _ _ _ _ _ _ _ _ _ hs =>
      have hs : startsExpression token := by
        simp only [hs] at ht
        unfold startsExpressionStatement at ht
        split at ht <;> simp_all
      simp only [hs, if_true, bind_eq_ok, endStatement_eq_ok]
      exact ⟨_, _, hv, (), _, hc, rfl⟩
    all_goals simp_all [startsExpressionStatement, startsExpression]

theorem Derives.gives {phrase : Phrase} (h : Derives script phrase s t)
    (hfuel : Affords fuel phrase s t) : Gives script fuel phrase s t := by
  induction fuel generalizing phrase s t with
  | zero => cases phrase <;> grind
  | succ fuel ih =>
    have ih : CompleteAt script fuel := fun _ => ih
    cases phrase with
    | expression _ => exact expression_complete ih h hfuel
    | links _ => exact links_complete ih h hfuel
    | unary _ => exact unary_complete ih h hfuel
    | primary _ => exact primary_complete ih h hfuel
    | suffixes _ _ => exact suffixes_complete ih h hfuel
    | expressions _ _ => exact expressions_complete ih h hfuel
    | entries _ => exact entries_complete ih h hfuel
    | parameters _ => exact parameters_complete ih h hfuel
    | pathTail _ => exact pathTail_complete ih h hfuel
    | function _ => exact function_complete ih h hfuel
    | block _ => exact block_complete ih h hfuel
    | blockItems _ => exact blockItems_complete ih h hfuel
    | statement _ => exact statement_complete ih h hfuel
    | optional _ _ => exact optional_complete ih h hfuel
    | declarations _ => exact declarations_complete ih h hfuel
    | items _ => exact items_complete ih h hfuel

end

variable {script : List Char}

-- Reading a text succeeds if its tokens can be read to the end of what the reader wants.
theorem run_eq_ok {α : Type} {reader : List Char → Nat → Parser α} {value : α} :
    run reader script = .ok value ↔
      (Stream.ofText script).Intact ∧
        ∃ t, (reader script (8 * ((Stream.ofText script).length + 1))).run (Stream.ofText script) =
          .ok value t := by
  unfold run
  split
  · next error he => simp [he, Stream.Intact]
  · next he =>
    have hi : (Stream.ofText script).Intact := by
      cases hs : Stream.ofText script with
      | broken error => exact absurd hs (he error)
      | next _ _ => trivial
      | done _ => trivial
    cases hr : (reader script (8 * ((Stream.ofText script).length + 1))).run
        (Stream.ofText script) with
    | ok first t => simp [hi]
    | refused error => simp
    | spent => simp

end ScriptEngine.Grammar

namespace ScriptEngine

open Grammar

-- A text spells a program exactly if its statements can be derived up to its end.
theorem Program.read_eq_ok {script : String} {program : Program} :
    Program.read script = .ok program ↔
      (Stream.ofText script.toList).Intact ∧
        program.offset = (Stream.ofText script.toList).offset ∧
        ∃ t, Derives script.toList (.items program.body) (Stream.ofText script.toList) t := by
  rw [Program.read, run_eq_ok]
  refine and_congr_right fun _ => ?_
  constructor
  · rintro ⟨t, h⟩
    simp only [Grammar.program, Parser.run_here_bind, Parser.bind_eq_ok, Parser.run_pure,
      Parsed.ok.injEq] at h
    obtain ⟨body, _, hb, rfl, rfl⟩ := h
    exact ⟨rfl, _, Gives.derives (.items body) hb⟩
  · rintro ⟨ho, t, h⟩
    refine ⟨t, ?_⟩
    simp only [Grammar.program, Parser.run_here_bind, Parser.bind_eq_ok, Parser.run_pure,
      Parsed.ok.injEq]
    refine ⟨program.body, t, h.gives (by grind), ?_, rfl⟩
    rw [← ho]

-- A text spells an expression exactly if it can be derived up to its end or to a last semicolon.
theorem Expr.read_eq_ok {script : String} {value : Expr} :
    Expr.read script = .ok value ↔
      (Stream.ofText script.toList).Intact ∧
        ∃ s t, Derives script.toList (.expression value) (Stream.ofText script.toList) s ∧
          s.Closes t ∧ t.token? = none := by
  rw [Expr.read, run_eq_ok]
  refine and_congr_right fun _ => ?_
  simp only [wholeExpression, Parser.bind_eq_ok, Parser.acceptSymbol_eq_ok,
    Parser.expectEnd_eq_ok, Parser.run_pure, Parsed.ok.injEq]
  constructor
  · rintro ⟨t, first, s, hv, found, a, ha, -, b, ⟨hb, rfl⟩, rfl, rfl⟩
    refine ⟨s, a, Gives.derives (.expression first) hv, ?_, hb⟩
    obtain ⟨-, ha⟩ | ⟨-, -, rfl⟩ := ha
    · exact .inr ha
    · exact .inl ⟨hb, rfl⟩
  · rintro ⟨s, t, hv, ⟨hs, rfl⟩ | hs, ht⟩
    · exact ⟨_, value, _, hv.gives (by grind), false, _, .inr ⟨rfl, by simp [hs], rfl⟩, (), _,
        ⟨ht, rfl⟩, rfl, rfl⟩
    · exact ⟨_, value, _, hv.gives (by grind), true, _, .inl ⟨rfl, hs⟩, (), _, ⟨ht, rfl⟩, rfl, rfl⟩

end ScriptEngine
