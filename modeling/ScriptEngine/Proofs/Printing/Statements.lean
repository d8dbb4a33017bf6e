import ScriptEngine.Proofs.Printing.Expressions

-- Reading canonical statements and functions. A statement ends before any token but `else`, which
-- no canonical statement starts with; a block ends before that as well.

namespace ScriptEngine

open Grammar
open ScriptEngine.Stream (Reads reads_append)
open Token (enclosed braced separated names)

variable {script : List Char} {s t : Stream}

-- The tokens of a statement give it back unless an `else` follows it that it might take.
def Stmt.Returns (script : List Char) (statement : Stmt) : Prop :=
  ∀ ⦃s t⦄, Reads statement.tokens s t →
    (statement.isBlock ∨ t.token? ≠ some (.keyword .elseWord)) →
    ∃ found, Derives script (.statement found) s t ∧ found.Alike statement

def Function.Returns (script : List Char) (literal : Function) : Prop :=
  ∀ ⦃s t⦄, Reads literal.tokens s t →
    ∃ a found, s.Passes (.keyword .functionWord) a ∧ Derives script (.function found) a t ∧
      found.Alike literal

-- A token that a statement can start with, as far as it matters here.
def startsStatement : Option Token → Bool
  | none | some (.symbol .rightBrace) | some (.keyword .elseWord) => false
  | _ => true

theorem Function.passes_tokens {literal : Function} (h : Reads literal.tokens s t) :
    s.token? = some (.keyword .functionWord) := by
  cases literal
  simp only [Function.tokens, List.cons_append, Reads] at h
  obtain ⟨a, hp, -⟩ := h
  exact hp.token?

theorem Expr.passes_declared {value : Expr} {tokens : List Token}
    (h : value.declared? = some tokens) (hr : Reads tokens s t) :
    s.token? = some (.keyword .functionWord) := by
  unfold Expr.declared? at h
  split at h
  · next literal =>
    split at h
    · cases h
      exact Function.passes_tokens hr
    · cases h
  · cases h

namespace Stmt

theorem startsStatement_tokens {statement : Stmt} (h : Reads statement.tokens s t) :
    startsStatement s.token? := by
  cases statement with
  | loop offset initial test step body testLast =>
    cases initial <;> cases testLast <;> simp only [Stmt.tokens, List.cons_append, Reads] at h <;>
      obtain ⟨a, hp, -⟩ := h <;> rw [hp.token?] <;> rfl
  | expression value =>
    rw [Stmt.tokens] at h
    cases hd : value.declared? with
    | some tokens =>
      rw [hd, Option.getD_some] at h
      rw [Expr.passes_declared hd h]
      rfl
    | none =>
      rw [hd, Option.getD_none, enclosed] at h
      obtain ⟨a, hp, -⟩ := h
      rw [hp.token?]
      rfl
  | _ =>
    simp only [Stmt.tokens, braced, List.cons_append, Reads] at h
    obtain ⟨a, hp, -⟩ := h
    rw [hp.token?]
    rfl

-- Statements one after another, for a phrase that takes them one by one.
theorem body_return {phrase : List Stmt → Phrase} {body : List Stmt}
    (h : ∀ statement ∈ body, Returns script statement) (hnil : Derives script (phrase []) t t)
    (hcons : ∀ {first rest s a}, startsStatement s.token? → Derives script (.statement first) s a →
      Derives script (phrase rest) a t → Derives script (phrase (first :: rest)) s t)
    (ht : t.token? ≠ some (.keyword .elseWord)) (hr : Reads (tokensOfAll body) s t) :
    ∃ found, Derives script (phrase found) s t ∧
      relabelAll .erasing found = relabelAll .erasing body := by
  induction body generalizing s with
  | nil =>
    simp only [tokensOfAll, Reads] at hr
    subst hr
    exact ⟨[], hnil, rfl⟩
  | cons first rest ih =>
    rw [List.forall_mem_cons] at h
    simp only [tokensOfAll, reads_append] at hr
    obtain ⟨a, hf, hrest⟩ := hr
    -- The next statement, or the end, is no `else`.
    have ha : a.token? ≠ some (.keyword .elseWord) := by
      cases rest with
      | nil =>
        simp only [tokensOfAll, Reads] at hrest
        rwa [hrest]
      | cons second others =>
        simp only [tokensOfAll, reads_append] at hrest
        obtain ⟨b, hs, -⟩ := hrest
        have hstart := startsStatement_tokens hs
        intro he
        rw [he] at hstart
        cases hstart
    obtain ⟨found, hd, hal⟩ := h.1 hf (.inr ha)
    obtain ⟨others, hdo, hao⟩ := ih h.2 hrest
    exact ⟨found :: others, hcons (startsStatement_tokens hf) hd hdo, by simp [relabelAll, hal, hao]⟩

theorem block_return {body : List Stmt} (h : ∀ statement ∈ body, Returns script statement)
    (hr : Reads (braced (tokensOfAll body)) s t) :
    ∃ found : Block, Derives script (.block found) s t ∧
      relabelAll .erasing found.body = relabelAll .erasing body := by
  obtain ⟨a, b, hl, hb, hc⟩ := reads_braced.mp hr
  have hclose := hc.token?
  obtain ⟨found, hd, ha⟩ := body_return h (.noBlockItems hclose)
    (fun {first rest s a} hs hf hrest =>
      .moreBlockItems (by rintro he; rw [he] at hs; cases hs) (by rintro he; rw [he] at hs; cases hs)
        hf hrest)
    (by simp [hclose]) hb
  exact ⟨_, .block hl hd hc, ha⟩

theorem block_returns {offset : Nat} {body : List Stmt}
    (h : ∀ statement ∈ body, Returns script statement) : Returns script (.block offset body) := by
  intro s t hr _
  rw [Stmt.tokens] at hr
  obtain ⟨found, hd, ha⟩ := block_return h hr
  obtain ⟨a, b, hl, -, -⟩ := reads_braced.mp hr
  refine ⟨_, .blockStatement hl.token? hd, ?_⟩
  simp [Alike, Stmt.relabel, ha]

-- Only a block starts with a brace.
theorem derives_block {found : Stmt} (hd : Derives script (.statement found) s t)
    (hs : s.token? = some (.symbol .leftBrace)) :
    ∃ block : Block, Derives script (.block block) s t ∧
      found = .block block.offset block.body := by
  cases hd with
  | blockStatement _ hd => exact ⟨_, hd, rfl⟩
  | jump jump hp _ => cases jump <;> grind
  | expressionStatement he _ _ =>
    rw [hs] at he
    cases he
  | _ => grind

theorem Returns.block {body : Stmt} (h : Returns script body) (hb : body.isBlock)
    (hr : Reads body.tokens s t) :
    ∃ found : Block, Derives script (.block found) s t ∧
      (Stmt.block found.offset found.body).Alike body := by
  cases body with
  | block offset body =>
    obtain ⟨_, hd, ha⟩ := h hr (.inl hb)
    rw [Stmt.tokens] at hr
    obtain ⟨a, b, hl, -, -⟩ := reads_braced.mp hr
    obtain ⟨found, hf, rfl⟩ := derives_block hd hl.token?
    exact ⟨found, hf, ha⟩
  | _ => cases hb

theorem empty_returns {offset : Nat} : Returns script (.empty offset) := by
  intro s t hr _
  simp only [Stmt.tokens, Reads] at hr
  obtain ⟨a, hp, rfl⟩ := hr
  exact ⟨_, .empty hp, rfl⟩

theorem jump_returns (jump : Jump) {offset : Nat} : Returns script (jump.statement offset) := by
  intro s t hr _
  have hr : Reads [.keyword jump.word, .symbol .semicolon] s t := by
    cases jump <;> simpa only [Jump.statement, Stmt.tokens, Jump.word] using hr
  obtain ⟨a, hp, b, hc, rfl⟩ := hr
  exact ⟨_, .jump jump hp (.inr hc), by cases jump <;> rfl⟩

theorem branch_returns {offset : Nat} {test : Expr} {yes : Stmt} {no : Option Stmt}
    (htest : test.Returns script) (hb : yes.isBlock) (hyes : Returns script yes)
    (hno : ∀ other, no = some other → Returns script other) :
    Returns script (.branch offset test yes no) := by
  intro s t hr hend
  have ht : t.token? ≠ some (.keyword .elseWord) := hend.resolve_left (by simp [isBlock])
  simp only [Stmt.tokens, List.cons_append, Reads, reads_append] at hr
  obtain ⟨a, hif, e, ⟨d, htr, hyr⟩, hnr⟩ := hr
  obtain ⟨b, c, hl, htr, hc⟩ := reads_enclosed.mp htr
  obtain ⟨condition, hdt, hat⟩ := htest.expression htr (endsOperand_closing hc.token? (by simp))
  obtain ⟨first, hdy, hay⟩ := hyes hyr (.inl hb)
  cases no with
  | none =>
    simp only [tokensOfElse, Reads] at hnr
    subst hnr
    refine ⟨_, .branch hif hl hdt hc hdy ht, ?_⟩
    simp [Alike, Stmt.relabel, hat, hay]
  | some other =>
    simp only [tokensOfElse, Reads] at hnr
    obtain ⟨f, helse, hor⟩ := hnr
    obtain ⟨second, hdo, hao⟩ := hno other rfl hor (.inr ht)
    refine ⟨_, .branchElse hif hl hdt hc hdy helse hdo, ?_⟩
    simp [Alike, Stmt.relabel, hat, hay, hao]

theorem declare_returns {offset : Nat} {name : String} {initial : Option Expr}
    (h : ∀ value, initial = some value → value.Returns script) :
    Returns script (.declare offset name initial) := by
  intro s t hr _
  simp only [Stmt.tokens, List.cons_append, Reads, reads_append] at hr
  obtain ⟨a, hvar, b, hname, c, hi, d, hend, rfl⟩ := hr
  have hword : Keyword.varWord ∈ [Keyword.varWord, .letWord, .constWord] := by simp
  cases initial with
  | none =>
    simp only [Expr.tokensOfInitial, Reads] at hi
    subst hi
    refine ⟨_, .declare hword hvar (.declaration hname ?_ ?_ (.inr hend)), ?_⟩
    · simp [hend.token?]
    · simp [hend.token?]
    · simp [Alike, Stmt.relabel]
  | some value =>
    simp only [Expr.tokensOfInitial, Reads] at hi
    obtain ⟨e, hassign, hv⟩ := hi
    obtain ⟨found, hd, ha⟩ := (h value rfl).expression hv (endsOperand_closing hend.token? (by simp))
    refine ⟨_, .declare hword hvar (.declarationValue hname hassign hd ?_ (.inr hend)), ?_⟩
    · simp [hend.token?]
    · simp [Alike, Stmt.relabel, ha]

theorem giveBack_returns {offset : Nat} {value : Option Expr}
    (h : ∀ inner, value = some inner → inner.Returns script) :
    Returns script (.giveBack offset value) := by
  intro s t hr _
  simp only [Stmt.tokens, List.cons_append, Reads, reads_append] at hr
  obtain ⟨a, hreturn, b, hv, c, hend, rfl⟩ := hr
  cases value with
  | none =>
    simp only [Expr.tokensOfOption, Reads] at hv
    subst hv
    exact ⟨_, .giveNothing hreturn hend, rfl⟩
  | some inner =>
    simp only [Expr.tokensOfOption] at hv
    obtain ⟨found, hd, ha⟩ := (h inner rfl).expression hv (endsOperand_closing hend.token? (by simp))
    obtain ⟨d, e, hl, -, -⟩ := reads_enclosed.mp hv
    refine ⟨_, .giveBackClosed hreturn ?_ ?_ hd hend, ?_⟩
    · simp [hl.token?]
    · rw [hl.token?]
      rfl
    · simp [Alike, Stmt.relabel, ha]

theorem whileLoop_returns {offset : Nat} {test : Expr} {body : Stmt} (htest : test.Returns script)
    (hb : body.isBlock) (hbody : Returns script body) :
    Returns script (.loop offset none (some test) none body false) := by
  intro s t hr _
  simp only [Stmt.tokens, Expr.tokensOfOption, List.cons_append, Reads, reads_append] at hr
  obtain ⟨a, hwhile, d, htr, hbr⟩ := hr
  obtain ⟨b, c, hl, htr, hc⟩ := reads_enclosed.mp htr
  obtain ⟨condition, hdt, hat⟩ := htest.expression htr (endsOperand_closing hc.token? (by simp))
  obtain ⟨found, hdb, hab⟩ := hbody hbr (.inl hb)
  refine ⟨_, .whileLoop hwhile hl hdt hc hdb, ?_⟩
  simp [Alike, Stmt.relabel, hat, hab]

theorem doLoop_returns {offset : Nat} {test : Expr} {body : Stmt} (htest : test.Returns script)
    (hb : body.isBlock) (hbody : Returns script body) :
    Returns script (.loop offset none (some test) none body true) := by
  intro s t hr _
  simp only [Stmt.tokens, Expr.tokensOfOption, List.cons_append, Reads, reads_append] at hr
  obtain ⟨a, hdo, f, ⟨b, hbr, c, hwhile, htr⟩, g, hend, rfl⟩ := hr
  obtain ⟨d, e, hl, htr, hc⟩ := reads_enclosed.mp htr
  obtain ⟨found, hdb, hab⟩ := hbody.block hb hbr
  obtain ⟨condition, hdt, hat⟩ := htest.expression htr (endsOperand_closing hc.token? (by simp))
  refine ⟨_, .doLoop hdo hdb hwhile hl hdt hc (.inr hend), ?_⟩
  simp only [Alike, Stmt.relabel, Relabelling.erasing_offset] at hab
  simp [Alike, Stmt.relabel, hat, hab]

-- A part of a `for` head, with the symbol that closes it.
theorem optional_return {closing : Symbol} {value : Option Expr}
    (h : ∀ inner, value = some inner → inner.Returns script)
    (hc : closing = .semicolon ∨ closing = .rightParen)
    (hr : Reads (Expr.tokensOfOption value) s t) {u : Stream} (hp : t.Passes (.symbol closing) u) :
    ∃ found, Derives script (.optional closing found) s u ∧
      found.map (Expr.relabel .erasing) = value.map (Expr.relabel .erasing) := by
  cases value with
  | none =>
    simp only [Expr.tokensOfOption, Reads] at hr
    subst hr
    exact ⟨none, .noOption hp, rfl⟩
  | some inner =>
    have hend : endsOperand t.token? :=
      endsOperand_closing hp.token? (by obtain rfl | rfl := hc <;> simp)
    obtain ⟨found, hd, ha⟩ := (h inner rfl).expression hr hend
    obtain ⟨a, b, hl, -, -⟩ := reads_enclosed.mp hr
    refine ⟨some found, .someOption ?_ hd hp, by simp [ha]⟩
    rw [hl.token?]
    obtain rfl | rfl := hc <;> simp

theorem forLoop_returns {offset : Nat} {initial : Stmt} {test step : Option Expr} {body : Stmt}
    (hinitial : Returns script initial) (htest : ∀ inner, test = some inner → inner.Returns script)
    (hstep : ∀ inner, step = some inner → inner.Returns script) (hb : body.isBlock)
    (hbody : Returns script body) :
    Returns script (.loop offset (some initial) test step body false) := by
  intro s t hr _
  simp only [Stmt.tokens, List.cons_append, Reads, reads_append] at hr
  obtain ⟨a, hfor, h, hhead, hbr⟩ := hr
  obtain ⟨b, g, hl, hhead, hc⟩ := reads_enclosed.mp hhead
  simp only [Reads, reads_append] at hhead
  obtain ⟨d, ⟨c, hir, htr⟩, e, hsemi, hsr⟩ := hhead
  -- Behind the initial statement stands a parenthesis or the semicolon of an empty test.
  have hstart : c.token? ≠ some (.keyword .elseWord) := by
    cases test with
    | none =>
      simp only [Expr.tokensOfOption, Reads] at htr
      simp [htr, hsemi.token?]
    | some inner =>
      simp only [Expr.tokensOfOption] at htr
      obtain ⟨_, _, hp, -, -⟩ := reads_enclosed.mp htr
      simp [hp.token?]
  obtain ⟨first, hdi, hai⟩ := hinitial hir (.inr hstart)
  obtain ⟨condition, hdt, hat⟩ := optional_return htest (.inl rfl) htr hsemi
  obtain ⟨update, hds, has⟩ := optional_return hstep (.inr rfl) hsr hc
  obtain ⟨found, hdb, hab⟩ := hbody hbr (.inl hb)
  refine ⟨_, .forLoop hfor hl hdi hdt hds hdb, ?_⟩
  simp only [Alike, relabel_loop, Option.map_some, hai, hat, has, hab]
  rfl

theorem expression_returns {value : Expr} (h : value.Returns script) (hd : value.declared? = none) :
    Returns script (.expression value) := by
  intro s t hr _
  simp only [Stmt.tokens, hd, Option.getD_none, Reads, reads_append] at hr
  obtain ⟨a, hv, b, hend, rfl⟩ := hr
  obtain ⟨found, hd, ha⟩ := h.expression hv (endsOperand_closing hend.token? (by simp))
  obtain ⟨c, d, hl, -, -⟩ := reads_enclosed.mp hv
  refine ⟨_, .expressionStatement ?_ hd (.inr hend), ?_⟩
  · rw [hl.token?]
    rfl
  · simp [Alike, Stmt.relabel, ha]

theorem declared_returns {offset place spot : Nat} {name : String} {literal : Function}
    (h : literal.Returns script) (hn : literal.name = some name) :
    Returns script (.expression (.assign offset (.identifier place name) (.function spot literal))) := by
  intro s t hr _
  simp only [Stmt.tokens, Expr.declared?, hn, Option.isSome_some, if_true, Option.getD_some] at hr
  obtain ⟨a, found, hp, hd, ha⟩ := h hr
  have hname : found.name = some name := by
    have := congrArg Function.name ha
    rwa [Function.relabel_name, Function.relabel_name, hn] at this
  refine ⟨_, .functionStatement hp hd hname, ?_⟩
  simp [Alike, Stmt.relabel, Expr.relabel, ha]

end Stmt

namespace Function

theorem parameters_read {list : List String} (h : Reads (names list) s t)
    (ht : t.token? = some (.symbol .rightParen)) : Derives script (.parameters list) s t := by
  induction list generalizing s with
  | nil =>
    simp only [names, List.map_nil, separated, Reads] at h
    subst h
    exact .noParameters ht
  | cons name rest ih =>
    cases rest with
    | nil =>
      simp only [names, List.map_cons, List.map_nil, separated, Reads] at h
      obtain ⟨a, hp, rfl⟩ := h
      exact .lastParameter hp ht
    | cons next others =>
      simp only [names, List.map_cons, separated, List.cons_append, List.nil_append, Reads] at h
      obtain ⟨a, hp, b, hcomma, hrest⟩ := h
      exact .moreParameters hp hcomma (ih (by simpa only [names, List.map_cons] using hrest))

theorem mk_returns {name : Option String} {parameters : List String} {offset : Nat}
    {body : List Stmt} {source : String} (h : ∀ statement ∈ body, statement.Returns script) :
    Returns script (.mk name parameters offset body source) := by
  intro s t hr
  simp only [Function.tokens, List.cons_append, Reads, reads_append] at hr
  obtain ⟨a, hfunction, e, ⟨b, hname, hparams⟩, hbody⟩ := hr
  obtain ⟨c, d, hl, hparams, hc⟩ := reads_enclosed.mp hparams
  have hdp : Derives script (.parameters parameters) c d := parameters_read hparams hc.token?
  obtain ⟨block, hdb, hab⟩ := Stmt.block_return h hbody
  cases name with
  | none =>
    simp only [Option.map_none, Option.toList_none, Reads] at hname
    subst hname
    refine ⟨a, _, hfunction, .unnamed hl hdp hc hdb, ?_⟩
    simp [Alike, Function.relabel, hab]
  | some name =>
    simp only [Option.map_some, Option.toList_some, Reads] at hname
    obtain ⟨_, hname, rfl⟩ := hname
    refine ⟨a, _, hfunction, .named hname hl hdp hc hdb, ?_⟩
    simp [Alike, Function.relabel, hab]

end Function

-- A function without a name is an operand.
theorem Expr.function_returns {offset : Nat} {literal : Function} (h : literal.Returns script)
    (hn : literal.name = none) : Expr.Returns script (.function offset literal) := by
  intro s t hr ht
  rw [Expr.tokens] at hr
  obtain ⟨a, found, hp, hd, ha⟩ := h hr
  have hname : found.name = none := by
    have := congrArg Function.name ha
    rwa [Function.relabel_name, Function.relabel_name, hn] at this
  refine ⟨_, derives_primary (.lambda hp hd hname (noSuffix_rightParen ht)) ?_ ht, ?_⟩
  · rw [hp.token?]
    rfl
  · simp [Alike, Expr.relabel, ha]

end ScriptEngine
