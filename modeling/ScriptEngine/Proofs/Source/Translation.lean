import ScriptEngine.Proofs.Lexing.Place
import ScriptEngine.Proofs.Reading.Relabelling

-- Derivations carried from one text to another. When the tokens up to a goal are the same in both
-- texts, what is derived in front of the goal is derived in the other text as well, with every
-- offset and every recorded source replaced.

namespace ScriptEngine.Grammar

open ScriptEngine.Stream (Leads)

def Block.relabel (r : Relabelling) (block : Block) : Block :=
  ⟨r.offset block.offset, Stmt.relabelAll r block.body, r.offset block.stop⟩

def Phrase.relabel (r : Relabelling) : Phrase → Phrase
  | .expression value => .expression (value.relabel r)
  | .links operands => .links (operands.map (Link.relabel r))
  | .unary value => .unary (value.relabel r)
  | .primary value => .primary (value.relabel r)
  | .suffixes target value => .suffixes (target.relabel r) (value.relabel r)
  | .expressions closing values => .expressions closing (Expr.relabelAll r values)
  | .entries pairs => .entries (Expr.relabelEntries r pairs)
  | .parameters names => .parameters names
  | .pathTail names => .pathTail names
  | .function literal => .function (literal.relabel r)
  | .block braces => .block (braces.relabel r)
  | .blockItems body => .blockItems (Stmt.relabelAll r body)
  | .statement item => .statement (item.relabel r)
  | .optional closing value => .optional closing (value.map (Expr.relabel r))
  | .declarations item => .declarations (item.relabel r)
  | .items body => .items (Stmt.relabelAll r body)

-- A map of streams that keeps the tokens up to the goal, and the sources from the origin on.
structure Translation (script other : List Char) (origin goal : Stream) (r : Relabelling)
    (move : Stream → Stream) : Prop where
  token {s : Stream} : Leads s goal → (move s).token? = s.token?
  offset {s : Stream} : Leads s goal → (move s).offset = r.offset s.offset
  stop {s : Stream} : Leads s goal → (move s).stop = r.offset s.stop
  passes {s a : Stream} {token : Token} : s.Passes token a → Leads a goal →
    (move s).Passes token (move a)
  source {s a : Stream} : Leads origin s → Leads s a → Leads a goal →
    String.ofList (Text.slice other (move s).offset (move a).stop) =
      r.source (String.ofList (Text.slice script s.offset a.stop))

variable {script other : List Char} {origin goal : Stream} {r : Relabelling} {move : Stream → Stream}

theorem Translation.closes (h : Translation script other origin goal r move) {s t : Stream}
    (hc : s.Closes t) (ht : Leads t goal) : (move s).Closes (move t) := by
  obtain ⟨hn, rfl⟩ | hp := hc
  · exact .inl ⟨by rw [h.token ht, hn], rfl⟩
  · exact .inr (h.passes hp ht)

section

variable {offset : Nat}

theorem Atom.expr_relabel (atom : Atom) :
    (atom.expr offset).relabel r = atom.expr (r.offset offset) := by
  cases atom <;> simp [Atom.expr, Expr.relabel]

theorem Sign.apply_relabel (sign : Sign) {operand : Expr} :
    (sign.apply offset operand).relabel r = sign.apply (r.offset offset) (operand.relabel r) := by
  cases sign <;> simp [Sign.apply, integer, Expr.relabel]

theorem Jump.statement_relabel (jump : Jump) :
    (jump.statement offset).relabel r = jump.statement (r.offset offset) := by
  cases jump <;> simp [Jump.statement, Stmt.relabel]

theorem increment_relabel {operator : BinaryOp} {target : Expr} {givesOld : Bool} :
    (increment offset operator target givesOld).relabel r =
      increment (r.offset offset) operator (target.relabel r) givesOld := by
  simp [increment, integer, Expr.relabel]

end

-- A block ends with the token that its closing brace is.
theorem Derives.block_stop {block : Block} {s t : Stream} (h : Derives script (.block block) s t) :
    ∃ a, Leads s a ∧ Leads a t ∧ a.stop = block.stop := by
  cases h with
  | block hl hb hc => exact ⟨_, hl.leads.trans hb.leads, hc.leads, rfl⟩

-- The recorded source of a function goes over with its block.
theorem Translation.block_source (h : Translation script other origin goal r move) {block : Block}
    {s a t : Stream} (hs : Leads origin s) (ha : Leads s a)
    (hb : Derives script (.block block) a t) (ht : Leads t goal) :
    r.source (String.ofList (Text.slice script s.offset block.stop)) =
      String.ofList (Text.slice other (move s).offset (block.relabel r).stop) := by
  obtain ⟨b, hab, hbt, hstop⟩ := hb.block_stop
  have hgoal := hbt.trans ht
  rw [Block.relabel, ← hstop, ← h.stop hgoal, h.source hs (ha.trans hab) hgoal]

-- Derivations go over to the other text.
theorem Translation.derives (h : Translation script other origin goal r move) {phrase : Phrase}
    {s t : Stream} (hd : Derives script phrase s t) (hs : Leads origin s) (ht : Leads t goal) :
    Derives other (phrase.relabel r) (move s) (move t) := by
  have hpasses := @h.passes
  have hcloses := @h.closes
  have htoken := @h.token
  have hoffset := @h.offset
  -- Every stream of a rule lies between the ends of its conclusion. The rules with a block are
  -- those that record where it ends.
  induction hd with
  | unnamed hl hp hc hb ihp ihb =>
    have hblock := hb.leads.trans ht
    have hparen := hc.leads.trans hblock
    have hnames := hs.trans hl.leads
    have hbody := hnames.trans (hp.leads.trans hc.leads)
    have hfunction := Derives.unnamed (h.passes hl (hp.leads.trans hparen)) (ihp hnames hparen)
      (h.passes hc hblock) (ihb hbody ht)
    rw [Phrase.relabel, Function.relabel,
      h.block_source hs (hl.leads.trans (hp.leads.trans hc.leads)) hb ht]
    exact hfunction
  | named hn hl hp hc hb ihp ihb =>
    have hblock := hb.leads.trans ht
    have hparen := hc.leads.trans hblock
    have hopen := hp.leads.trans hparen
    have hnames := hs.trans (hn.leads.trans hl.leads)
    have hbody := hnames.trans (hp.leads.trans hc.leads)
    have hfunction := Derives.named (h.passes hn (hl.leads.trans hopen)) (h.passes hl hopen)
      (ihp hnames hparen) (h.passes hc hblock) (ihb hbody ht)
    rw [Phrase.relabel, Function.relabel,
      h.block_source hs (hn.leads.trans (hl.leads.trans (hp.leads.trans hc.leads))) hb ht]
    exact hfunction
  | block hl hb hc ihb =>
    have hend := hc.leads.trans ht
    have hopen := hb.leads.trans hend
    have hblock := Derives.block (h.passes hl hopen) (ihb (hs.trans hl.leads) hend) (h.passes hc ht)
    rw [h.offset (hl.leads.trans hopen), h.stop hend] at hblock
    exact hblock
  | blockStatement hl hb ihb =>
    refine .blockStatement ?_ (ihb hs ht)
    rw [h.token (hb.leads.trans ht), hl]
  | doLoop hdo hb hw hl he hc hend ihb ihe =>
    have hparen := hend.leads.trans ht
    have htest := hc.leads.trans hparen
    have hopen := he.leads.trans htest
    have hword := hl.leads.trans hopen
    have hblock := hw.leads.trans hword
    have hbody := hs.trans hdo.leads
    have hcondition := hbody.trans (hb.leads.trans (hw.leads.trans hl.leads))
    have hloop := Derives.doLoop (h.passes hdo (hb.leads.trans hblock)) (ihb hbody hblock)
      (h.passes hw hword) (h.passes hl hopen) (ihe hcondition htest) (h.passes hc hparen)
      (h.closes hend ht)
    rw [h.offset (hdo.leads.trans (hb.leads.trans hblock))] at hloop
    simpa only [Phrase.relabel, Stmt.relabel, Block.relabel] using hloop
  | forLoop hf hl hi he hp hb ihi ihe ihp ihb =>
    have hbody := hb.leads.trans ht
    have hstep := hp.leads.trans hbody
    have htest := he.leads.trans hstep
    have hopen := hi.leads.trans htest
    have hinitial := hs.trans (hf.leads.trans hl.leads)
    have hcondition := hinitial.trans hi.leads
    have hupdate := hcondition.trans he.leads
    have hloop := Derives.forLoop (h.passes hf (hl.leads.trans hopen)) (h.passes hl hopen)
      (ihi hinitial htest) (ihe hcondition hstep) (ihp hupdate hbody)
      (ihb (hupdate.trans hp.leads) ht)
    rw [h.offset (hf.leads.trans (hl.leads.trans hopen))] at hloop
    simpa only [Phrase.relabel, Stmt.relabel_loop, Option.map_some] using hloop
  | _ =>
    simp only [Phrase.relabel, Expr.relabel, Expr.relabelAll, Expr.relabelEntries, Stmt.relabel,
      Stmt.relabelAll, List.map_cons, List.map_nil, Chain.group_relabel, Chain.relabel,
      Option.map_some, Option.map_none, Link.relabel, Atom.expr_relabel, Sign.apply_relabel,
      Jump.statement_relabel, increment_relabel] at *
    grind [intro Derives, Function.relabel_name]

end ScriptEngine.Grammar

namespace ScriptEngine

open Grammar

-- Relabels the tokens in front of the goal and goes on elsewhere from there.
def Stream.redirect (r : Relabelling) (goal landing : Stream) : Stream → Stream
  | .next lexeme rest =>
    if rest.length < goal.length then landing
    else .next ⟨lexeme.token, r.offset lexeme.start, r.offset lexeme.stop⟩
      (redirect r goal landing rest)
  | _ => landing

namespace Stream

variable {r : Relabelling} {goal landing : Stream}

theorem redirect_goal (hgoal : 0 < goal.length) : redirect r goal landing goal = landing := by
  cases goal with
  | next lexeme rest => simp [redirect, length]
  | _ => cases hgoal

theorem redirect_next {lexeme : Lexeme} {rest : Stream} (h : Leads rest goal) :
    redirect r goal landing (.next lexeme rest) =
      .next ⟨lexeme.token, r.offset lexeme.start, r.offset lexeme.stop⟩
        (redirect r goal landing rest) := by
  rw [redirect, if_neg (Nat.not_lt.mpr h.length_le)]

-- The landing takes the place of the goal.
structure Lands (r : Relabelling) (goal landing : Stream) : Prop where
  token : landing.token? = goal.token?
  offset : landing.offset = r.offset goal.offset
  stop : landing.stop = r.offset goal.stop
  nonempty : 0 < goal.length
  intact : landing.Intact

theorem redirect_translation {script other : List Char} {origin : Stream} (h : Lands r goal landing)
    (hsource : ∀ s a, Leads origin s → Leads s a → Leads a goal →
      String.ofList (Text.slice other (r.offset s.offset) (r.offset a.stop)) =
        r.source (String.ofList (Text.slice script s.offset a.stop))) :
    Translation script other origin goal r (redirect r goal landing) := by
  have htoken {s : Stream} (hs : Leads s goal) :
      (redirect r goal landing s).token? = s.token? := by
    cases hs with
    | refl => rw [redirect_goal h.nonempty, h.token]
    | next hs => rw [redirect_next hs]; rfl
  have hoffset {s : Stream} (hs : Leads s goal) :
      (redirect r goal landing s).offset = r.offset s.offset := by
    cases hs with
    | refl => rw [redirect_goal h.nonempty, h.offset]
    | next hs => rw [redirect_next hs]; rfl
  have hstop {s : Stream} (hs : Leads s goal) :
      (redirect r goal landing s).stop = r.offset s.stop := by
    cases hs with
    | refl => rw [redirect_goal h.nonempty, h.stop]
    | next hs => rw [redirect_next hs]; rfl
  refine ⟨htoken, hoffset, hstop, ?_, ?_⟩
  · rintro s a token ⟨lexeme, rfl, rfl, -⟩ ha
    refine ⟨_, redirect_next ha, rfl, ?_⟩
    cases ha with
    | refl => rw [redirect_goal h.nonempty]; exact h.intact
    | next ha => rw [redirect_next ha]; trivial
  · intro s a hs ha hgoal
    rw [hoffset (ha.trans hgoal), hstop hgoal]
    exact hsource s a hs ha hgoal

end Stream

end ScriptEngine
