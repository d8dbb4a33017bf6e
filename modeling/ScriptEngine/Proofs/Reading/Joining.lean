import ScriptEngine.Proofs.Reading.Prolonging

-- Programs that follow each other. A semicolon on a line of its own keeps two texts apart: it
-- closes the last statement of the first if that was left open at the end, and is an empty
-- statement otherwise.

namespace ScriptEngine

open Text

namespace Token

def isSemicolon : Token → Bool
  | symbol .semicolon => true
  | _ => false

end Token

-- A function literal with a name, which only a statement can be.
def Expr.isNamed : Expr → Bool
  | function _ written => written.name.isSome
  | _ => false

-- The assignment that a function statement stands for.
def Expr.declaresFunction : Expr → Bool
  | assign _ _ value => value.isNamed
  | _ => false

-- Whether the statement has a semicolon at its end, unless it was left out at the end of the input.
-- A block at the offset of its first name is a chain of declarations; braces start before what they
-- hold.
def Stmt.takesSemicolon : Stmt → Bool
  | empty _ => false
  | block offset (declare first _ _ :: _) => first = offset
  | block _ _ => false
  | branch _ _ yes none => yes.takesSemicolon
  | branch _ _ _ (some no) => no.takesSemicolon
  | loop _ _ _ _ body testLast => testLast || body.takesSemicolon
  | declare _ _ _ | giveBack _ _ | breakLoop _ | continueLoop _ => true
  | expression value => !value.declaresFunction

namespace Stream

-- The last token of the stream is a semicolon.
def endsInSemicolon : Stream → Bool
  | next lexeme rest =>
    if rest.token?.isSome then rest.endsInSemicolon else lexeme.token.isSemicolon
  | done _ | broken _ => false

variable {s a t : Stream} {token : Token}

theorem endsInSemicolon_of_token? (h : s.token? = none) : s.endsInSemicolon = false := by
  cases s with
  | next lexeme rest => cases h
  | _ => rfl

theorem Passes.endsInSemicolon (h : s.Passes token a) :
    s.endsInSemicolon = if a.token?.isSome then a.endsInSemicolon else token.isSemicolon := by
  obtain ⟨lexeme, rfl, rfl, -⟩ := h
  rfl

theorem Leads.endsInSemicolon (h : Leads s a) (ha : 0 < a.length) :
    s.endsInSemicolon = a.endsInSemicolon := by
  induction h with
  | refl => rfl
  | @next lexeme rest target hl ih =>
    have hrest : rest.token?.isSome :=
      Option.isSome_iff_ne_none.mpr (token?_ne_none_iff.mpr (Nat.lt_of_lt_of_le ha hl.length_le))
    rw [Stream.endsInSemicolon, if_pos hrest, ih ha]

theorem Passes.endsInSemicolon_eq (h : s.Passes token a) (ht : token.isSemicolon = false) :
    s.endsInSemicolon = a.endsInSemicolon := by
  rw [h.endsInSemicolon]
  split
  · rfl
  · next ha => rw [ht, endsInSemicolon_of_token? (by simpa using ha)]

-- Offsets grow from token to token.
theorem At.offset_lt {script : List Char} (h : s.At script) (hp : s.Passes token a) :
    s.offset < a.offset := by
  obtain ⟨lexeme, rfl, -, ha⟩ := hp
  exact Nat.lt_of_lt_of_le h.next.1 (h.stop_le_offset ha)

end Stream

-- Neither a function with a name nor a function statement.
def Expr.isAnonymous (value : Expr) : Bool :=
  !value.isNamed && !value.declaresFunction

theorem ChainOp.join_isAnonymous (operator : ChainOp) (offset : Nat) (left right : Expr) :
    (operator.join offset left right).isAnonymous := by
  cases operator <;> rfl

theorem Chain.group_isAnonymous {first : Expr} (links : List Link) (h : first.isAnonymous) :
    (Chain.group ⟨first, links⟩).isAnonymous := by
  have hgrouped := group_grouped ⟨first, links⟩
  generalize Chain.group ⟨first, links⟩ = tree at hgrouped ⊢
  cases hgrouped with
  | operand => exact h
  | joined => exact ChainOp.join_isAnonymous _ _ _ _

namespace Stream

variable {r : Relabelling} {s a : Stream} {token : Token}

@[simp] theorem token?_relabel : (s.relabel r).token? = s.token? := by
  cases s <;> rfl

@[simp] theorem offset_relabel : (s.relabel r).offset = r.offset s.offset := by
  cases s <;> rfl

@[simp] theorem stop_relabel : (s.relabel r).stop = r.offset s.stop := by
  cases s <;> rfl

theorem Passes.intact (h : s.Passes token a) : s.Intact := by
  obtain ⟨_, rfl, -, -⟩ := h
  trivial

theorem Intact.relabel (h : s.Intact) : (s.relabel r).Intact := by
  cases s <;> exact h

theorem Passes.relabel (h : s.Passes token a) : (s.relabel r).Passes token (a.relabel r) := by
  obtain ⟨lexeme, rfl, rfl, ha⟩ := h
  exact ⟨_, rfl, rfl, ha.relabel⟩

end Stream

namespace Grammar

open ScriptEngine.Stream (Leads)

variable {script : List Char} {phrase : Phrase} {s t : Stream}

-- What an expression spells names no function by itself.
def Phrase.Anonymous : Phrase → Prop
  | expression value | unary value | primary value => value.isAnonymous
  | suffixes target value => target.isAnonymous → value.isAnonymous
  | _ => True

theorem Derives.anonymous (h : Derives script phrase s t) : phrase.Anonymous := by
  induction h with
  | chain _ _ _ ih _ => exact Chain.group_isAnonymous _ ih
  | assign _ _ _ _ _ _ ih =>
    have hv : Expr.isAnonymous _ := ih
    simp_all [Phrase.Anonymous, Expr.isAnonymous, Expr.isNamed, Expr.declaresFunction]
  | signed sign => cases sign <;> rfl
  | atom atom _ _ ih => exact ih (by cases atom <;> rfl)
  | lambda _ _ hn _ _ ih =>
    exact ih (by simp [Expr.isAnonymous, Expr.isNamed, Expr.declaresFunction, hn])
  | parens _ _ _ _ ihi ih => exact ih ihi
  | dot _ _ _ ih | call _ _ _ _ _ ih | subscript _ _ _ _ _ ih | postfixed _ _ _ ih =>
    exact fun _ => ih rfl
  | object _ _ _ _ _ ih | array _ _ _ _ _ ih | construct _ _ _ _ _ _ _ _ _ ih
  | constructBare _ _ _ _ _ _ ih => exact ih rfl
  | unsigned _ _ ih => exact ih
  | noSuffix => exact id
  | _ => trivial

-- The phrases that end in a token of their own, which is no semicolon.
def Phrase.isOperand : Phrase → Bool
  | expression _ | links _ | unary _ | primary _ | suffixes _ _ | pathTail _ | function _
  | block _ => true
  | _ => false

theorem Derives.endsInSemicolon (h : Derives script phrase s t) (hp : phrase.isOperand)
    (ht : t.token? = none) : s.endsInSemicolon = false := by
  have hpasses {s a : Stream} {token : Token} (h : s.Passes token a)
      (htoken : token.isSemicolon = false) (ha : a.endsInSemicolon = false) :
      s.endsInSemicolon = false := by
    rw [h.endsInSemicolon, ha, htoken, ite_self]
  have hback {s a : Stream} (hl : Leads s a) (hpos : 0 < a.length)
      (ha : a.endsInSemicolon = false) : s.endsInSemicolon = false :=
    (hl.endsInSemicolon hpos).trans ha
  -- The operand in front is the last one if nothing is left for the one behind.
  have heither {s a : Stream} (hl : Leads s a) (hs : a.token? = none → s.endsInSemicolon = false)
      (ha : a.endsInSemicolon = false) : s.endsInSemicolon = false := by
    cases htoken : a.token? with
    | none => exact hs htoken
    | some token => exact hback hl (Stream.length_pos_of_token? htoken) ha
  have hatom (atom : Atom) : atom.token.isSemicolon = false := by
    rcases atom with _ | _ | ⟨⟨⟩⟩ | _ | _ | _ | _ <;> rfl
  have hsign (sign : Sign) : sign.token.isSemicolon = false := by cases sign <;> rfl
  have hbump (bump : Bump) : (Token.symbol bump.mark).isSemicolon = false := by cases bump <;> rfl
  have hlink {mark : Symbol} {operator : ChainOp} (h : ChainOp.ofSymbol? mark = some operator) :
      (Token.symbol mark).isSemicolon = false := by
    cases mark <;> first | rfl | cases h
  have hassign {mark : Symbol} {operator : BinaryOp}
      (h : BinaryOp.ofAssignment? mark = some operator) :
      (Token.symbol mark).isSemicolon = false := by
    cases mark <;> first | rfl | cases h
  induction h with
  | chain hf hl _ ihf ihl => exact heither hf.leads (ihf rfl) (ihl rfl ht)
  | ternary hf hl hq hy hc _ _ _ _ ihn =>
    exact hback (hf.leads.trans (hl.leads.trans (hq.leads.trans hy.leads))) hc.length_pos
      (hpasses hc rfl (ihn rfl ht))
  | assign hf hl hm _ _ _ ihv =>
    exact hback (hf.leads.trans hl.leads) hm.length_pos (hpasses hm rfl (ihv rfl ht))
  | update hf hl hm ho _ _ _ ihv =>
    exact hback (hf.leads.trans hl.leads) hm.length_pos (hpasses hm (hassign ho) (ihv rfl ht))
  | link hm ho hv _ ihv ihl =>
    exact hpasses hm (hlink ho) (heither hv.leads (ihv rfl) (ihl rfl ht))
  | signed sign hm _ ihv => exact hpasses hm (hsign sign) (ihv rfl ht)
  | bumped bump hm _ ihv => exact hpasses hm (hbump bump) (ihv rfl ht)
  | unsigned _ _ ihv => exact ihv rfl ht
  | atom atom hm _ ihx => exact hpasses hm (hatom atom) (ihx rfl ht)
  | parens hl hi hr _ _ ihx | object hl hi hr _ _ ihx | array hl hi hr _ _ ihx
  | call hl hi hr _ _ ihx | subscript hl hi hr _ _ ihx | unnamed hl hi hr _ _ ihx =>
    exact hback (hl.leads.trans hi.leads) hr.length_pos (hpasses hr rfl (ihx rfl ht))
  | lambda hw hf _ _ ihf ihx =>
    exact hpasses hw rfl (heither hf.leads (ihf rfl) (ihx rfl ht))
  | construct hw hn hm hl he hr _ _ _ ihx =>
    exact hback (hw.leads.trans (hn.leads.trans (hm.leads.trans (hl.leads.trans he.leads))))
      hr.length_pos (hpasses hr rfl (ihx rfl ht))
  | constructBare hw hn hm _ _ ihp ihx =>
    exact hpasses hw rfl (hpasses hn rfl (heither hm.leads (ihp rfl) (ihx rfl ht)))
  | dot hm hn _ ihx | pathStep hm hn _ ihx =>
    exact hpasses hm rfl (hpasses hn rfl (ihx rfl ht))
  | postfixed bump hm _ ihx => exact hpasses hm (hbump bump) (ihx rfl ht)
  | named hw hl hn hr _ _ ihb =>
    exact hback (hw.leads.trans (hl.leads.trans hn.leads)) hr.length_pos
      (hpasses hr rfl (ihb rfl ht))
  | block hl hb hr _ =>
    exact hback (hl.leads.trans hb.leads) hr.length_pos
      (hpasses hr rfl (Stream.endsInSemicolon_of_token? ht))
  | noLinks _ | noSuffix _ | pathEnd _ => exact Stream.endsInSemicolon_of_token? ht
  | _ => cases hp

theorem Derives.declarations_takesSemicolon {item : Stmt}
    (h : Derives script (.declarations item) s t) : item.takesSemicolon := by
  cases h with
  | declaration _ _ _ _ => rfl
  | declarationValue _ _ _ _ _ => rfl
  | moreDeclarations _ _ _ => simp [Stmt.takesSemicolon]
  | moreDeclarationsValue _ _ _ _ _ => simp [Stmt.takesSemicolon]

theorem Derives.expression_takesSemicolon {value : Expr}
    (h : Derives script (.expression value) s t) : (Stmt.expression value).takesSemicolon := by
  have hanonymous : value.isAnonymous := h.anonymous
  simp only [Expr.isAnonymous, Bool.and_eq_true] at hanonymous
  exact hanonymous.2

theorem functionStatement_takesSemicolon {offset : Nat} {target : Expr} {literal : Function}
    {name : String} (h : literal.name = some name) :
    (Stmt.expression (.assign offset target (.function offset literal))).takesSemicolon =
      false := by
  simp [Stmt.takesSemicolon, Expr.declaresFunction, Expr.isNamed, h]

theorem Jump.takesSemicolon (jump : Jump) (offset : Nat) :
    (jump.statement offset).takesSemicolon := by
  cases jump <;> rfl

theorem Derives.intact (h : Derives script phrase s t) (hs : s.Intact) : t.Intact := by
  have hpasses {s a : Stream} {token : Token} (h : s.Passes token a) : a.Intact := by
    obtain ⟨_, -, -, ha⟩ := h
    exact ha
  have hcloses {s a : Stream} (h : s.Closes a) (hs : s.Intact) : a.Intact := by
    obtain ⟨-, rfl⟩ | h := h
    · exact hs
    · exact hpasses h
  induction h with
  | _ => grind

theorem Derives.items_token? {body : List Stmt} (h : Derives script (.items body) s t) :
    t.token? = none := by
  generalize hp : Phrase.items body = phrase at h
  induction h generalizing body with
  | noItems ht => exact ht
  | moreItems _ _ _ _ ih => exact ih rfl
  | _ => cases hp

theorem Derives.statement_elseWord {item : Stmt} (h : Derives script (.statement item) s t) :
    s.token? ≠ some (.keyword .elseWord) := by
  have hpasses {a : Stream} {token : Token} (hp : s.Passes token a)
      (ht : token ≠ .keyword .elseWord) : s.token? ≠ some (.keyword .elseWord) := by
    rw [hp.token?]
    simpa using ht
  cases h with
  | blockStatement ht _ => simp [ht]
  | declare hword hw _ => exact hpasses hw (by rintro ⟨⟩; simp at hword)
  | jump jump hw _ => exact hpasses hw (by cases jump <;> nofun)
  | expressionStatement hx _ _ =>
    intro ht
    rw [ht] at hx
    cases hx
  | branch hw _ _ _ _ _ | branchElse hw _ _ _ _ _ _ | whileLoop hw _ _ _ _
  | doLoop hw _ _ _ _ _ _ | forLoop hw _ _ _ _ _ | giveNothing hw _ | giveNothingAtEnd hw _
  | giveBack hw _ _ _ _ | giveBackClosed hw _ _ _ _ | functionStatement hw _ _ | empty hw =>
    exact hpasses hw nofun

-- No program begins in the middle of a branch.
theorem Derives.items_elseWord {body : List Stmt} (h : Derives script (.items body) s t) :
    s.token? ≠ some (.keyword .elseWord) := by
  cases h with
  | noItems ht => simp [ht]
  | moreItems _ hf _ => exact hf.statement_elseWord

theorem Derives.declare_offset {offset : Nat} {name : String} {initial : Option Expr}
    (h : Derives script (.statement (.declare offset name initial)) s t) (hat : s.At script) :
    s.offset < offset := by
  generalize hi : Stmt.declare offset name initial = item at h
  cases h with
  | declare _ hw hd =>
    subst hi
    have hlt := hat.offset_lt hw
    cases hd <;> exact hlt
  | jump jump _ _ => cases jump <;> cases hi
  | _ => cases hi

-- The names of a chain stand behind the word that opens it, so no block in braces is one.
theorem Derives.block_takesSemicolon {block : Block} (h : Derives script (.block block) s t)
    (hat : s.At script) : (Stmt.block block.offset block.body).takesSemicolon = false := by
  obtain ⟨offset, body, stop⟩ := block
  cases h with
  | block hl hb hc =>
    match body, hb with
    | .declare first name initial :: rest, hb =>
      cases hb with
      | moreBlockItems _ _ hf _ =>
        have hopen := hat.offset_lt hl
        have hname := hf.declare_offset (hat.leads hl.leads)
        simp only [Stmt.takesSemicolon, decide_eq_false_iff_not]
        omega
    | [], _ | .empty _ :: _, _ | .block _ _ :: _, _ | .branch _ _ _ _ :: _, _
    | .loop _ _ _ _ _ _ :: _, _ | .giveBack _ _ :: _, _ | .breakLoop _ :: _, _
    | .continueLoop _ :: _, _ | .expression _ :: _, _ => rfl

section

variable {other : List Char} {origin tail after a : Stream} {last : Nat} {item : Stmt}

-- Where a statement at the end of a text leaves the readers of the longer text: before the
-- semicolon there, or behind it if the statement has taken it.
def landing (tail after : Stream) (takes : Bool) : Stream :=
  if takes then after else tail

theorem closes_landing (hi : tail.Intact) (htail : tail.Passes (.symbol .semicolon) after)
    (hc : a.Closes (.done last)) :
    (a.followedBy tail).Closes (landing tail after !a.endsInSemicolon) := by
  obtain ⟨-, rfl⟩ | hp := hc
  · exact .inr htail
  · have hends : a.endsInSemicolon = true := by
      rw [hp.endsInSemicolon]
      rfl
    rw [hends]
    exact .inr (hp.followedBy hi)

theorem landing_elseWord (htail : tail.Passes (.symbol .semicolon) after)
    (helse : after.token? ≠ some (.keyword .elseWord)) (takes : Bool) :
    (landing tail after takes).token? ≠ some (.keyword .elseWord) := by
  cases takes
  · simp [landing, htail.token?]
  · exact helse

-- Of the last tokens of a simple statement only the closing semicolon is one.
theorem Derives.endsInSemicolon_eq (h : Derives script phrase s a) (hp : phrase.isOperand) :
    s.endsInSemicolon = a.endsInSemicolon := by
  cases ha : a.token? with
  | none => rw [h.endsInSemicolon hp ha, Stream.endsInSemicolon_of_token? ha]
  | some token => exact h.leads.endsInSemicolon (Stream.length_pos_of_token? ha)

-- Declarations at the end of a text, read from the longer text.
theorem Prolongs.declarations (h : Prolongs script other origin tail)
    (htail : tail.Passes (.symbol .semicolon) after)
    (hd : Derives script phrase s t) (hs : Leads origin s) (ht : t = .done last)
    (hi : phrase = .declarations item) :
    Derives other phrase (s.followedBy tail) (landing tail after !s.endsInSemicolon) := by
  have hpasses {s a : Stream} {token : Token} (hp : s.Passes token a) := hp.followedBy h.intact
  induction hd generalizing item with
  | @declaration _ _ a _ hn ha hm hc =>
    subst ht
    rw [← Stream.offset_followedBy tail hn.length_pos, hn.endsInSemicolon_eq rfl]
    refine .declaration (hpasses hn) ?_ ?_ (closes_landing h.intact htail hc)
    · exact Stream.test_followedBy (p := (· ≠ some (.symbol .assign))) h.token (fun _ => by simp) ha
    · exact Stream.test_followedBy (p := (· ≠ some (.symbol .comma))) h.token (fun _ => by simp) hm
  | declarationValue hn ha hv hm hc =>
    subst ht
    rw [← Stream.offset_followedBy tail hn.length_pos, hn.endsInSemicolon_eq rfl,
      ha.endsInSemicolon_eq rfl, hv.endsInSemicolon_eq rfl]
    refine .declarationValue (hpasses hn) (hpasses ha)
      (h.derives hv (hs.trans (hn.leads.trans ha.leads)) nofun) ?_
      (closes_landing h.intact htail hc)
    exact Stream.test_followedBy (p := (· ≠ some (.symbol .comma))) h.token (fun _ => by simp) hm
  | moreDeclarations hn hm ho iho =>
    have hothers := iho (hs.trans (hn.leads.trans hm.leads)) ht rfl
    rw [← Stream.offset_followedBy tail hn.length_pos, hn.endsInSemicolon_eq rfl,
      hm.endsInSemicolon_eq rfl]
    exact .moreDeclarations (hpasses hn) (hpasses hm) hothers
  | moreDeclarationsValue hn ha hv hm ho ihv iho =>
    have hname := hn.leads.trans ha.leads
    have hothers := iho (hs.trans (hname.trans (hv.leads.trans hm.leads))) ht rfl
    rw [← Stream.offset_followedBy tail hn.length_pos, hn.endsInSemicolon_eq rfl,
      ha.endsInSemicolon_eq rfl, hv.endsInSemicolon_eq rfl, hm.endsInSemicolon_eq rfl]
    exact .moreDeclarationsValue (hpasses hn) (hpasses ha) (h.derives hv (hs.trans hname) nofun)
      (hpasses hm) hothers
  | _ => cases hi

-- A statement at the end of a text, read from the longer text.
theorem Prolongs.statement (h : Prolongs script other origin tail)
    (htail : tail.Passes (.symbol .semicolon) after)
    (helse : after.token? ≠ some (.keyword .elseWord)) (hat : origin.At script)
    (hd : Derives script phrase s t) (hs : Leads origin s) (ht : t = .done last)
    (hi : phrase = .statement item) :
    Derives other phrase (s.followedBy tail)
      (landing tail after (item.takesSemicolon && !s.endsInSemicolon)) := by
  have hpasses {s a : Stream} {token : Token} (hp : s.Passes token a) := hp.followedBy h.intact
  have hoffset {s a : Stream} {token : Token} (hp : s.Passes token a) :=
    Stream.offset_followedBy tail hp.length_pos
  induction hd generalizing item with
  | blockStatement hl hb =>
    cases hi
    subst ht
    have hbrace := Stream.token?_followedBy tail (Stream.length_pos_of_token? hl)
    rw [hb.block_takesSemicolon (hat.leads hs)]
    exact .blockStatement (hbrace.trans hl) (h.derives hb hs nofun)
  | declare hword hw hn =>
    cases hi
    rw [hn.declarations_takesSemicolon, hw.endsInSemicolon_eq rfl]
    exact .declare hword (hpasses hw) (h.declarations htail hn (hs.trans hw.leads) ht rfl)
  | branch hw hl he hr hy hn ihe ihy =>
    cases hi
    have hopen := hw.leads.trans hl.leads
    have hbody := hopen.trans (he.leads.trans hr.leads)
    have hyes := ihy (hs.trans hbody) ht rfl
    rw [← hoffset hw, hbody.endsInSemicolon (hy.length_pos Nat.one_pos)]
    exact .branch (hpasses hw) (hpasses hl) (h.derives he (hs.trans hopen) nofun) (hpasses hr)
      hyes (landing_elseWord htail helse _)
  | branchElse hw hl he hr hy hword hn ihe ihy ihn =>
    cases hi
    have hopen := hw.leads.trans hl.leads
    have hyes := hopen.trans (he.leads.trans hr.leads)
    have hno := hyes.trans (hy.leads.trans hword.leads)
    have hlast := ihn (hs.trans hno) ht rfl
    rw [← hoffset hw, hno.endsInSemicolon (hn.length_pos Nat.one_pos)]
    exact .branchElse (hpasses hw) (hpasses hl) (h.derives he (hs.trans hopen) nofun) (hpasses hr)
      (h.derives hy (hs.trans hyes) fun _ => hword.length_pos) (hpasses hword)
      hlast
  | whileLoop hw hl he hr hb ihe ihb =>
    cases hi
    have hopen := hw.leads.trans hl.leads
    have hbody := hopen.trans (he.leads.trans hr.leads)
    have hround := ihb (hs.trans hbody) ht rfl
    rw [← hoffset hw, hbody.endsInSemicolon (hb.length_pos Nat.one_pos)]
    exact .whileLoop (hpasses hw) (hpasses hl) (h.derives he (hs.trans hopen) nofun) (hpasses hr)
      hround
  | doLoop hd hb hw hl he hr hc ihb ihe =>
    cases hi
    subst ht
    have hword := hd.leads.trans hb.leads
    have hopen := hword.trans (hw.leads.trans hl.leads)
    have hparen := hopen.trans he.leads
    rw [← hoffset hd, hparen.endsInSemicolon hr.length_pos, hr.endsInSemicolon_eq rfl]
    exact .doLoop (hpasses hd) (h.derives hb (hs.trans hd.leads) nofun) (hpasses hw) (hpasses hl)
      (h.derives he (hs.trans hopen) nofun) (hpasses hr) (closes_landing h.intact htail hc)
  | forLoop hw hl hi' ht' hp hb ihi iht ihp ihb =>
    cases hi
    have hopen := hw.leads.trans hl.leads
    have htest := hopen.trans hi'.leads
    have hstep := htest.trans ht'.leads
    have hbody := hstep.trans hp.leads
    have hround := ihb (hs.trans hbody) ht rfl
    rw [← hoffset hw, hbody.endsInSemicolon (hb.length_pos Nat.one_pos)]
    exact .forLoop (hpasses hw) (hpasses hl)
      (h.derives hi' (hs.trans hopen) fun _ => ht'.length_pos Nat.one_pos)
      (h.derives ht' (hs.trans htest) nofun) (h.derives hp (hs.trans hstep) nofun)
      hround
  | giveNothing hw hc =>
    cases hi
    subst ht
    rw [← hoffset hw, hw.endsInSemicolon_eq rfl, hc.endsInSemicolon]
    exact .giveNothing (hpasses hw) (hpasses hc)
  | giveNothingAtEnd hw hn =>
    cases hi
    subst ht
    rw [← hoffset hw, hw.endsInSemicolon_eq rfl]
    exact .giveNothing (hpasses hw) htail
  | giveBack hw hn hr hv hc ihv =>
    cases hi
    subst ht
    have htoken := Stream.token?_followedBy tail (hv.length_pos Nat.one_pos)
    rw [← hoffset hw, hw.endsInSemicolon_eq rfl, hv.endsInSemicolon_eq rfl]
    exact .giveBackClosed (hpasses hw) (by rwa [htoken]) (by rwa [htoken])
      (h.derives hv (hs.trans hw.leads) nofun) htail
  | giveBackClosed hw hn hr hv hc ihv =>
    cases hi
    subst ht
    have htoken := Stream.token?_followedBy tail (hv.length_pos Nat.one_pos)
    rw [← hoffset hw, hw.endsInSemicolon_eq rfl, hv.endsInSemicolon_eq rfl, hc.endsInSemicolon]
    exact .giveBackClosed (hpasses hw) (by rwa [htoken]) (by rwa [htoken])
      (h.derives hv (hs.trans hw.leads) nofun) (hpasses hc)
  | jump jump hw hc =>
    cases hi
    subst ht
    rw [← hoffset hw, hw.endsInSemicolon_eq rfl, jump.takesSemicolon]
    exact .jump jump (hpasses hw) (closes_landing h.intact htail hc)
  | functionStatement hw hf hn =>
    cases hi
    subst ht
    rw [← hoffset hw, functionStatement_takesSemicolon hn]
    exact .functionStatement (hpasses hw) (h.derives hf (hs.trans hw.leads) nofun) hn
  | empty hc =>
    cases hi
    subst ht
    rw [← hoffset hc]
    exact .empty (hpasses hc)
  | expressionStatement hx hv hc ihv =>
    cases hi
    subst ht
    have htoken := Stream.token?_followedBy tail (hv.length_pos Nat.one_pos)
    rw [hv.expression_takesSemicolon, hv.endsInSemicolon_eq rfl]
    exact .expressionStatement (by rwa [htoken]) (h.derives hv hs nofun)
      (closes_landing h.intact htail hc)
  | _ => cases hi

-- The last statement was left without its semicolon.
def leftOpen (body : List Stmt) (stream : Stream) : Bool :=
  (body.getLast?.any Stmt.takesSemicolon) && !stream.endsInSemicolon

-- The statements of a text, read from the longer text and with more behind them.
theorem Prolongs.items (h : Prolongs script other origin tail)
    (htail : tail.Passes (.symbol .semicolon) after)
    (helse : after.token? ≠ some (.keyword .elseWord)) (hat : origin.At script)
    {body rest : List Stmt} {u : Stream} (hd : Derives script phrase s t) (hs : Leads origin s)
    (hp : phrase = .items body) (ht : t = .done last)
    (hrest : Derives other (.items rest) (landing tail after (leftOpen body s)) u) :
    Derives other (.items (body ++ rest)) (s.followedBy tail) u := by
  induction hd generalizing body with
  | noItems _ =>
    cases hp
    subst ht
    exact hrest
  | moreItems hn hf hb _ ihb =>
    cases hp
    have htoken := Stream.token?_followedBy tail (hf.length_pos Nat.one_pos)
    have hmore := hn
    rw [← htoken] at hmore
    cases hb with
    | noItems _ =>
      subst ht
      exact .moreItems hmore (h.statement htail helse hat hf hs rfl rfl) hrest
    | moreItems ha hg hb =>
      have hpos := hg.length_pos Nat.one_pos
      refine .moreItems hmore (h.derives hf hs fun _ => hpos) (ihb (hs.trans hf.leads) rfl ht ?_)
      rw [leftOpen, List.getLast?_cons_cons, hf.leads.endsInSemicolon hpos] at hrest
      exact hrest
  | _ => cases hp

end

variable {origin goal : Stream}

-- What is derived from a text is derived from it further on.
theorem shift_translation (front : List Char) :
    Translation script (front ++ script) origin goal (.shift (width front))
      (Stream.relabel (.shift (width front))) where
  token _ := Stream.token?_relabel
  offset _ := Stream.offset_relabel
  stop _ := Stream.stop_relabel
  passes hp _ := hp.relabel
  source _ _ _ := by
    rw [Stream.offset_relabel, Stream.stop_relabel]
    exact congrArg String.ofList (slice_behind front script _ _)

-- What stands behind a text changes no source that is recorded in it.
theorem prolongs_append {tail : Stream} (hat : origin.At script)
    (ht : tail.token? = some (.symbol .semicolon)) (back : List Char) :
    Prolongs script (script ++ back) origin tail where
  token := ht
  source {s a t token} hs ha hp := by
    have hplace {cursor : Cursor} (h : cursor.In script) :
        ∃ piece, piece <+: script ∧ cursor.offset = width piece := by
      obtain ⟨piece, hpiece, hwidth⟩ := h
      exact ⟨piece, ⟨cursor.rest, hpiece.symm⟩, hwidth.symm⟩
    have hi : s.Intact := ha.intact hp.intact
    obtain ⟨rest, hin, -, -⟩ := (hat.leads hs).place hi
    obtain ⟨first, hfirst, hstart⟩ := hplace hin
    obtain ⟨lexeme, rfl, -, -⟩ := hp
    obtain ⟨-, text, hend, -⟩ := ((hat.leads hs).leads ha).next
    obtain ⟨second, hsecond, hstop⟩ := hplace hend
    have hfront := @slice_middle [] script back _ _ hfirst hsecond
    have hwhole := @slice_middle [] script [] _ _ hfirst hsecond
    simp only [width_nil, Nat.zero_add, List.nil_append, List.append_nil] at hfront hwhole
    dsimp only at hstart hstop
    rw [hstart, Stream.stop, hstop, hfront, hwhole]

end Grammar

namespace Grammar

-- The statements of a text, the joint, and the statements of a second text behind it.
theorem Derives.join {first second : List Char} {body next : List Stmt} {last final : Nat}
    (hf : Derives first (.items body) (Stream.ofText first) (.done last))
    (hs : Derives second (.items next) (Stream.ofText second) (.done final)) :
    Derives (first ++ '\n' :: ';' :: '\n' :: second)
      (.items (body
        ++ ((if leftOpen body (Stream.ofText first) then [] else [.empty (width first + 1)])
        ++ Stmt.relabelAll (.shift (width first + 3)) next)))
      (Stream.ofText (first ++ '\n' :: ';' :: '\n' :: second))
      (.done (final + (width first + 3))) := by
  -- The second text stands behind the first and the semicolon.
  have hrest := (shift_translation (first ++ ['\n', ';', '\n'])).derives hs (.refl _) (.refl _)
  have hwidth : width (first ++ ['\n', ';', '\n']) = width first + 3 := width_append _ _
  have htext : first ++ ['\n', ';', '\n'] ++ second = first ++ '\n' :: ';' :: '\n' :: second := by
    simp
  rw [hwidth, htext] at hrest
  have hstream := Stream.ofText_join hf.leads hs.leads
  generalize hafter : (Stream.ofText second).relabel (.shift (width first + 3)) = after
    at hrest hstream
  have helse : after.token? ≠ some (.keyword .elseWord) := by
    rw [← hafter, Stream.token?_relabel]
    exact hs.items_elseWord
  have hintact : after.Intact := by
    rw [← hafter]
    exact (hs.leads.intact trivial).relabel
  generalize htail : Stream.next _ after = tail at hstream
  have hpasses : tail.Passes (.symbol .semicolon) after := ⟨_, htail.symm, rfl, hintact⟩
  have hoffset : tail.offset = width first + 1 := by
    rw [← htail]
    rfl
  rw [hstream]
  have hat : (Stream.ofText first).At first := Stream.ofText_at
  have hprolongs := prolongs_append hat hpasses.token? ('\n' :: ';' :: '\n' :: second)
  refine hprolongs.items hpasses helse hat hf (.refl _) rfl rfl ?_
  cases leftOpen body (Stream.ofText first) with
  | true => exact hrest
  | false =>
    have hempty : Derives (first ++ '\n' :: ';' :: '\n' :: second) _ _ _ := .empty hpasses
    rw [hoffset] at hempty
    exact .moreItems (by simp [landing, hpasses.token?]) hempty hrest

end Grammar

-- The last statement of a program was left without the semicolon that would close it, as it may be
-- at the end of the text.
def Program.leftOpen (script : String) (program : Program) : Bool :=
  Grammar.leftOpen program.body (Stream.ofText script.toList)

namespace Program

-- A text that spells a program has tokens up to its end.
theorem leads_of_read {script : String} {program : Program} (h : read script = .ok program) :
    ∃ last, Grammar.Derives script.toList (.items program.body) (Stream.ofText script.toList)
      (.done last) := by
  obtain ⟨hi, -, t, hd⟩ := read_eq_ok.mp h
  have ht : t.token? = none := hd.items_token?
  cases t with
  | next lexeme rest => cases ht
  | done last => exact ⟨last, hd⟩
  | broken error => exact absurd (hd.intact hi) id

-- Two programs joined by a semicolon on a line of its own are the statements of the first, an empty
-- statement unless the first leaves its last statement open, and the statements of the second.
theorem read_join {first second : String} {program next : Program}
    (hf : read first = .ok program) (hs : read second = .ok next) :
    ∃ offset, read (first ++ "\n;\n" ++ second) = .ok ⟨offset, program.body
      ++ ((if program.leftOpen first then [] else [.empty (width first.toList + 1)])
      ++ Stmt.relabelAll (.shift (width first.toList + 3)) next.body)⟩ := by
  obtain ⟨last, hprogram⟩ := leads_of_read hf
  obtain ⟨final, hnext⟩ := leads_of_read hs
  have htext : (first ++ "\n;\n" ++ second).toList =
      first.toList ++ '\n' :: ';' :: '\n' :: second.toList := by
    simp
  have hjoined := hprogram.join hnext
  rw [← htext] at hjoined
  exact ⟨_, read_eq_ok.mpr ⟨hjoined.leads.intact trivial, rfl, _, hjoined⟩⟩

end Program

end ScriptEngine
