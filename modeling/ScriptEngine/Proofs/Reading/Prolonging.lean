import ScriptEngine.Proofs.Lexing.Joining
import ScriptEngine.Proofs.Reading.Completeness
import ScriptEngine.Proofs.Source.Excerpt

-- A text that goes on. As long as what stands behind it begins with a semicolon, every phrase but a
-- statement is read from the longer text as from the text alone, and so is a statement that does
-- not reach its end: a semicolon stops the readers where the end of the input would.

namespace ScriptEngine

open Text

namespace Stream

section

variable {tail s a t : Stream} {token : Token}

theorem token?_ne_none_iff : s.token? ≠ none ↔ 0 < s.length := by
  cases s <;> simp [token?, length]

theorem length_pos_of_token? (h : s.token? = some token) : 0 < s.length :=
  token?_ne_none_iff.mp (by simp [h])

theorem Passes.length_pos (h : s.Passes token a) : 0 < s.length :=
  length_pos_of_token? h.token?

theorem token?_followedBy (tail : Stream) (h : 0 < s.length) :
    (s.followedBy tail).token? = s.token? := by
  cases s with
  | next lexeme rest => rfl
  | _ => cases h

theorem offset_followedBy (tail : Stream) (h : 0 < s.length) :
    (s.followedBy tail).offset = s.offset := by
  cases s with
  | next lexeme rest => rfl
  | _ => cases h

theorem stop_followedBy (tail : Stream) (h : 0 < s.length) :
    (s.followedBy tail).stop = s.stop := by
  cases s with
  | next lexeme rest => rfl
  | _ => cases h

theorem Passes.followedBy (h : s.Passes token a) (hi : tail.Intact) :
    (s.followedBy tail).Passes token (a.followedBy tail) := by
  obtain ⟨lexeme, rfl, rfl, ha⟩ := h
  refine ⟨lexeme, rfl, rfl, ?_⟩
  cases a with
  | next lexeme rest => trivial
  | done offset => exact hi
  | broken error => exact ha

theorem Closes.followedBy (h : s.Closes t) (hi : tail.Intact) (ht : 0 < t.length) :
    (s.followedBy tail).Closes (t.followedBy tail) := by
  obtain ⟨hn, rfl⟩ | hp := h
  · exact absurd hn (token?_ne_none_iff.mpr ht)
  · exact .inr (hp.followedBy hi)

-- A test of the token at hand that the end and the token of the tail pass alike.
theorem test_followedBy {p : Option Token → Prop} (h : tail.token? = some token)
    (hp : p none → p (some token)) (hs : p s.token?) : p (s.followedBy tail).token? := by
  cases s with
  | next lexeme rest => exact hs
  | done offset =>
    rw [Stream.followedBy, h]
    exact hp hs
  | broken error => exact hs

end

end Stream

namespace Grammar

open ScriptEngine.Stream (Leads)

-- The phrases that a semicolon may end.
def Phrase.isStatement : Phrase → Bool
  | statement _ | declarations _ | items _ => true
  | _ => false

-- The readers of a longer text see what those of its front part see.
structure Prolongs (script other : List Char) (origin tail : Stream) : Prop where
  token : tail.token? = some (.symbol .semicolon)
  source {s a t : Stream} {token : Token} : Leads origin s → Leads s a → a.Passes token t →
    Text.slice other s.offset a.stop = Text.slice script s.offset a.stop

variable {script other : List Char} {origin tail s t : Stream} {phrase : Phrase}

theorem Prolongs.intact (h : Prolongs script other origin tail) : tail.Intact := by
  have ht := h.token
  cases tail with
  | broken error => cases ht
  | _ => trivial

theorem Derives.length_pos (h : Derives script phrase s t) (hp : 0 < phrase.least) :
    0 < s.length :=
  Nat.lt_of_lt_of_le hp (Nat.le_trans (Nat.le_add_left _ _) h.length_le)

theorem Derives.block_closes {block : Block} (h : Derives script (.block block) s t) :
    ∃ a, Leads s a ∧ a.Passes (.symbol .rightBrace) t ∧ a.stop = block.stop := by
  cases h with
  | block hl hb hc => exact ⟨_, hl.leads.trans hb.leads, hc, rfl⟩

theorem Derives.blockItems_length_pos {body : List Stmt}
    (h : Derives script (.blockItems body) s t) : 0 < s.length := by
  rw [← Stream.token?_ne_none_iff]
  cases h with
  | noBlockItems hb => simp [hb]
  | moreBlockItems _ hn => exact hn

-- Every phrase is derived by its own rule again. The places in it are those of tokens that are passed,
-- and no stream in it that is not its last is at the end.
theorem Prolongs.derives (h : Prolongs script other origin tail) (hd : Derives script phrase s t)
    (hs : Leads origin s) (hp : phrase.isStatement → 0 < t.length) :
    Derives other phrase (s.followedBy tail) (t.followedBy tail) := by
  have hpasses {s a : Stream} {token : Token} (hp : s.Passes token a) :
      (s.followedBy tail).Passes token (a.followedBy tail) :=
    hp.followedBy h.intact
  have hoffset {s a : Stream} {token : Token} (hp : s.Passes token a) :
      s.offset = (s.followedBy tail).offset :=
    (Stream.offset_followedBy tail hp.length_pos).symm
  have hat {s : Stream} {token : Token} (ht : s.token? = some token) :
      (s.followedBy tail).token? = some token :=
    (Stream.token?_followedBy tail (Stream.length_pos_of_token? ht)).trans ht
  have hnot {s : Stream} {token : Option Token} (hl : 0 < s.length) (hn : s.token? ≠ token) :
      (s.followedBy tail).token? ≠ token := by
    rwa [Stream.token?_followedBy tail hl]
  induction hd with
  | chain hf hl he ihf ihl =>
    have hends := Stream.test_followedBy (p := fun token => endsChain token) h.token
      (fun _ => rfl) he
    exact .chain (ihf hs nofun) (ihl (hs.trans hf.leads) nofun) hends
  | ternary hf hl hq hy hc hn ihf ihl ihy ihn =>
    have hlinks := hs.trans hf.leads
    have hyes := hlinks.trans (hl.leads.trans hq.leads)
    have hno := hyes.trans (hy.leads.trans hc.leads)
    rw [hoffset hq]
    exact .ternary (ihf hs nofun) (ihl hlinks nofun) (hpasses hq) (ihy hyes nofun) (hpasses hc)
      (ihn hno nofun)
  | assign hf hl hm hv ihf ihl ihv =>
    have hlinks := hs.trans hf.leads
    have hvalue := hlinks.trans (hl.leads.trans hm.leads)
    rw [hoffset hm]
    exact .assign (ihf hs nofun) (ihl hlinks nofun) (hpasses hm) (ihv hvalue nofun)
  | update hf hl hm ho hv ihf ihl ihv =>
    have hlinks := hs.trans hf.leads
    have hvalue := hlinks.trans (hl.leads.trans hm.leads)
    rw [hoffset hm]
    exact .update (ihf hs nofun) (ihl hlinks nofun) (hpasses hm) ho (ihv hvalue nofun)
  | noLinks he =>
    exact .noLinks (Stream.test_followedBy (p := fun token => endsLinks token) h.token
      (fun _ => rfl) he)
  | link hm ho hv hl ihv ihl =>
    have hoperand := hs.trans hm.leads
    rw [hoffset hm]
    exact .link (hpasses hm) ho (ihv hoperand nofun) (ihl (hoperand.trans hv.leads) nofun)
  | signed sign hm hv ihv =>
    rw [hoffset hm]
    exact .signed sign (hpasses hm) (ihv (hs.trans hm.leads) nofun)
  | bumped bump hm hv ihv =>
    rw [hoffset hm]
    exact .bumped bump (hpasses hm) (ihv (hs.trans hm.leads) nofun)
  | unsigned hn hv ihv =>
    have hstart := Stream.test_followedBy (p := fun token => startsOperand token) h.token
      (fun _ => rfl) hn
    exact .unsigned hstart (ihv hs nofun)
  | atom atom hm hx ihx =>
    have hvalue := ihx (hs.trans hm.leads) nofun
    rw [hoffset hm] at hvalue
    exact .atom atom (hpasses hm) hvalue
  | parens hl hi hr hx ihi ihx =>
    have hinner := hs.trans hl.leads
    have hrest := hinner.trans (hi.leads.trans hr.leads)
    exact .parens (hpasses hl) (ihi hinner nofun) (hpasses hr) (ihx hrest nofun)
  | object hl he hr hx ihe ihx =>
    have hentries := hs.trans hl.leads
    have hvalue := ihx (hentries.trans (he.leads.trans hr.leads)) nofun
    rw [hoffset hl] at hvalue
    exact .object (hpasses hl) (ihe hentries nofun) (hpasses hr) hvalue
  | array hl he hr hx ihe ihx =>
    have helements := hs.trans hl.leads
    have hvalue := ihx (helements.trans (he.leads.trans hr.leads)) nofun
    rw [hoffset hl] at hvalue
    exact .array (hpasses hl) (ihe helements nofun) (hpasses hr) hvalue
  | lambda hw hf hn hx ihf ihx =>
    have hfunction := hs.trans hw.leads
    have hvalue := ihx (hfunction.trans hf.leads) nofun
    rw [hoffset hw] at hvalue
    exact .lambda (hpasses hw) (ihf hfunction nofun) hn hvalue
  | construct hw hn hm hl he hr hx ihp ihe ihx =>
    have hpath := hs.trans (hw.leads.trans hn.leads)
    have harguments := hpath.trans (hm.leads.trans hl.leads)
    have hvalue := ihx (harguments.trans (he.leads.trans hr.leads)) nofun
    rw [hoffset hw] at hvalue
    exact .construct (hpasses hw) (hpasses hn) (ihp hpath nofun) (hpasses hl)
      (ihe harguments nofun) (hpasses hr) hvalue
  | constructBare hw hn hm hl hx ihp ihx =>
    have hpath := hs.trans (hw.leads.trans hn.leads)
    have hparen := Stream.test_followedBy (p := (· ≠ some (.symbol .leftParen))) h.token
      (fun _ => by simp) hl
    have hvalue := ihx (hpath.trans hm.leads) nofun
    rw [hoffset hw] at hvalue
    exact .constructBare (hpasses hw) (hpasses hn) (ihp hpath nofun) hparen hvalue
  | noSuffix he =>
    exact .noSuffix (Stream.test_followedBy (p := fun token => endsSuffixes token) h.token
      (fun _ => rfl) he)
  | dot hm hn hx ihx =>
    have hvalue := ihx (hs.trans (hm.leads.trans hn.leads)) nofun
    rw [hoffset hm] at hvalue
    exact .dot (hpasses hm) (hpasses hn) hvalue
  | call hl he hr hx ihe ihx =>
    have harguments := hs.trans hl.leads
    have hvalue := ihx (harguments.trans (he.leads.trans hr.leads)) nofun
    rw [hoffset hl] at hvalue
    exact .call (hpasses hl) (ihe harguments nofun) (hpasses hr) hvalue
  | subscript hl hi hr hx ihi ihx =>
    have hindex := hs.trans hl.leads
    have hvalue := ihx (hindex.trans (hi.leads.trans hr.leads)) nofun
    rw [hoffset hl] at hvalue
    exact .subscript (hpasses hl) (ihi hindex nofun) (hpasses hr) hvalue
  | postfixed bump hm hx ihx =>
    have hvalue := ihx (hs.trans hm.leads) nofun
    rw [hoffset hm] at hvalue
    exact .postfixed bump (hpasses hm) hvalue
  | noExpressions ht => exact .noExpressions (hat ht)
  | lastExpression hn hv hc ihv =>
    exact .lastExpression (hnot (hv.length_pos Nat.one_pos) hn) (ihv hs nofun) (hat hc)
  | moreExpressions hn hv hm hc hrest ihv ihrest =>
    have hmore := hs.trans (hv.leads.trans hc.leads)
    exact .moreExpressions (hnot (hv.length_pos Nat.one_pos) hn) (ihv hs nofun)
      (hnot hc.length_pos hm) (hpasses hc) (ihrest hmore nofun)
  | noEntries ht => exact .noEntries (hat ht)
  | lastEntry hk ht hc hv he ihv =>
    exact .lastEntry (hpasses hk) ht (hpasses hc) (ihv (hs.trans (hk.leads.trans hc.leads)) nofun)
      (hat he)
  | moreEntries hk ht hc hv hm hrest ihv ihrest =>
    have hvalue := hs.trans (hk.leads.trans hc.leads)
    have hmore := hvalue.trans (hv.leads.trans hm.leads)
    exact .moreEntries (hpasses hk) ht (hpasses hc) (ihv hvalue nofun) (hpasses hm)
      (ihrest hmore nofun)
  | noParameters ht => exact .noParameters (hat ht)
  | lastParameter hn ht => exact .lastParameter (hpasses hn) (hat ht)
  | moreParameters hn hm hrest ihrest =>
    exact .moreParameters (hpasses hn) (hpasses hm)
      (ihrest (hs.trans (hn.leads.trans hm.leads)) nofun)
  | pathEnd hn =>
    exact .pathEnd (Stream.test_followedBy (p := (· ≠ some (.symbol .dot))) h.token
      (fun _ => by simp) hn)
  | pathStep hm hn hrest ihrest =>
    exact .pathStep (hpasses hm) (hpasses hn)
      (ihrest (hs.trans (hm.leads.trans hn.leads)) nofun)
  | unnamed hl hn hr hb ihn ihb =>
    have hnames := hs.trans hl.leads
    have hbody := hnames.trans (hn.leads.trans hr.leads)
    obtain ⟨a, hba, ha, hstop⟩ := hb.block_closes
    have hfunction := Derives.unnamed (hpasses hl) (ihn hnames nofun) (hpasses hr)
      (ihb hbody nofun)
    rw [← hoffset hl, ← hstop, h.source hs
      (hl.leads.trans (hn.leads.trans (hr.leads.trans hba))) ha, hstop] at hfunction
    exact hfunction
  | named hw hl hn hr hb ihn ihb =>
    have hnames := hs.trans (hw.leads.trans hl.leads)
    have hbody := hnames.trans (hn.leads.trans hr.leads)
    obtain ⟨a, hba, ha, hstop⟩ := hb.block_closes
    have hfunction := Derives.named (hpasses hw) (hpasses hl) (ihn hnames nofun) (hpasses hr)
      (ihb hbody nofun)
    rw [← hoffset hw, ← hstop, h.source hs
      (hw.leads.trans (hl.leads.trans (hn.leads.trans (hr.leads.trans hba)))) ha,
      hstop] at hfunction
    exact hfunction
  | block hl hb hr ihb =>
    rw [hoffset hl, ← Stream.stop_followedBy tail hr.length_pos]
    exact .block (hpasses hl) (ihb (hs.trans hl.leads) nofun) (hpasses hr)
  | noBlockItems ht => exact .noBlockItems (hat ht)
  | moreBlockItems hr hn hf hb ihf ihb =>
    have hpos := Stream.token?_ne_none_iff.mp hn
    exact .moreBlockItems (hnot hpos hr) (hnot hpos hn)
      (ihf hs fun _ => hb.blockItems_length_pos) (ihb (hs.trans hf.leads) nofun)
  | blockStatement hl hb ihb => exact .blockStatement (hat hl) (ihb hs nofun)
  | declare hword hw hd ihd =>
    exact .declare hword (hpasses hw) (ihd (hs.trans hw.leads) fun _ => hp rfl)
  | branch hw hl he hr hy hn ihe ihy =>
    have htest := hs.trans (hw.leads.trans hl.leads)
    have hyes := htest.trans (he.leads.trans hr.leads)
    rw [hoffset hw]
    exact .branch (hpasses hw) (hpasses hl) (ihe htest nofun) (hpasses hr)
      (ihy hyes fun _ => hp rfl) (hnot (hp rfl) hn)
  | branchElse hw hl he hr hy hm hn ihe ihy ihn =>
    have htest := hs.trans (hw.leads.trans hl.leads)
    have hyes := htest.trans (he.leads.trans hr.leads)
    have hno := hyes.trans (hy.leads.trans hm.leads)
    rw [hoffset hw]
    exact .branchElse (hpasses hw) (hpasses hl) (ihe htest nofun) (hpasses hr)
      (ihy hyes fun _ => hm.length_pos) (hpasses hm) (ihn hno fun _ => hp rfl)
  | whileLoop hw hl he hr hb ihe ihb =>
    have htest := hs.trans (hw.leads.trans hl.leads)
    have hbody := htest.trans (he.leads.trans hr.leads)
    rw [hoffset hw]
    exact .whileLoop (hpasses hw) (hpasses hl) (ihe htest nofun) (hpasses hr)
      (ihb hbody fun _ => hp rfl)
  | doLoop hw hb hm hl he hr hc ihb ihe =>
    have hbody := hs.trans hw.leads
    have htest := hbody.trans (hb.leads.trans (hm.leads.trans hl.leads))
    rw [hoffset hw]
    exact .doLoop (hpasses hw) (ihb hbody nofun) (hpasses hm) (hpasses hl) (ihe htest nofun)
      (hpasses hr) (hc.followedBy h.intact (hp rfl))
  | forLoop hw hl hi he hx hb ihi ihe ihx ihb =>
    have hinitial := hs.trans (hw.leads.trans hl.leads)
    have htest := hinitial.trans hi.leads
    have hstep := htest.trans he.leads
    rw [hoffset hw]
    exact .forLoop (hpasses hw) (hpasses hl) (ihi hinitial fun _ => he.length_pos Nat.one_pos)
      (ihe htest nofun) (ihx hstep nofun) (ihb (hstep.trans hx.leads) fun _ => hp rfl)
  | giveNothing hw hc =>
    rw [hoffset hw]
    exact .giveNothing (hpasses hw) (hpasses hc)
  | giveNothingAtEnd hw hr =>
    rw [hoffset hw]
    refine .giveNothingAtEnd (hpasses hw) ?_
    rwa [Stream.token?_followedBy tail (hp rfl)]
  | giveBack hw hn hr hv hc ihv =>
    have hpos := hv.length_pos Nat.one_pos
    rw [hoffset hw]
    refine .giveBack (hpasses hw) (hnot hpos hn) ?_ (ihv (hs.trans hw.leads) nofun)
      (hnot (hp rfl) hc)
    rwa [Stream.token?_followedBy tail hpos]
  | giveBackClosed hw hn hr hv hc ihv =>
    have hpos := hv.length_pos Nat.one_pos
    rw [hoffset hw]
    refine .giveBackClosed (hpasses hw) (hnot hpos hn) ?_ (ihv (hs.trans hw.leads) nofun)
      (hpasses hc)
    rwa [Stream.token?_followedBy tail hpos]
  | jump jump hw hc =>
    rw [hoffset hw]
    exact .jump jump (hpasses hw) (hc.followedBy h.intact (hp rfl))
  | functionStatement hw hf hn ihf =>
    rw [hoffset hw]
    exact .functionStatement (hpasses hw) (ihf (hs.trans hw.leads) nofun) hn
  | empty hc =>
    rw [hoffset hc]
    exact .empty (hpasses hc)
  | expressionStatement hx hv hc ihv =>
    refine .expressionStatement ?_ (ihv hs nofun) (hc.followedBy h.intact (hp rfl))
    rwa [Stream.token?_followedBy tail (hv.length_pos Nat.one_pos)]
  | noOption hc => exact .noOption (hpasses hc)
  | someOption hn hv hc ihv =>
    exact .someOption (hnot (hv.length_pos Nat.one_pos) hn) (ihv hs nofun) (hpasses hc)
  | declaration hn ha hm hc =>
    have hpos := Nat.lt_of_lt_of_le (hp rfl) hc.length_le
    rw [hoffset hn]
    exact .declaration (hpasses hn) (hnot hpos ha) (hnot hpos hm)
      (hc.followedBy h.intact (hp rfl))
  | declarationValue hn ha hv hm hc ihv =>
    have hpos := Nat.lt_of_lt_of_le (hp rfl) hc.length_le
    rw [hoffset hn]
    exact .declarationValue (hpasses hn) (hpasses ha)
      (ihv (hs.trans (hn.leads.trans ha.leads)) nofun) (hnot hpos hm)
      (hc.followedBy h.intact (hp rfl))
  | moreDeclarations hn hm hrest ihrest =>
    have hmore := hs.trans (hn.leads.trans hm.leads)
    rw [hoffset hn]
    exact .moreDeclarations (hpasses hn) (hpasses hm) (ihrest hmore fun _ => hp rfl)
  | moreDeclarationsValue hn ha hv hm hrest ihv ihrest =>
    have hvalue := hs.trans (hn.leads.trans ha.leads)
    have hmore := hvalue.trans (hv.leads.trans hm.leads)
    rw [hoffset hn]
    exact .moreDeclarationsValue (hpasses hn) (hpasses ha) (ihv hvalue nofun) (hpasses hm)
      (ihrest hmore fun _ => hp rfl)
  | noItems hn => exact absurd hn (Stream.token?_ne_none_iff.mpr (hp rfl))
  | moreItems hn hf hb ihf ihb =>
    have hpos : 0 < _ := Nat.lt_of_lt_of_le (hp rfl) (Nat.le_of_add_right_le hb.length_le)
    exact .moreItems (hnot (Stream.token?_ne_none_iff.mp hn) hn) (ihf hs fun _ => hpos)
      (ihb (hs.trans hf.leads) fun _ => hp rfl)

end Grammar

end ScriptEngine
