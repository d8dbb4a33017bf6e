import ScriptEngine.Proofs.Printing.Canonical
import ScriptEngine.Proofs.Reading.Relabelling

-- Reading canonical tokens. Every node is derived from its own tokens, up to offsets and recorded
-- sources, as soon as its parts are derived from theirs.

namespace ScriptEngine

open Grammar
open ScriptEngine.Stream (Reads reads_append)
open Token (enclosed braced bracketed separated names path)

variable {script : List Char} {s t : Stream}

-- Trees that differ in offsets and recorded sources only.
abbrev Expr.Alike (first second : Expr) : Prop :=
  first.relabel .erasing = second.relabel .erasing

abbrev Stmt.Alike (first second : Stmt) : Prop :=
  first.relabel .erasing = second.relabel .erasing

abbrev Function.Alike (first second : Function) : Prop :=
  first.relabel .erasing = second.relabel .erasing

@[simp] theorem Relabelling.erasing_offset (offset : Nat) :
    Relabelling.erasing.offset offset = 0 := rfl

@[simp] theorem Relabelling.erasing_source (source : String) :
    Relabelling.erasing.source source = "" := rfl

-- The tokens of an expression in front of a closing parenthesis give it back.
def Expr.Returns (script : List Char) (value : Expr) : Prop :=
  ∀ ⦃s t⦄, Reads value.tokens s t → t.token? = some (.symbol .rightParen) →
    ∃ found, Derives script (.expression found) s t ∧ found.Alike value

-- Neither a suffix nor an operator follows an operand.
def endsOperand (token : Option Token) : Prop :=
  endsSuffixes token ∧ endsLinks token ∧ endsChain token

theorem endsOperand_closing {token : Option Token} {mark : Symbol} (h : token = some (.symbol mark))
    (hm : mark ∈ [Symbol.rightParen, .rightBracket, .rightBrace, .comma, .colon, .semicolon]) :
    endsOperand token := by
  subst h
  simp only [List.mem_cons, List.not_mem_nil, or_false] at hm
  obtain rfl | rfl | rfl | rfl | rfl | rfl := hm <;> exact ⟨rfl, rfl, rfl⟩

theorem reads_enclosed {tokens : List Token} :
    Reads (enclosed tokens) s t ↔
      ∃ a b, s.Passes (.symbol .leftParen) a ∧ Reads tokens a b ∧
        b.Passes (.symbol .rightParen) t := by
  simp [enclosed, Reads, reads_append]

theorem reads_braced {tokens : List Token} :
    Reads (braced tokens) s t ↔
      ∃ a b, s.Passes (.symbol .leftBrace) a ∧ Reads tokens a b ∧
        b.Passes (.symbol .rightBrace) t := by
  simp [braced, Reads, reads_append]

theorem reads_bracketed {tokens : List Token} :
    Reads (bracketed tokens) s t ↔
      ∃ a b, s.Passes (.symbol .leftBracket) a ∧ Reads tokens a b ∧
        b.Passes (.symbol .rightBracket) t := by
  simp [bracketed, Reads, reads_append]

namespace Expr

variable {value : Expr}

-- An enclosed expression is an operand, which suffixes may follow.
theorem Returns.operand (h : Returns script value) (hr : Reads (enclosed value.tokens) s t) :
    ∃ found, found.Alike value ∧ startsOperand s.token? ∧
      ∀ result u, Derives script (.suffixes found result) t u →
        Derives script (.primary result) s u := by
  obtain ⟨a, b, hl, hv, hc⟩ := reads_enclosed.mp hr
  obtain ⟨found, hd, ha⟩ := h hv hc.token?
  refine ⟨found, ha, ?_, fun result u hs => .parens hl hd hc hs⟩
  rw [hl.token?]
  rfl

theorem Returns.unary (h : Returns script value) (hr : Reads (enclosed value.tokens) s t)
    (ht : endsSuffixes t.token?) :
    ∃ found, Derives script (.unary found) s t ∧ found.Alike value := by
  obtain ⟨found, ha, hs, hd⟩ := h.operand hr
  exact ⟨found, .unsigned hs (hd found t (.noSuffix ht)), ha⟩

theorem Returns.expression (h : Returns script value) (hr : Reads (enclosed value.tokens) s t)
    (ht : endsOperand t.token?) :
    ∃ found, Derives script (.expression found) s t ∧ found.Alike value := by
  obtain ⟨found, hd, ha⟩ := h.unary hr ht.1
  exact ⟨found, .chain hd (.noLinks ht.2.1) ht.2.2, ha⟩

-- An operand alone, in front of a closing parenthesis.
theorem derives_primary {found : Expr} (hd : Derives script (.primary found) s t)
    (hs : startsOperand s.token?) (ht : t.token? = some (.symbol .rightParen)) :
    Derives script (.expression found) s t := by
  refine .chain (.unsigned hs hd) (.noLinks ?_) ?_ <;> rw [ht] <;> rfl

theorem noSuffix_rightParen {found : Expr} (ht : t.token? = some (.symbol .rightParen)) :
    Derives script (.suffixes found found) t t := by
  refine .noSuffix ?_
  rw [ht]
  rfl

theorem atom_returns (atom : Atom) (h : s.Passes atom.token t)
    (ht : t.token? = some (.symbol .rightParen)) :
    Derives script (.expression (atom.expr s.offset)) s t := by
  refine derives_primary (.atom atom h (noSuffix_rightParen ht)) ?_ ht
  rw [h.token?]
  cases atom with
  | boolean value => cases value <;> rfl
  | _ => rfl

theorem literal_returns {offset : Nat} {value : Literal} (h : value.Shaped) :
    Returns script (.literal offset value) := by
  intro s t hr ht
  simp only [Expr.tokens, Reads] at hr
  obtain ⟨a, hp, rfl⟩ := hr
  refine ⟨_, atom_returns value.atom hp ht, ?_⟩
  cases value with
  | undefined | null | boolean | string => rfl
  | number value =>
    cases value with
    | int => rfl
    | double value =>
      obtain rfl : value = Double.infinity := h
      rfl

theorem identifier_returns {offset : Nat} {name : String} :
    Returns script (.identifier offset name) := by
  intro s t hr ht
  simp only [Expr.tokens, Reads] at hr
  obtain ⟨a, hp, rfl⟩ := hr
  exact ⟨_, atom_returns (.identifier name) hp ht, rfl⟩

theorem receiver_returns {offset : Nat} : Returns script (.receiver offset) := by
  intro s t hr ht
  simp only [Expr.tokens, Reads] at hr
  obtain ⟨a, hp, rfl⟩ := hr
  exact ⟨_, atom_returns .receiver hp ht, rfl⟩

theorem dot_returns {offset : Nat} {target : Expr} {name : String} (h : Returns script target) :
    Returns script (.dot offset target name) := by
  intro s t hr ht
  simp only [Expr.tokens, Reads, reads_append] at hr
  obtain ⟨a, htarget, b, hdot, c, hname, rfl⟩ := hr
  obtain ⟨found, ha, hs, hd⟩ := h.operand htarget
  refine ⟨_, derives_primary (hd _ _ (.dot hdot hname (noSuffix_rightParen ht))) hs ht, ?_⟩
  simp [Alike, Expr.relabel, ha]

theorem subscript_returns {offset : Nat} {target index : Expr} (htarget : Returns script target)
    (hindex : Returns script index) : Returns script (.subscript offset target index) := by
  intro s t hr ht
  simp only [Expr.tokens, reads_append, reads_bracketed] at hr
  obtain ⟨a, hta, b, c, hl, hi, hb⟩ := hr
  obtain ⟨found, ha, hs, hd⟩ := htarget.operand hta
  obtain ⟨inner, hdi, hai⟩ := hindex.expression hi (endsOperand_closing hb.token? (by simp))
  refine ⟨_, derives_primary (hd _ _ (.subscript hl hdi hb (noSuffix_rightParen ht))) hs ht, ?_⟩
  simp [Alike, Expr.relabel, ha, hai]

theorem unary_returns {offset : Nat} {operator : UnaryOp} {operand : Expr}
    (h : Returns script operand) : Returns script (.unary offset operator operand) := by
  intro s t hr ht
  simp only [Expr.tokens, Reads] at hr
  obtain ⟨a, hp, ho⟩ := hr
  obtain ⟨found, hd, ha⟩ := h.unary ho (endsOperand_closing ht (by simp)).1
  refine ⟨_, .chain (.signed operator.sign hp hd) (.noLinks ?_) ?_, ?_⟩
  · rw [ht]
    rfl
  · rw [ht]
    rfl
  · cases operator <;> simp [Alike, UnaryOp.sign, Sign.apply, Expr.relabel, ha]

-- Two operands around a binary or a logical operator.
theorem joined_returns {left right : Expr} {operator : ChainOp} {mark : Symbol}
    (hl : Returns script left) (hr : Returns script right)
    (hm : ChainOp.ofSymbol? mark = some operator)
    (h : Reads (enclosed left.tokens ++ .symbol mark :: enclosed right.tokens) s t)
    (ht : t.token? = some (.symbol .rightParen)) :
    ∃ found first second : Expr, Derives script (.expression found) s t ∧
      first.Alike left ∧ second.Alike right ∧ ∃ offset, found = operator.join offset first second := by
  simp only [Reads, reads_append] at h
  obtain ⟨a, hleft, b, hp, hright⟩ := h
  have ha : endsSuffixes a.token? := by
    rw [hp.token?]
    revert hm
    cases mark <;> simp [ChainOp.ofSymbol?, endsSuffixes]
  obtain ⟨first, hdf, haf⟩ := hl.unary hleft ha
  obtain ⟨second, hds, has⟩ := hr.unary hright (endsOperand_closing ht (by simp)).1
  have hend := endsOperand_closing ht (by simp)
  have hd := Derives.chain hdf (.link hp hm hds (.noLinks hend.2.1)) hend.2.2
  rw [Chain.group_link] at hd
  exact ⟨_, first, second, hd, haf, has, _, rfl⟩

theorem binary_returns {offset : Nat} {operator : BinaryOp} {left right : Expr}
    (hl : Returns script left) (hr : Returns script right) :
    Returns script (.binary offset operator left right) := by
  intro s t h ht
  rw [Expr.tokens] at h
  have hm : ChainOp.ofSymbol? operator.mark = some (.binary operator) := by cases operator <;> rfl
  obtain ⟨_, first, second, hd, hf, hs, _, rfl⟩ := joined_returns hl hr hm h ht
  refine ⟨_, hd, ?_⟩
  simp [Alike, ChainOp.join, Expr.relabel, hf, hs]

theorem logical_returns {offset : Nat} {operator : LogicalOp} {left right : Expr}
    (hl : Returns script left) (hr : Returns script right) :
    Returns script (.logical offset operator left right) := by
  intro s t h ht
  rw [Expr.tokens] at h
  have hm : ChainOp.ofSymbol? operator.mark = some (.logical operator) := by cases operator <;> rfl
  obtain ⟨_, first, second, hd, hf, hs, _, rfl⟩ := joined_returns hl hr hm h ht
  refine ⟨_, hd, ?_⟩
  simp [Alike, ChainOp.join, Expr.relabel, hf, hs]

-- An expression in front of an operator that ends it.
theorem Returns.chain {target : Expr} {mark : Symbol} (h : Returns script target)
    (hr : Reads (enclosed target.tokens) s t) (ht : t.token? = some (.symbol mark))
    (hm : mark = .question ∨ mark = .assign ∨ (BinaryOp.ofAssignment? mark).isSome) :
    ∃ found, Derives script (.unary found) s t ∧ Derives script (.links []) t t ∧
      found.Alike target := by
  have hend : endsSuffixes t.token? ∧ endsLinks t.token? := by
    rw [ht]
    revert hm
    cases mark <;> simp [BinaryOp.ofAssignment?, endsSuffixes, endsLinks, ChainOp.ofSymbol?]
  obtain ⟨found, hd, ha⟩ := h.unary hr hend.1
  exact ⟨found, hd, .noLinks hend.2, ha⟩

theorem ternary_returns {offset : Nat} {test yes no : Expr} (htest : Returns script test)
    (hyes : Returns script yes) (hno : Returns script no) :
    Returns script (.ternary offset test yes no) := by
  intro s t h ht
  simp only [Expr.tokens, Reads, reads_append] at h
  obtain ⟨c, ⟨a, hrt, b, hq, hry⟩, d, hc, hrn⟩ := h
  obtain ⟨first, hdt, hl, hat⟩ := htest.chain hrt hq.token? (.inl rfl)
  obtain ⟨second, hdy, hay⟩ := hyes.expression hry (endsOperand_closing hc.token? (by simp))
  obtain ⟨third, hdn, han⟩ := hno.expression hrn (endsOperand_closing ht (by simp))
  refine ⟨_, .ternary hdt hl hq hdy hc hdn, ?_⟩
  simp [Alike, Expr.relabel, hat, hay, han]

theorem assign_returns {offset : Nat} {target value : Expr} (htarget : Returns script target)
    (hvalue : Returns script value) : Returns script (.assign offset target value) := by
  intro s t h ht
  simp only [Expr.tokens, Reads, reads_append] at h
  obtain ⟨a, hrt, b, hp, hrv⟩ := h
  obtain ⟨first, hdt, hl, hat⟩ := htarget.chain hrt hp.token? (.inr (.inl rfl))
  obtain ⟨second, hdv, hav⟩ := hvalue.expression hrv (endsOperand_closing ht (by simp))
  refine ⟨_, .assign hdt hl hp hdv, ?_⟩
  simp [Alike, Expr.relabel, hat, hav]

theorem update_returns {offset : Nat} {operator : BinaryOp} {target value : Expr}
    (hm : operator.assignmentMark?.isSome) (htarget : Returns script target)
    (hvalue : Returns script value) : Returns script (.update offset operator target value false) := by
  intro s t h ht
  obtain ⟨mark, hmark⟩ := Option.isSome_iff_exists.mp hm
  have hof : BinaryOp.ofAssignment? mark = some operator := by
    simpa using List.find?_some hmark
  simp only [Expr.tokens, hmark, Option.map_some, Option.toList_some, Reads, reads_append] at h
  obtain ⟨c, ⟨a, hrt, b, hp, rfl⟩, hrv⟩ := h
  obtain ⟨first, hdt, hl, hat⟩ := htarget.chain hrt hp.token? (.inr (.inr (by simp [hof])))
  obtain ⟨second, hdv, hav⟩ := hvalue.expression hrv (endsOperand_closing ht (by simp))
  refine ⟨_, .update hdt hl hp hof hdv, ?_⟩
  simp [Alike, Expr.relabel, hat, hav]

theorem bump_returns {offset place : Nat} {operator : BinaryOp} {target : Expr}
    (hb : operator.bump?.isSome) (htarget : Returns script target) :
    Returns script (.update offset operator target (integer place 1) true) := by
  intro s t h ht
  obtain ⟨bump, hbump⟩ := Option.isSome_iff_exists.mp hb
  have hop : bump.operator = operator := by
    revert hbump
    cases operator <;> simp [BinaryOp.bump?] <;> rintro rfl <;> rfl
  simp only [Expr.tokens, hbump, Option.map_some, Option.toList_some, Reads, reads_append] at h
  obtain ⟨a, hrt, b, hp, rfl⟩ := h
  obtain ⟨found, ha, hs, hd⟩ := htarget.operand hrt
  refine ⟨_, derives_primary (hd _ _ (.postfixed bump hp (noSuffix_rightParen ht))) hs ht, ?_⟩
  simp [Alike, increment, integer, Expr.relabel, ha, hop]

-- Expressions with commas between them.
theorem expressions_return {closing : Symbol} {values : List Expr}
    (h : ∀ value ∈ values, Returns script value)
    (hc : closing = .rightParen ∨ closing = .rightBracket)
    (hr : Reads (separated (tokensOfAll values)) s t) (ht : t.token? = some (.symbol closing)) :
    ∃ found, Derives script (.expressions closing found) s t ∧
      relabelAll .erasing found = relabelAll .erasing values := by
  have hstart {s t : Stream} {tokens : List Token} (hr : Reads (enclosed tokens) s t) :
      s.token? ≠ some (.symbol closing) := by
    obtain ⟨a, b, hl, -, -⟩ := reads_enclosed.mp hr
    rw [hl.token?]
    obtain rfl | rfl := hc <;> simp
  induction values generalizing s with
  | nil =>
    simp only [tokensOfAll, separated, Reads] at hr
    subst hr
    exact ⟨[], .noExpressions ht, rfl⟩
  | cons value rest ih =>
    rw [List.forall_mem_cons] at h
    cases rest with
    | nil =>
      simp only [tokensOfAll, separated] at hr
      have hend : endsOperand t.token? :=
        endsOperand_closing ht (by obtain rfl | rfl := hc <;> simp)
      obtain ⟨found, hd, ha⟩ := h.1.expression hr hend
      exact ⟨[found], .lastExpression (hstart hr) hd ht, by simp [relabelAll, ha]⟩
    | cons next others =>
      simp only [tokensOfAll, separated, reads_append, Reads] at hr
      obtain ⟨a, hv, b, hcomma, hrest⟩ := hr
      obtain ⟨found, hd, ha⟩ := h.1.expression hv (endsOperand_closing hcomma.token? (by simp))
      obtain ⟨more, hdm, ham⟩ := ih h.2 (by simpa only [tokensOfAll] using hrest)
      have hne : a.token? ≠ some (.symbol closing) := by
        rw [hcomma.token?]
        obtain rfl | rfl := hc <;> simp
      refine ⟨found :: more, .moreExpressions (hstart hv) hd hne hcomma hdm, ?_⟩
      simp only [relabelAll, ha] at ham ⊢
      rw [ham]

theorem call_returns {offset : Nat} {callee : Expr} {arguments : List Expr}
    (hcallee : Returns script callee) (h : ∀ value ∈ arguments, Returns script value) :
    Returns script (.call offset callee arguments) := by
  intro s t hr ht
  simp only [Expr.tokens, reads_append] at hr
  obtain ⟨a, hrc, hra⟩ := hr
  obtain ⟨b, c, hl, hrv, hc⟩ := reads_enclosed.mp hra
  obtain ⟨found, ha, hs, hd⟩ := hcallee.operand hrc
  obtain ⟨values, hdv, hav⟩ := expressions_return h (.inl rfl) hrv hc.token?
  refine ⟨_, derives_primary (hd _ _ (.call hl hdv hc (noSuffix_rightParen ht))) hs ht, ?_⟩
  simp [Alike, Expr.relabel, ha, hav]

theorem array_returns {offset : Nat} {elements : List Expr}
    (h : ∀ value ∈ elements, Returns script value) : Returns script (.array offset elements) := by
  intro s t hr ht
  simp only [Expr.tokens, reads_bracketed] at hr
  obtain ⟨a, b, hl, hrv, hc⟩ := hr
  obtain ⟨values, hdv, hav⟩ := expressions_return h (.inr rfl) hrv hc.token?
  refine ⟨_, derives_primary (.array hl hdv hc (noSuffix_rightParen ht)) ?_ ht, ?_⟩
  · rw [hl.token?]
    rfl
  · simp [Alike, Expr.relabel, hav]

theorem pathTail_reads {names : List String}
    (h : Reads (names.flatMap fun name => [.symbol .dot, .identifier name]) s t)
    (ht : t.token? = some (.symbol .leftParen)) : Derives script (.pathTail names) s t := by
  induction names generalizing s with
  | nil =>
    simp only [List.flatMap_nil, Reads] at h
    subst h
    exact .pathEnd (by simp [ht])
  | cons name rest ih =>
    simp only [List.flatMap_cons, List.cons_append, List.nil_append, Reads] at h
    obtain ⟨a, hdot, b, hname, hrest⟩ := h
    exact .pathStep hdot hname (ih hrest)

theorem construct_returns {offset : Nat} {names : List String} {arguments : List Expr}
    (hn : names ≠ []) (h : ∀ value ∈ arguments, Returns script value) :
    Returns script (.construct offset names arguments) := by
  intro s t hr ht
  obtain ⟨name, rest, rfl⟩ := List.exists_cons_of_ne_nil hn
  simp only [Expr.tokens, path, List.cons_append, Reads, reads_append] at hr
  obtain ⟨a, hnew, b, hname, c, hpath, hra⟩ := hr
  obtain ⟨d, e, hl, hrv, hc⟩ := reads_enclosed.mp hra
  obtain ⟨values, hdv, hav⟩ := expressions_return h (.inl rfl) hrv hc.token?
  have hp : Derives script (.pathTail rest) b c := pathTail_reads hpath hl.token?
  refine ⟨_, derives_primary (.construct hnew hname hp hl hdv hc (noSuffix_rightParen ht)) ?_ ht, ?_⟩
  · rw [hnew.token?]
    rfl
  · simp [Alike, Expr.relabel, hav]

theorem entries_return {entries : List (String × Expr)}
    (h : ∀ entry ∈ entries, Returns script entry.2)
    (hr : Reads (separated (tokensOfEntries entries)) s t)
    (ht : t.token? = some (.symbol .rightBrace)) :
    ∃ found, Derives script (.entries found) s t ∧
      relabelEntries .erasing found = relabelEntries .erasing entries := by
  induction entries generalizing s with
  | nil =>
    simp only [tokensOfEntries, separated, Reads] at hr
    subst hr
    exact ⟨[], .noEntries ht, rfl⟩
  | cons entry rest ih =>
    obtain ⟨key, value⟩ := entry
    rw [List.forall_mem_cons] at h
    cases rest with
    | nil =>
      simp only [tokensOfEntries, separated, Reads] at hr
      obtain ⟨a, hkey, b, hcolon, hv⟩ := hr
      obtain ⟨found, hd, ha⟩ := h.1.expression hv (endsOperand_closing ht (by simp))
      exact ⟨[(key, found)], .lastEntry hkey (.inr rfl) hcolon hd ht, by simp [relabelEntries, ha]⟩
    | cons next others =>
      obtain ⟨nextKey, nextValue⟩ := next
      simp only [tokensOfEntries, separated, reads_append, Reads] at hr
      obtain ⟨a, ⟨b, hkey, c, hcolon, hv⟩, d, hcomma, hrest⟩ := hr
      obtain ⟨found, hd, ha⟩ := h.1.expression hv (endsOperand_closing hcomma.token? (by simp))
      obtain ⟨more, hdm, ham⟩ := ih h.2 (by simpa only [tokensOfEntries] using hrest)
      refine ⟨(key, found) :: more, .moreEntries hkey (.inr rfl) hcolon hd hcomma hdm, ?_⟩
      simp only [relabelEntries, ha] at ham ⊢
      rw [ham]

theorem object_returns {offset : Nat} {entries : List (String × Expr)}
    (h : ∀ entry ∈ entries, Returns script entry.2) : Returns script (.object offset entries) := by
  intro s t hr ht
  simp only [Expr.tokens, reads_braced] at hr
  obtain ⟨a, b, hl, hre, hc⟩ := hr
  obtain ⟨pairs, hde, hae⟩ := entries_return h hre hc.token?
  refine ⟨_, derives_primary (.object hl hde hc (noSuffix_rightParen ht)) ?_ ht, ?_⟩
  · rw [hl.token?]
    rfl
  · simp [Alike, Expr.relabel, hae]

end Expr

end ScriptEngine
