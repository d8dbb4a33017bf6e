import ScriptEngine.Proofs.Reading.Levels

-- Operands as they are written, and chains of them. An operand is a primary expression with the
-- suffixes behind it and the operators in front of it, and its tree applies the suffixes first.

namespace ScriptEngine

namespace Grammar

open ScriptEngine.Parser

-- What stands behind a primary expression and belongs to it.
inductive Suffix where
  | dot (offset : Nat) (name : String)
  | call (offset : Nat) (arguments : List Expr)
  | subscript (offset : Nat) (index : Expr)
  | postfixed (offset : Nat) (bump : Bump)

def Suffix.apply (target : Expr) : Suffix → Expr
  | dot offset name => .dot offset target name
  | call offset arguments => .call offset target arguments
  | subscript offset index => .subscript offset target index
  | postfixed offset bump => increment offset bump.operator target true

inductive Suffix.Spelled (script : List Char) : Suffix → Stream → Stream → Prop where
  | dot {s a t : Stream} {name : String} : s.Passes (.symbol .dot) a →
      a.Passes (.identifier name) t → Spelled script (.dot s.offset name) s t
  | call {s a b t : Stream} {arguments : List Expr} : s.Passes (.symbol .leftParen) a →
      Derives script (.expressions .rightParen arguments) a b → b.Passes (.symbol .rightParen) t →
      Spelled script (.call s.offset arguments) s t
  | subscript {s a b t : Stream} {index : Expr} : s.Passes (.symbol .leftBracket) a →
      Derives script (.expression index) a b → b.Passes (.symbol .rightBracket) t →
      Spelled script (.subscript s.offset index) s t
  | postfixed {s t : Stream} (bump : Bump) : s.Passes (.symbol bump.mark) t →
      Spelled script (.postfixed s.offset bump) s t

-- Suffixes one behind the other.
inductive Suffixed (script : List Char) : List Suffix → Stream → Stream → Prop where
  | nil {s : Stream} : Suffixed script [] s s
  | cons {suffix : Suffix} {suffixes : List Suffix} {s a t : Stream} :
      suffix.Spelled script s a → Suffixed script suffixes a t →
      Suffixed script (suffix :: suffixes) s t

-- A primary expression without suffixes.
inductive Core (script : List Char) : Expr → Stream → Stream → Prop where
  | atom {s t : Stream} (atom : Atom) : s.Passes atom.token t → Core script (atom.expr s.offset) s t
  | parens {s a b t : Stream} {inner : Expr} : s.Passes (.symbol .leftParen) a →
      Derives script (.expression inner) a b → b.Passes (.symbol .rightParen) t →
      Core script inner s t
  | object {s a b t : Stream} {pairs : List (String × Expr)} : s.Passes (.symbol .leftBrace) a →
      Derives script (.entries pairs) a b → b.Passes (.symbol .rightBrace) t →
      Core script (.object s.offset pairs) s t
  | array {s a b t : Stream} {elements : List Expr} : s.Passes (.symbol .leftBracket) a →
      Derives script (.expressions .rightBracket elements) a b →
      b.Passes (.symbol .rightBracket) t → Core script (.array s.offset elements) s t
  | lambda {s a t : Stream} {literal : Function} : s.Passes (.keyword .functionWord) a →
      Derives script (.function literal) a t → literal.name = none →
      Core script (.function s.offset literal) s t
  | construct {s a b c d e t : Stream} {name : String} {names : List String}
      {arguments : List Expr} : s.Passes (.keyword .newWord) a → a.Passes (.identifier name) b →
      Derives script (.pathTail names) b c → c.Passes (.symbol .leftParen) d →
      Derives script (.expressions .rightParen arguments) d e → e.Passes (.symbol .rightParen) t →
      Core script (.construct s.offset (name :: names) arguments) s t
  | constructBare {s a b t : Stream} {name : String} {names : List String} :
      s.Passes (.keyword .newWord) a → a.Passes (.identifier name) b →
      Derives script (.pathTail names) b t → t.token? ≠ some (.symbol .leftParen) →
      Core script (.construct s.offset (name :: names) []) s t

-- A primary expression with suffixes, and in front of it perhaps one bump and any number of signs.
inductive Operand where
  | plain (core : Expr) (suffixes : List Suffix)
  | bumped (offset : Nat) (bump : Bump) (core : Expr) (suffixes : List Suffix)
  | signed (offset : Nat) (sign : Sign) (operand : Operand)

namespace Operand

-- Suffixes bind tighter than what stands in front.
def tree : Operand → Expr
  | plain core suffixes => suffixes.foldl Suffix.apply core
  | bumped offset bump core suffixes =>
    increment offset bump.operator (suffixes.foldl Suffix.apply core) false
  | signed offset sign operand => sign.apply offset operand.tree

inductive Spelled (script : List Char) : Operand → Stream → Stream → Prop where
  | plain {core : Expr} {suffixes : List Suffix} {s a t : Stream} : Core script core s a →
      Suffixed script suffixes a t → Spelled script (.plain core suffixes) s t
  | bumped {core : Expr} {suffixes : List Suffix} {s a b t : Stream} (bump : Bump) :
      s.Passes (.symbol bump.mark) a → Core script core a b → Suffixed script suffixes b t →
      Spelled script (.bumped s.offset bump core suffixes) s t
  | signed {operand : Operand} {s a t : Stream} (sign : Sign) : s.Passes sign.token a →
      Spelled script operand a t → Spelled script (.signed s.offset sign operand) s t

end Operand

-- An operator and the operand on its right.
structure Joint where
  operator : ChainOp
  offset : Nat
  operand : Operand

def Joint.link (joint : Joint) : Link :=
  ⟨joint.operator, joint.offset, joint.operand.tree⟩

-- Joints one behind the other.
inductive Jointed (script : List Char) : List Joint → Stream → Stream → Prop where
  | nil {s : Stream} : Jointed script [] s s
  | cons {operator : ChainOp} {operand : Operand} {joints : List Joint} {s a b t : Stream} :
      s.Passes (.symbol operator.mark) a → operand.Spelled script a b → Jointed script joints b t →
      Jointed script (⟨operator, s.offset, operand⟩ :: joints) s t

variable {script : List Char} {s t : Stream}

theorem suffixes_iff {target value : Expr} : Derives script (.suffixes target value) s t ↔
    endsSuffixes t.token? ∧
      ∃ suffixes, Suffixed script suffixes s t ∧ suffixes.foldl Suffix.apply target = value := by
  constructor
  · generalize hphrase : Phrase.suffixes target value = phrase
    intro h
    induction h generalizing target with
    | noSuffix hs =>
      cases hphrase
      exact ⟨hs, [], .nil, rfl⟩
    | dot hp hi _ ih =>
      cases hphrase
      obtain ⟨hs, suffixes, hrest, rfl⟩ := ih rfl
      exact ⟨hs, _ :: suffixes, .cons (.dot hp hi) hrest, rfl⟩
    | call hp ha hc _ _ ih =>
      cases hphrase
      obtain ⟨hs, suffixes, hrest, rfl⟩ := ih rfl
      exact ⟨hs, _ :: suffixes, .cons (.call hp ha hc) hrest, rfl⟩
    | subscript hp he hc _ _ ih =>
      cases hphrase
      obtain ⟨hs, suffixes, hrest, rfl⟩ := ih rfl
      exact ⟨hs, _ :: suffixes, .cons (.subscript hp he hc) hrest, rfl⟩
    | postfixed bump hp _ ih =>
      cases hphrase
      obtain ⟨hs, suffixes, hrest, rfl⟩ := ih rfl
      exact ⟨hs, _ :: suffixes, .cons (.postfixed bump hp) hrest, rfl⟩
    | _ => cases hphrase
  · rintro ⟨hs, suffixes, h, rfl⟩
    induction h generalizing target with
    | nil => exact .noSuffix hs
    | @cons suffix suffixes s a t h _ ih =>
      have hrest : Derives script (.suffixes (suffix.apply target)
          (suffixes.foldl Suffix.apply (suffix.apply target))) a t := ih hs
      cases h with
      | dot hp hi => exact .dot hp hi hrest
      | call hp ha hc => exact .call hp ha hc hrest
      | subscript hp he hc => exact .subscript hp he hc hrest
      | postfixed bump hp => exact .postfixed bump hp hrest

theorem primary_iff {value : Expr} : Derives script (.primary value) s t ↔
    endsSuffixes t.token? ∧ ∃ core suffixes a, Core script core s a ∧
      Suffixed script suffixes a t ∧ suffixes.foldl Suffix.apply core = value := by
  constructor
  · intro h
    cases h with
    | atom atom hp h =>
      obtain ⟨hs, suffixes, hrest, rfl⟩ := suffixes_iff.mp h
      exact ⟨hs, _, suffixes, _, .atom atom hp, hrest, rfl⟩
    | parens hp he hc h =>
      obtain ⟨hs, suffixes, hrest, rfl⟩ := suffixes_iff.mp h
      exact ⟨hs, _, suffixes, _, .parens hp he hc, hrest, rfl⟩
    | object hp he hc h =>
      obtain ⟨hs, suffixes, hrest, rfl⟩ := suffixes_iff.mp h
      exact ⟨hs, _, suffixes, _, .object hp he hc, hrest, rfl⟩
    | array hp he hc h =>
      obtain ⟨hs, suffixes, hrest, rfl⟩ := suffixes_iff.mp h
      exact ⟨hs, _, suffixes, _, .array hp he hc, hrest, rfl⟩
    | lambda hp hf hn h =>
      obtain ⟨hs, suffixes, hrest, rfl⟩ := suffixes_iff.mp h
      exact ⟨hs, _, suffixes, _, .lambda hp hf hn, hrest, rfl⟩
    | construct hp hi hn hd ha hc h =>
      obtain ⟨hs, suffixes, hrest, rfl⟩ := suffixes_iff.mp h
      exact ⟨hs, _, suffixes, _, .construct hp hi hn hd ha hc, hrest, rfl⟩
    | constructBare hp hi hn hd h =>
      obtain ⟨hs, suffixes, hrest, rfl⟩ := suffixes_iff.mp h
      exact ⟨hs, _, suffixes, _, .constructBare hp hi hn hd, hrest, rfl⟩
  · rintro ⟨hs, core, suffixes, a, hcore, hrest, rfl⟩
    have h : Derives script (.suffixes core (suffixes.foldl Suffix.apply core)) a t :=
      suffixes_iff.mpr ⟨hs, suffixes, hrest, rfl⟩
    cases hcore with
    | atom atom hp => exact .atom atom hp h
    | parens hp he hc => exact .parens hp he hc h
    | object hp he hc => exact .object hp he hc h
    | array hp he hc => exact .array hp he hc h
    | lambda hp hf hn => exact .lambda hp hf hn h
    | construct hp hi hn hd ha hc => exact .construct hp hi hn hd ha hc h
    | constructBare hp hi hn hd => exact .constructBare hp hi hn hd h

-- A primary expression does not start like an operator in front of an operand.
theorem Core.startsOperand {core : Expr} (h : Core script core s t) : startsOperand s.token? := by
  cases h with
  | atom atom hp =>
    rw [hp.token?]
    cases atom <;> first | rfl | (cases ‹Bool› <;> rfl)
  | parens hp | object hp | array hp | lambda hp | construct hp | constructBare hp =>
    rw [hp.token?]
    rfl

theorem unary_iff {value : Expr} : Derives script (.unary value) s t ↔
    endsSuffixes t.token? ∧ ∃ operand : Operand, operand.Spelled script s t ∧ operand.tree = value := by
  constructor
  · generalize hphrase : Phrase.unary value = phrase
    intro h
    induction h generalizing value with
    | signed sign hp _ ih =>
      cases hphrase
      obtain ⟨hs, operand, hoperand, rfl⟩ := ih rfl
      exact ⟨hs, .signed _ sign operand, .signed sign hp hoperand, rfl⟩
    | bumped bump hp h =>
      cases hphrase
      obtain ⟨hs, core, suffixes, a, hcore, hrest, rfl⟩ := primary_iff.mp h
      exact ⟨hs, .bumped _ bump core suffixes, .bumped bump hp hcore hrest, rfl⟩
    | unsigned _ h =>
      cases hphrase
      obtain ⟨hs, core, suffixes, a, hcore, hrest, rfl⟩ := primary_iff.mp h
      exact ⟨hs, .plain core suffixes, .plain hcore hrest, rfl⟩
    | _ => cases hphrase
  · rintro ⟨hs, operand, h, rfl⟩
    induction h with
    | plain hcore hrest =>
      exact .unsigned hcore.startsOperand (primary_iff.mpr ⟨hs, _, _, _, hcore, hrest, rfl⟩)
    | bumped bump hp hcore hrest =>
      exact .bumped bump hp (primary_iff.mpr ⟨hs, _, _, _, hcore, hrest, rfl⟩)
    | signed sign hp _ ih => exact .signed sign hp (ih hs)

-- The symbol of an operator starts no suffix.
theorem endsSuffixes_mark {operator : ChainOp} (ht : s.token? = some (.symbol operator.mark)) :
    endsSuffixes s.token? := by
  rw [ht]
  cases operator with
  | binary operator => cases operator <;> rfl
  | logical operator => cases operator <;> rfl

-- Neither a suffix nor an operator of a chain follows.
def endsJoints (token : Option Token) : Bool :=
  endsSuffixes token && endsLinks token

theorem jointed_of_links {operands : List Link} (h : Derives script (.links operands) s t)
    (hs : endsSuffixes s.token?) :
    endsJoints t.token? ∧ ∃ joints, Jointed script joints s t ∧ joints.map Joint.link = operands := by
  generalize hphrase : Phrase.links operands = phrase at h
  induction h generalizing operands with
  | noLinks hl =>
    cases hphrase
    exact ⟨by simp [endsJoints, hs, hl], [], .nil, rfl⟩
  | link hp ho hu _ _ ih =>
    cases hphrase
    obtain rfl := ChainOp.ofSymbol?_eq_some.mp ho
    obtain ⟨hends, operand, hoperand, rfl⟩ := unary_iff.mp hu
    obtain ⟨hends, joints, hjoints, rfl⟩ := ih hends rfl
    exact ⟨hends, ⟨_, _, operand⟩ :: joints, .cons hp hoperand hjoints, rfl⟩
  | _ => cases hphrase

theorem Jointed.links {joints : List Joint} (h : Jointed script joints s t)
    (ht : endsJoints t.token?) :
    endsSuffixes s.token? ∧ Derives script (.links (joints.map Joint.link)) s t := by
  simp only [endsJoints, Bool.and_eq_true] at ht
  induction h with
  | nil => exact ⟨ht.1, .noLinks ht.2⟩
  | cons hp hoperand _ ih =>
    obtain ⟨hends, hlinks⟩ := ih ht
    exact ⟨endsSuffixes_mark hp.token?, .link hp (ChainOp.ofSymbol?_mark _)
      (unary_iff.mpr ⟨hends, _, hoperand, rfl⟩) hlinks⟩

-- From one place to another there are operands with operators between them and no more of both
-- follow, and the tree of them is the one of the precedences.
def Chained (script : List Char) (tree : Expr) (s t : Stream) : Prop :=
  ∃ (first : Operand) (joints : List Joint) (a : Stream),
    first.Spelled script s a ∧ Jointed script joints a t ∧ endsJoints t.token? ∧
      Grouped first.tree (joints.map Joint.link) tree

theorem chained_iff {tree : Expr} : Chained script tree s t ↔
    ∃ first operands a, Derives script (.unary first) s a ∧ Derives script (.links operands) a t ∧
      tree = Chain.group ⟨first, operands⟩ := by
  constructor
  · rintro ⟨first, joints, a, hfirst, hjoints, ht, htree⟩
    obtain ⟨ha, hlinks⟩ := hjoints.links ht
    exact ⟨_, _, a, unary_iff.mpr ⟨ha, first, hfirst, rfl⟩, hlinks, Chain.grouped_iff.mp htree⟩
  · rintro ⟨_, _, a, hunary, hlinks, rfl⟩
    obtain ⟨ha, first, hfirst, rfl⟩ := unary_iff.mp hunary
    obtain ⟨ht, joints, hjoints, rfl⟩ := jointed_of_links hlinks ha
    exact ⟨first, joints, a, hfirst, hjoints, ht, Chain.grouped_iff.mpr rfl⟩

-- The expression that starts with a chain: the chain itself, a choice by it, or an assignment to it.
inductive Completed (script : List Char) (chain : Expr) (s : Stream) : Expr → Stream → Prop where
  | alone : endsChain s.token? → Completed script chain s chain s
  | ternary {a b c t : Stream} {yes no : Expr} : s.Passes (.symbol .question) a →
      Derives script (.expression yes) a b → b.Passes (.symbol .colon) c →
      Derives script (.expression no) c t →
      Completed script chain s (.ternary s.offset chain yes no) t
  | assign {a t : Stream} {value : Expr} : s.Passes (.symbol .assign) a →
      Derives script (.expression value) a t →
      Completed script chain s (.assign s.offset chain value) t
  | update {a t : Stream} {value : Expr} {mark : Symbol} {operator : BinaryOp} :
      s.Passes (.symbol mark) a → BinaryOp.ofAssignment? mark = some operator →
      Derives script (.expression value) a t →
      Completed script chain s (.update s.offset operator chain value false) t

theorem expression_iff {value : Expr} : Derives script (.expression value) s t ↔
    ∃ tree a, Chained script tree s a ∧ Completed script tree a value t := by
  constructor
  · intro h
    cases h with
    | chain hf hl hc => exact ⟨_, _, chained_iff.mpr ⟨_, _, _, hf, hl, rfl⟩, .alone hc⟩
    | ternary hf hl hq hy hc hn =>
      exact ⟨_, _, chained_iff.mpr ⟨_, _, _, hf, hl, rfl⟩, .ternary hq hy hc hn⟩
    | assign hf hl hq hv => exact ⟨_, _, chained_iff.mpr ⟨_, _, _, hf, hl, rfl⟩, .assign hq hv⟩
    | update hf hl hq ho hv =>
      exact ⟨_, _, chained_iff.mpr ⟨_, _, _, hf, hl, rfl⟩, .update hq ho hv⟩
  · rintro ⟨tree, a, hchain, hvalue⟩
    obtain ⟨first, operands, b, hf, hl, rfl⟩ := chained_iff.mp hchain
    cases hvalue with
    | alone hc => exact .chain hf hl hc
    | ternary hq hy hc hn => exact .ternary hf hl hq hy hc hn
    | assign hq hv => exact .assign hf hl hq hv
    | update hq ho hv => exact .update hf hl hq ho hv

end Grammar

open Grammar

-- The parts of a chain have one tree. Five loops, one for each level, read exactly the chains that
-- are written, with that tree, and an expression is read exactly where a chain is written, with the
-- same one. Eight calls for every token are enough for both, and more change nothing.
theorem Expr.read_precedence (script : String) :
    (∀ (first : Operand) (joints : List Joint),
      ∃! tree, Grouped first.tree (joints.map Joint.link) tree) ∧
    (∀ (s t : Stream) (tree : Expr) (spare : Nat),
      (climb script.toList (8 * s.length + 2 + spare) 5).run s = .ok tree t ↔
        Chained script.toList tree s t) ∧
    (∀ (s t : Stream) (value : Expr) (spare : Nat),
      (expression script.toList (8 * s.length + 3 + spare)).run s = .ok value t ↔
        ∃ tree a, Chained script.toList tree s a ∧ Completed script.toList tree a value t) ∧
    ∀ value : Expr, Expr.read script = .ok value ↔
      (Stream.ofText script.toList).Intact ∧
        ∃ tree a s t, Chained script.toList tree (Stream.ofText script.toList) a ∧
          Completed script.toList tree a value s ∧ s.Closes t ∧ t.token? = none := by
  refine ⟨fun first joints => ?_, fun s t tree spare => ?_, fun s t value spare => ?_,
    fun value => ?_⟩
  · exact ⟨_, Chain.group_grouped ⟨first.tree, joints.map Joint.link⟩,
      fun _ h => Chain.grouped_iff.mp h⟩
  · rw [chained_iff]
    exact climb_iff (by omega)
  · rw [← expression_iff]
    constructor
    · exact Gives.derives (.expression value)
    · intro h
      exact h.gives (by grind)
  · rw [Expr.read_eq_ok]
    refine and_congr_right fun _ => ?_
    constructor
    · rintro ⟨s, t, hvalue, hs, ht⟩
      obtain ⟨tree, a, hchain, hvalue⟩ := expression_iff.mp hvalue
      exact ⟨tree, a, s, t, hchain, hvalue, hs, ht⟩
    · rintro ⟨tree, a, s, t, hchain, hvalue, hs, ht⟩
      exact ⟨s, t, expression_iff.mpr ⟨tree, a, hchain, hvalue⟩, hs, ht⟩

end ScriptEngine
