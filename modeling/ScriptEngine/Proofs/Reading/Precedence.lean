import ScriptEngine.Program.Chain
import Mathlib.Logic.ExistsUnique

-- The tree of a chain, said without the passes over the levels: its root is the rightmost operator
-- of the loosest level in it, and what stands on both sides of the root is grouped by the same rule.
-- There is one such tree, and it is the one that joining level by level comes to.

namespace ScriptEngine

namespace ChainOp

def mark : ChainOp → Symbol
  | binary operator => operator.mark
  | logical operator => operator.mark

-- The operators that join operands, the ones that bind tightest first.
def levels : List (List Symbol) :=
  [[.times, .divide, .modulo],
   [.plus, .minus],
   [.shiftLeft, .shiftRight, .shiftRightUnsigned],
   [.equal, .unequal, .strictEqual, .strictUnequal, .less, .lessEqual, .greater, .greaterEqual],
   [.doubleAmpersand, .doubleBar, .ampersand, .bar, .caret]]

-- How loosely an operator binds: its place among the levels.
def looseness (operator : ChainOp) : Nat :=
  levels.findIdx (operator.mark ∈ ·)

@[simp] theorem ofSymbol?_mark (operator : ChainOp) : ofSymbol? operator.mark = some operator := by
  cases operator with
  | binary operator => cases operator <;> rfl
  | logical operator => cases operator <;> rfl

theorem ofSymbol?_eq_some {mark : Symbol} {operator : ChainOp} :
    ofSymbol? mark = some operator ↔ operator.mark = mark := by
  constructor
  · cases mark <;> rintro ⟨⟩ <;> rfl
  · rintro rfl
    exact ofSymbol?_mark operator

-- The levels hold every operator of a chain and no other symbol.
theorem exists_mark_eq {mark : Symbol} : (∃ operator, mark = ChainOp.mark operator) ↔
    mark ∈ levels.flatten := by
  constructor
  · rintro ⟨operator | operator, rfl⟩ <;> cases operator <;> decide
  · intro h
    have hs : (ofSymbol? mark).isSome := by
      revert h
      cases mark <;> decide
    obtain ⟨operator, ho⟩ := Option.isSome_iff_exists.mp hs
    exact ⟨operator, (ofSymbol?_eq_some.mp ho).symm⟩

theorem looseness_eq_level (operator : ChainOp) : operator.looseness = operator.level := by
  cases operator with
  | binary operator => cases operator <;> rfl
  | logical operator => cases operator <;> rfl

theorem looseness_lt (operator : ChainOp) : operator.looseness < 5 := by
  cases operator with
  | binary operator => cases operator <;> decide
  | logical operator => cases operator <;> decide

end ChainOp

-- The tree of an operand followed by links. The root of a chain is an operator that binds at least
-- as loosely as those on its left and more loosely than those on its right.
inductive Grouped : Expr → List Link → Expr → Prop where
  | operand (value : Expr) : Grouped value [] value
  | joined {first a b : Expr} {left right : List Link} {root : Link} :
      (∀ link ∈ left, link.operator.looseness ≤ root.operator.looseness) →
      (∀ link ∈ right, link.operator.looseness < root.operator.looseness) →
      Grouped first left a → Grouped root.operand right b →
      Grouped first (left ++ root :: right) (root.operator.join root.offset a b)

namespace Grouped

-- Two roots of one chain stand at one place.
theorem root_unique {left right left' right' : List Link} {root root' : Link}
    (h : left ++ root :: right = left' ++ root' :: right')
    (hl : ∀ link ∈ left, link.operator.looseness ≤ root.operator.looseness)
    (hr : ∀ link ∈ right, link.operator.looseness < root.operator.looseness)
    (hl' : ∀ link ∈ left', link.operator.looseness ≤ root'.operator.looseness)
    (hr' : ∀ link ∈ right', link.operator.looseness < root'.operator.looseness) :
    left = left' ∧ root = root' ∧ right = right' := by
  obtain ⟨between, hmore, hrest⟩ | ⟨between, hmore, hrest⟩ := List.append_eq_append_iff.mp h
  · cases between with
    | nil => simp_all
    | cons link between =>
      obtain ⟨rfl, rfl⟩ := List.cons.inj hrest
      have hle := hl' root (by simp [hmore])
      have hlt := hr root' (by simp)
      omega
  · cases between with
    | nil => simp_all
    | cons link between =>
      obtain ⟨rfl, rfl⟩ := List.cons.inj hrest
      have hle := hl root' (by simp [hmore])
      have hlt := hr' root (by simp)
      omega

theorem unique {first a b : Expr} {links : List Link} (h : Grouped first links a)
    (h' : Grouped first links b) : a = b := by
  induction h generalizing b with
  | operand value =>
    generalize hnil : ([] : List Link) = links at h'
    cases h' with
    | operand => rfl
    | joined => simp at hnil
  | @joined first a c left right root hl hr ha hc iha ihc =>
    generalize hsplit : left ++ root :: right = links at h'
    cases h' with
    | operand => simp at hsplit
    | joined hl' hr' ha' hc' =>
      obtain ⟨rfl, rfl, rfl⟩ := root_unique hsplit hl hr hl' hr'
      rw [iha ha', ihc hc']

-- What is true of a joined tree only if it is true of a side is true of the tree of a chain only if
-- it is true of an operand.
theorem exists_operand {first tree : Expr} {links : List Link} (h : Grouped first links tree)
    (holds : Expr → Prop)
    (hjoin : ∀ (operator : ChainOp) (offset : Nat) {left right : Expr},
      holds (operator.join offset left right) → holds left ∨ holds right)
    (ht : holds tree) :
    holds first ∨ ∃ link ∈ links, holds link.operand := by
  induction h with
  | operand value => exact .inl ht
  | @joined first a c left right root _ _ _ _ iha ihc =>
    obtain ha | hc := hjoin root.operator root.offset ht
    · obtain hf | ⟨link, hm, hl⟩ := iha ha
      · exact .inl hf
      · exact .inr ⟨link, List.mem_append_left _ hm, hl⟩
    · obtain hroot | ⟨link, hm, hl⟩ := ihc hc
      · exact .inr ⟨root, by simp, hroot⟩
      · exact .inr ⟨link, by simp [hm], hl⟩

end Grouped

namespace Chain

variable {level : Nat} {first : Expr} {links : List Link}

-- A pass drops the operators of its level and keeps the others.
theorem source_of_kept {link : Link} (h : link ∈ (joinLevel level first links).links) :
    link.operator.level ≠ level ∧ ∃ source ∈ links, source.operator = link.operator := by
  induction links generalizing first with
  | nil => simp [joinLevel] at h
  | cons next rest ih =>
    rw [joinLevel] at h
    split at h
    · obtain ⟨hne, source, hs, ho⟩ := ih h
      exact ⟨hne, source, List.mem_cons_of_mem next hs, ho⟩
    · next hne =>
      cases List.mem_cons.mp h with
      | inl h => exact h ▸ ⟨hne, next, List.mem_cons_self, rfl⟩
      | inr h =>
        obtain ⟨hne, source, hs, ho⟩ := ih h
        exact ⟨hne, source, List.mem_cons_of_mem next hs, ho⟩

theorem level_or_kept {link : Link} (h : link ∈ links) : link.operator.level = level ∨
    ∃ joined ∈ (joinLevel level first links).links, joined.operator = link.operator := by
  induction links generalizing first with
  | nil => cases h
  | cons next rest ih =>
    rw [joinLevel]
    split
    · next hlevel =>
      cases h with
      | head => exact .inl hlevel
      | tail _ h => exact ih h
    · cases h with
      | head => exact .inr ⟨_, List.mem_cons_self, rfl⟩
      | tail _ h => exact (ih h).imp_right fun ⟨joined, hj, ho⟩ => ⟨joined, .tail _ hj, ho⟩

-- An operator that a pass keeps stands between two parts that the pass joins on their own.
theorem joinLevel_split {left right : List Link} {root : Link}
    (h : (joinLevel level first links).links = left ++ root :: right) :
    ∃ before operand behind, links = before ++ ⟨root.operator, root.offset, operand⟩ :: behind ∧
      joinLevel level first before = ⟨(joinLevel level first links).first, left⟩ ∧
      joinLevel level operand behind = ⟨root.operand, right⟩ := by
  induction links generalizing first left with
  | nil => simp [joinLevel] at h
  | cons next rest ih =>
    rw [joinLevel] at h ⊢
    split at h
    · next hlevel =>
      obtain ⟨before, operand, behind, rfl, hbefore, hbehind⟩ := ih h
      exact ⟨next :: before, operand, behind, rfl, by simp [joinLevel, hlevel, hbefore], hbehind⟩
    · next hlevel =>
      cases left with
      | nil =>
        obtain ⟨rfl, rfl⟩ := List.cons.inj h
        exact ⟨[], next.operand, rest, rfl, by simp [joinLevel, hlevel], rfl⟩
      | cons kept left =>
        obtain ⟨rfl, htail⟩ := List.cons.inj h
        obtain ⟨before, operand, behind, rfl, hbefore, hbehind⟩ := ih htail
        exact ⟨next :: before, operand, behind, rfl, by simp [joinLevel, hlevel, hbefore], hbehind⟩

-- A chain of one level groups to the left. The pass has joined `seen` already.
theorem grouped_joinLevel_of_level {start : Expr} {seen : List Link}
    (h : Grouped start seen first) (hseen : ∀ link ∈ seen, link.operator.level = level)
    (hlinks : ∀ link ∈ links, link.operator.level = level) :
    Grouped start (seen ++ links) (joinLevel level first links).first := by
  induction links generalizing first seen with
  | nil => simpa [joinLevel] using h
  | cons next rest ih =>
    have hnext : next.operator.level = level := hlinks next List.mem_cons_self
    have hle : ∀ link ∈ seen, link.operator.looseness ≤ next.operator.looseness := by
      intro link hl
      refine Nat.le_of_eq ?_
      rw [ChainOp.looseness_eq_level, ChainOp.looseness_eq_level, hseen link hl, hnext]
    have hjoined : Grouped start (seen ++ [next])
        (next.operator.join next.offset first next.operand) :=
      .joined hle (by simp) h (.operand next.operand)
    rw [joinLevel, if_pos hnext]
    have hall := ih hjoined (by simpa [hnext, or_imp, forall_and] using hseen)
      fun link hl => hlinks link (List.mem_cons_of_mem next hl)
    simpa using hall

-- A tree of what a pass leaves is a tree of the whole chain, if no operator binds tighter than the
-- level of the pass.
theorem grouped_of_joinLevel {tree : Expr}
    (hlevel : ∀ link ∈ links, level ≤ link.operator.level)
    (h : Grouped (joinLevel level first links).first (joinLevel level first links).links tree) :
    Grouped first links tree := by
  generalize hchain : joinLevel level first links = chain at h
  obtain ⟨joined, kept⟩ := chain
  dsimp only at h
  induction h generalizing first links with
  | operand value =>
    have hall : ∀ link ∈ links, link.operator.level = level := by
      intro link hl
      obtain hl | ⟨kept, hk, -⟩ := @level_or_kept level first links link hl
      · exact hl
      · simp [hchain] at hk
    have hgrouped : Grouped first links (joinLevel level first links).first :=
      grouped_joinLevel_of_level (.operand first) (by simp) hall
    rwa [hchain] at hgrouped
  | @joined joined a b left right root hl hr _ _ iha ihb =>
    obtain ⟨before, operand, behind, rfl, hbefore, hbehind⟩ :=
      joinLevel_split (congrArg Chain.links hchain)
    rw [hchain] at hbefore
    simp only [List.mem_append, List.mem_cons, or_imp, forall_and, forall_eq] at hlevel
    obtain ⟨hbelow, hroot, habove⟩ := hlevel
    have hlt : level < root.operator.level := by
      have hkept : root ∈ (joinLevel level first
          (before ++ ⟨root.operator, root.offset, operand⟩ :: behind)).links := by
        rw [hchain]
        simp
      have hne := (source_of_kept hkept).1
      omega
    simp only [ChainOp.looseness_eq_level] at hl hr
    have hbefore' : ∀ link ∈ before, link.operator.level ≤ root.operator.level := by
      intro link hm
      obtain hm | ⟨kept, hk, ho⟩ := @level_or_kept level first before link hm
      · omega
      · rw [hbefore] at hk
        exact ho ▸ hl kept hk
    have hbehind' : ∀ link ∈ behind, link.operator.level < root.operator.level := by
      intro link hm
      obtain hm | ⟨kept, hk, ho⟩ := @level_or_kept level operand behind link hm
      · omega
      · rw [hbehind] at hk
        exact ho ▸ hr kept hk
    simp only [← ChainOp.looseness_eq_level] at hbefore' hbehind'
    exact @Grouped.joined first a b before behind ⟨root.operator, root.offset, operand⟩ hbefore'
      hbehind' (iha hbelow hbefore) (ihb habove hbehind)

-- The passes from some level on, over a chain whose tighter operators are joined already.
theorem grouped_passes {count : Nat} {chain : Chain} (hcount : level + count = 5)
    (hlevel : ∀ link ∈ chain.links, level ≤ link.operator.level) :
    Grouped chain.first chain.links ((List.range' level count).foldl
      (fun chain level => joinLevel level chain.first chain.links) chain).first := by
  induction count generalizing level chain with
  | zero =>
    obtain ⟨first, links⟩ := chain
    obtain rfl : links = [] := by
      refine List.eq_nil_iff_forall_not_mem.mpr fun link hl => ?_
      have hle := hlevel link hl
      have hlt := link.operator.looseness_lt
      rw [ChainOp.looseness_eq_level] at hlt
      omega
    exact .operand first
  | succ count ih =>
    refine grouped_of_joinLevel hlevel (ih (by omega) fun link hl => ?_)
    obtain ⟨hne, source, hs, ho⟩ := source_of_kept hl
    have hle := hlevel source hs
    rw [ho] at hle
    omega

theorem group_grouped (chain : Chain) : Grouped chain.first chain.links chain.group :=
  grouped_passes (Nat.zero_add 5) fun _ _ => Nat.zero_le _

-- Joining level by level gives the tree of the precedences and no other one.
theorem grouped_iff {tree : Expr} : Grouped first links tree ↔ tree = group ⟨first, links⟩ := by
  constructor
  · intro h
    exact h.unique (group_grouped ⟨first, links⟩)
  · rintro rfl
    exact group_grouped ⟨first, links⟩

end Chain

end ScriptEngine
