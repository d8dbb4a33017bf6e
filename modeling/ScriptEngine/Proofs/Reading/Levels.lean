import ScriptEngine.Proofs.Reading.Completeness
import ScriptEngine.Proofs.Reading.Precedence

-- Chains read level by level: one loop for each level, and the operands of a loop come from the loop
-- of the next tighter level. A loop stops in front of an operator of a looser level and leaves it to
-- the loops around it. The tree is the one that is made of a chain that has been read as a whole.

namespace ScriptEngine.Grammar

open ScriptEngine.Parser

-- The operator of the level that a token stands for.
def operatorAt? (level : Nat) : Option Token → Option ChainOp
  | some (.symbol mark) => (ChainOp.ofSymbol? mark).filter (·.level = level)
  | _ => none

-- The loop of a level: it joins operands to what it has as long as operators of the level follow.
def joinWhile (operand : Parser Expr) (level : Nat) : Nat → Expr → Parser Expr
  | 0, _ => spent
  | fuel + 1, left => do
    let offset ← here
    match operatorAt? level (← peek) with
    | some operator => do
      advance
      let right ← operand
      joinWhile operand level fuel (operator.join offset left right)
    | none => return left

-- The loops of all levels below one.
def climb (script : List Char) (fuel : Nat) : Nat → Parser Expr
  | 0 => unary script fuel
  | level + 1 => do
    let first ← climb script fuel level
    joinWhile (climb script fuel level) level fuel first

-- Operators with their operands, one behind the other.
inductive Linked (script : List Char) : List Link → Stream → Stream → Prop
  | nil {s : Stream} : Linked script [] s s
  | cons {operator : ChainOp} {operand : Expr} {links : List Link} {s a b t : Stream} :
      s.Passes (.symbol operator.mark) a → Derives script (.unary operand) a b →
      Linked script links b t → Linked script (⟨operator, s.offset, operand⟩ :: links) s t

-- No operator of a level below the given one comes next.
def StopsAt (level : Nat) (s : Stream) : Prop :=
  ∀ operator, s.token? = some (.symbol (ChainOp.mark operator)) → level ≤ operator.level

-- A chain of the levels below the given one, and its tree.
def Climbed (script : List Char) (level : Nat) (tree : Expr) (s t : Stream) : Prop :=
  ∃ first links a, Derives script (.unary first) s a ∧ Linked script links a t ∧
    (∀ link ∈ links, link.operator.level < level) ∧ StopsAt level t ∧ Grouped first links tree

variable {script : List Char} {level fuel : Nat} {first left tree : Expr} {seen links : List Link}
  {s t : Stream}

theorem operatorAt?_eq_some {token : Option Token} {operator : ChainOp} :
    operatorAt? level token = some operator ↔
      token = some (.symbol operator.mark) ∧ operator.level = level := by
  unfold operatorAt?
  split
  · next mark =>
    rw [Option.filter_eq_some_iff, ChainOp.ofSymbol?_eq_some]
    grind
  · next hne =>
    constructor
    · intro h
      cases h
    · rintro ⟨h, -⟩
      exact absurd h (hne _)

theorem StopsAt.succ (h : StopsAt level s) (ht : operatorAt? level s.token? = none) :
    StopsAt (level + 1) s := by
  intro operator ho
  refine Nat.lt_of_le_of_ne (h operator ho) fun hl => ?_
  have hat : operatorAt? level s.token? = some operator := operatorAt?_eq_some.mpr ⟨ho, hl.symm⟩
  rw [ht] at hat
  cases hat

theorem StopsAt.of_passes {operator : ChainOp} {a : Stream}
    (hp : s.Passes (.symbol operator.mark) a) (h : level ≤ operator.level) : StopsAt level s := by
  intro other ho
  rw [hp.token?, Option.some_inj, Token.symbol.injEq] at ho
  have hother := ChainOp.ofSymbol?_mark other
  rw [← ho, ChainOp.ofSymbol?_mark, Option.some_inj] at hother
  exact hother ▸ h

namespace Linked

theorem append {more : List Link} {m : Stream} (h : Linked script links s m)
    (hm : Linked script more m t) : Linked script (links ++ more) s t := by
  induction h with
  | nil => exact hm
  | cons hp hu _ ih => exact .cons hp hu (ih hm)

theorem length_le (h : Linked script links s t) : t.length + links.length ≤ s.length := by
  induction h with
  | nil => exact Nat.le_refl _
  | cons hp hu _ ih =>
    have := hp.length
    have := hu.length_le
    grind

-- What stands before the first operator that does not bind tighter than the level.
theorem split (h : Linked script links s t) (ht : StopsAt level t) :
    ∃ inner outer m, links = inner ++ outer ∧ Linked script inner s m ∧ Linked script outer m t ∧
      (∀ link ∈ inner, link.operator.level < level) ∧ StopsAt level m := by
  induction h with
  | nil => exact ⟨[], [], _, rfl, .nil, .nil, by simp, ht⟩
  | @cons operator operand links s a b t hp hu hrest ih =>
    obtain hl | hl := Nat.lt_or_ge operator.level level
    · obtain ⟨inner, outer, m, rfl, hinner, houter, hlt, hm⟩ := ih ht
      exact ⟨_ :: inner, outer, m, rfl, .cons hp hu hinner, houter,
        List.forall_mem_cons.mpr ⟨hl, hlt⟩, hm⟩
    · exact ⟨[], _, s, rfl, .nil, .cons hp hu hrest, by simp, .of_passes hp hl⟩

end Linked

-- The links of a chain are read to their end.
theorem links_iff : Derives script (.links links) s t ↔ Linked script links s t ∧ StopsAt 5 t := by
  constructor
  · generalize hphrase : Phrase.links links = phrase
    intro h
    induction h generalizing links with
    | @noLinks s hends =>
      cases hphrase
      refine ⟨.nil, fun operator ho => ?_⟩
      rw [ho, endsLinks, ChainOp.ofSymbol?_mark] at hends
      cases hends
    | link hp ho hu _ _ ih =>
      cases hphrase
      obtain rfl := ChainOp.ofSymbol?_eq_some.mp ho
      obtain ⟨hlinked, hstops⟩ := ih rfl
      exact ⟨.cons hp hu hlinked, hstops⟩
    | _ => cases hphrase
  · rintro ⟨h, hstops⟩
    induction h with
    | @nil s =>
      refine .noLinks ?_
      unfold endsLinks
      split
      · next mark ht =>
        rw [Option.isNone_iff_eq_none, Option.eq_none_iff_forall_ne_some]
        rintro operator ho
        obtain rfl := ChainOp.ofSymbol?_eq_some.mp ho
        have hle := hstops operator ht
        have hlt := operator.looseness_lt
        rw [ChainOp.looseness_eq_level] at hlt
        omega
      · rfl
    | cons hp hu _ ih => exact .link hp (ChainOp.ofSymbol?_mark _) hu (ih hstops)

-- An operator of a level takes what has been joined so far and a chain of the tighter levels.
theorem grouped_join {operator : ChainOp} {operand right : Expr} {inner : List Link} (offset : Nat)
    (hl : operator.level = level) (hseen : ∀ link ∈ seen, link.operator.level ≤ level)
    (hinner : ∀ link ∈ inner, link.operator.level < level) (hleft : Grouped first seen left)
    (hright : Grouped operand inner right) :
    Grouped first (seen ++ ⟨operator, offset, operand⟩ :: inner)
      (operator.join offset left right) := by
  simp only [← hl, ← ChainOp.looseness_eq_level] at hseen hinner
  exact @Grouped.joined first left right seen inner ⟨operator, offset, operand⟩ hseen hinner hleft
    hright

-- A loop whose operands are chains of the tighter levels makes a chain that has its level too.
theorem joinWhile_sound {operand : Parser Expr}
    (hoperand : ∀ {s t value}, operand.run s = .ok value t → Climbed script level value s t)
    (h : (joinWhile operand level fuel left).run s = .ok tree t) (hs : StopsAt level s)
    (hseen : ∀ link ∈ seen, link.operator.level ≤ level) (hleft : Grouped first seen left) :
    ∃ links, Linked script links s t ∧ (∀ link ∈ links, link.operator.level ≤ level) ∧
      StopsAt (level + 1) t ∧ Grouped first (seen ++ links) tree := by
  induction fuel generalizing left seen s with
  | zero => cases h
  | succ fuel ih =>
    rw [joinWhile] at h
    simp only [run_here_bind, run_peek_bind] at h
    split at h
    · next operator ho =>
      obtain ⟨ht, hl⟩ := operatorAt?_eq_some.mp ho
      simp only [bind_eq_ok, advance_eq_ok ht] at h
      obtain ⟨-, a, hp, right, b, hright, h⟩ := h
      obtain ⟨operand, inner, m, hu, hinner, hlt, hb, hgrouped⟩ := hoperand hright
      obtain ⟨links, hlinks, hle, hstops, htree⟩ :=
        ih h hb (by grind) (grouped_join _ hl hseen hlt hleft hgrouped)
      exact ⟨⟨operator, s.offset, operand⟩ :: inner ++ links,
        (Linked.cons hp hu hinner).append hlinks, by grind, hstops, by simpa using htree⟩
    · next ho =>
      simp only [run_pure, Parsed.ok.injEq] at h
      obtain ⟨rfl, rfl⟩ := h
      exact ⟨[], .nil, by simp, hs.succ ho, by simpa using hleft⟩

theorem climb_sound (h : (climb script fuel level).run s = .ok tree t) :
    Climbed script level tree s t := by
  induction level generalizing s tree t with
  | zero =>
    exact ⟨tree, [], t, Gives.derives (.unary tree) h, .nil, by simp, fun _ _ => Nat.zero_le _,
      .operand tree⟩
  | succ level ih =>
    simp only [climb, bind_eq_ok] at h
    obtain ⟨left, m, hleft, h⟩ := h
    obtain ⟨first, seen, a, hu, hseen, hlt, hm, hgrouped⟩ := ih hleft
    obtain ⟨links, hlinks, hle, hstops, htree⟩ :=
      joinWhile_sound ih h hm (fun link hl => Nat.le_of_lt (hlt link hl)) hgrouped
    exact ⟨first, seen ++ links, a, hu, hseen.append hlinks, by grind, hstops, htree⟩

-- The loop reads all of a chain of its level and of tighter ones.
theorem joinWhile_complete {operand : Parser Expr} {n : Nat}
    (hoperand : ∀ {s t value}, Climbed script level value s t → s.length ≤ n →
      operand.run s = .ok value t)
    (h : Linked script links s t) (hlinks : ∀ link ∈ links, link.operator.level ≤ level)
    (ht : StopsAt (level + 1) t) (hs : StopsAt level s) (hn : s.length ≤ n)
    (hfuel : links.length < fuel) (hseen : ∀ link ∈ seen, link.operator.level ≤ level)
    (hleft : Grouped first seen left) :
    ∃ tree, (joinWhile operand level fuel left).run s = .ok tree t ∧
      Grouped first (seen ++ links) tree := by
  induction fuel generalizing left seen links s with
  | zero => omega
  | succ fuel ih =>
    rw [joinWhile]
    simp only [run_here_bind, run_peek_bind]
    cases h with
    | nil =>
      have hnone : operatorAt? level t.token? = none := by
        rw [Option.eq_none_iff_forall_ne_some]
        intro operator ho
        obtain ⟨ho, hl⟩ := operatorAt?_eq_some.mp ho
        have := ht operator ho
        omega
      rw [hnone]
      exact ⟨left, rfl, by simpa using hleft⟩
    | @cons operator operand links _ a b _ hp hu hrest =>
      have hl : operator.level = level :=
        Nat.le_antisymm (hlinks _ List.mem_cons_self) (hs operator hp.token?)
      have ha := hp.length
      have hb := hu.length_le
      obtain ⟨inner, outer, m, rfl, hinner, houter, hlt, hm⟩ :=
        hrest.split fun operator ho => Nat.le_of_succ_le (ht operator ho)
      have hgrouped := Chain.group_grouped ⟨operand, inner⟩
      have hright := hoperand ⟨operand, inner, b, hu, hinner, hlt, hm, hgrouped⟩ (by omega)
      have hlen := hinner.length_le
      obtain ⟨tree, hrun, htree⟩ := ih houter (by grind) hm (by grind) (by grind) (by grind)
        (grouped_join s.offset hl hseen hlt hleft hgrouped)
      refine ⟨tree, ?_, by simpa using htree⟩
      simp only [operatorAt?_eq_some.mpr ⟨hp.token?, hl⟩, bind_eq_ok, advance_eq_ok hp.token?]
      exact ⟨(), a, hp, _, m, hright, hrun⟩

theorem climb_complete (h : Climbed script level tree s t) (hfuel : 8 * s.length + 2 ≤ fuel) :
    (climb script fuel level).run s = .ok tree t := by
  induction level generalizing s tree t with
  | zero =>
    obtain ⟨first, links, a, hu, hlinks, hlt, -, htree⟩ := h
    obtain rfl : links = [] :=
      List.eq_nil_iff_forall_not_mem.mpr fun link hl => Nat.not_lt_zero _ (hlt link hl)
    cases hlinks
    cases htree.unique (.operand first)
    exact hu.gives (by grind)
  | succ level ih =>
    obtain ⟨first, links, a, hu, hlinks, hlt, ht, htree⟩ := h
    obtain ⟨inner, outer, m, rfl, hinner, houter, hltinner, hm⟩ :=
      hlinks.split fun operator ho => Nat.le_of_succ_le (ht operator ho)
    have hgrouped := Chain.group_grouped ⟨first, inner⟩
    have hleft := ih ⟨first, inner, a, hu, hinner, hltinner, hm, hgrouped⟩ hfuel
    have ha := hu.length_le
    have hlinner := hinner.length_le
    have hlouter := houter.length_le
    have houterfuel : outer.length < fuel := by grind
    obtain ⟨tree', hrun, htree'⟩ := joinWhile_complete (n := s.length)
      (fun hc hn => ih hc (by omega)) houter (by grind) ht hm (by grind) houterfuel
      (fun link hl => Nat.le_of_lt (hltinner link hl)) hgrouped
    obtain rfl := htree.unique htree'
    simp only [climb, bind_eq_ok]
    exact ⟨_, m, hleft, hrun⟩

-- The five loops read chains with the tree that joining level by level gives them.
theorem climb_iff (hfuel : 8 * s.length + 2 ≤ fuel) :
    (climb script fuel 5).run s = .ok tree t ↔ ∃ first operands a,
      Derives script (.unary first) s a ∧ Derives script (.links operands) a t ∧
        tree = Chain.group ⟨first, operands⟩ := by
  constructor
  · intro h
    obtain ⟨first, links, a, hu, hlinks, -, ht, htree⟩ := climb_sound h
    exact ⟨first, links, a, hu, links_iff.mpr ⟨hlinks, ht⟩, Chain.grouped_iff.mp htree⟩
  · rintro ⟨first, links, a, hu, hlinks, rfl⟩
    obtain ⟨hlinks, ht⟩ := links_iff.mp hlinks
    refine climb_complete ⟨first, links, a, hu, hlinks, fun link _ => ?_, ht,
      Chain.group_grouped ⟨first, links⟩⟩ hfuel
    rw [← ChainOp.looseness_eq_level]
    exact link.operator.looseness_lt

end ScriptEngine.Grammar
