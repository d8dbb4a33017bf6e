import ScriptEngine.Proofs.Reading.Soundness

-- The readers of lists as loops. A turn of such a loop brings the list to its end or gives one value
-- of it, and a turn that has more to come behind its value has moved past a token.

namespace ScriptEngine

namespace Parser

variable {α β γ : Type}

theorem bind_assoc (parser : Parser α) (next : α → Parser β) (last : β → Parser γ) :
    (parser >>= next) >>= last = parser >>= fun value => next value >>= last := by
  funext s
  simp only [bind_apply]
  cases parser s <;> rfl

theorem pure_bind (value : α) (next : α → Parser β) : (pure value >>= next) = next value := rfl

theorem ite_bind (test : Bool) (yes no : Parser α) (next : α → Parser β) :
    ((if test then yes else no) >>= next) = if test then yes >>= next else no >>= next := by
  cases test <;> rfl

theorem unexpected_bind (expected : Expected) (next : α → Parser β) :
    (unexpected expected >>= next) = unexpected expected := rfl

end Parser

namespace Grammar

open ScriptEngine.Parser

-- What a turn of a reader of lists comes to.
inductive Turn (α : Type) where
  | last (values : List α)
  | more (value : α)

-- Turns until one is the last.
def loop {α : Type} (turn : Nat → Parser (Turn α)) : Nat → Parser (List α)
  | 0 => spent
  | fuel + 1 => do
    match ← turn fuel with
    | .last values => return values
    | .more value => return value :: (← loop turn fuel)

-- A turn that has more to come moves on.
def Advances {α : Type} (turn : Nat → Parser (Turn α)) : Prop :=
  ∀ {fuel : Nat} {s t : Stream} {value : α}, (turn fuel).run s = .ok (.more value) t →
    t.length < s.length

-- Behind a value of a list with commas: its end, or a comma.
def separated {α : Type} (closing : Symbol) (value : α) : Parser (Turn α) := do
  if ← atSymbol closing then
    return .last [value]
  else
    expectSymbol .comma
    return .more value

def parameterTurn (_ : Nat) : Parser (Turn String) := do
  if ← atSymbol .rightParen then
    return .last []
  else
    separated .rightParen (← identifier)

def expressionTurn (script : List Char) (closing : Symbol) (fuel : Nat) : Parser (Turn Expr) := do
  if ← atSymbol closing then
    return .last []
  else
    separated closing (← expression script fuel)

def entryTurn (script : List Char) (fuel : Nat) : Parser (Turn (String × Expr)) := do
  match ← peek with
  | some (.symbol .rightBrace) => return .last []
  | some (.identifier key) | some (.literal (.string key)) => do
    advance
    expectSymbol .colon
    let value ← expression script fuel
    separated .rightBrace (key, value)
  | _ => unexpected .identifier

def blockItemTurn (script : List Char) (fuel : Nat) : Parser (Turn Stmt) := do
  match ← peek with
  | some (.symbol .rightBrace) => return .last []
  | none => unexpected (.symbol .rightBrace)
  | _ => return .more (← statement script fuel)

def itemTurn (script : List Char) (fuel : Nat) : Parser (Turn Stmt) := do
  match ← peek with
  | none => return .last []
  | some _ => return .more (← statement script fuel)

variable {script : List Char} {closing : Symbol} {fuel : Nat} {s t : Stream}

theorem parameters_eq_loop : parameters = loop parameterTurn := by
  funext fuel
  induction fuel with
  | zero => rfl
  | succ fuel ih =>
    rw [parameters, loop, parameterTurn, ih]
    simp only [separated, bind_assoc, ite_bind, pure_bind]

theorem expressions_eq_loop :
    (fun fuel => expressions script fuel closing) = loop (expressionTurn script closing) := by
  funext fuel
  induction fuel with
  | zero => rfl
  | succ fuel ih =>
    rw [expressions, loop, expressionTurn, ih]
    simp only [separated, bind_assoc, ite_bind, pure_bind]

theorem entries_eq_loop : entries script = loop (entryTurn script) := by
  funext fuel
  induction fuel with
  | zero => rfl
  | succ fuel ih =>
    rw [entries, loop, entryTurn, ih, bind_assoc]
    congr 1
    funext token
    split <;> simp only [separated, bind_assoc, ite_bind, pure_bind, unexpected_bind]

theorem blockItems_eq_loop : blockItems script = loop (blockItemTurn script) := by
  funext fuel
  induction fuel with
  | zero => rfl
  | succ fuel ih =>
    rw [blockItems, loop, blockItemTurn, ih, bind_assoc]
    congr 1
    funext token
    split <;> simp only [bind_assoc, pure_bind, unexpected_bind]

theorem items_eq_loop : items script = loop (itemTurn script) := by
  funext fuel
  induction fuel with
  | zero => rfl
  | succ fuel ih =>
    rw [items, loop, itemTurn, ih, bind_assoc]
    congr 1
    funext token
    split <;> simp only [bind_assoc, pure_bind]

-- The comma is gone if more is to come.
theorem separated_more {α : Type} {value found : α}
    (h : (separated closing value).run s = .ok (.more found) t) : t.length < s.length := by
  simp only [separated, bind_eq_ok, atSymbol_eq_ok] at h
  obtain ⟨last, _, ⟨-, rfl⟩, h⟩ := h
  cases last with
  | true => cases h
  | false =>
    simp only [Bool.false_eq_true, if_false, bind_eq_ok, expectSymbol_eq_ok, run_pure,
      Parsed.ok.injEq] at h
    obtain ⟨-, _, hc, -, rfl⟩ := h
    have := hc.length
    omega

theorem parameterTurn_advances : Advances parameterTurn := by
  intro fuel s t name h
  simp only [parameterTurn, bind_eq_ok, atSymbol_eq_ok] at h
  obtain ⟨last, _, ⟨-, rfl⟩, h⟩ := h
  cases last with
  | true => cases h
  | false =>
    simp only [Bool.false_eq_true, if_false, bind_eq_ok, identifier_eq_ok] at h
    obtain ⟨name, a, hp, h⟩ := h
    have hlt := separated_more h
    have := hp.length
    omega

theorem expressionTurn_advances : Advances (expressionTurn script closing) := by
  intro fuel s t value h
  simp only [expressionTurn, bind_eq_ok, atSymbol_eq_ok] at h
  obtain ⟨last, _, ⟨-, rfl⟩, h⟩ := h
  cases last with
  | true => cases h
  | false =>
    simp only [Bool.false_eq_true, if_false, bind_eq_ok] at h
    obtain ⟨first, a, hv, h⟩ := h
    have hlt := separated_more h
    have := (Gives.derives (.expression first) hv).length_le
    omega

theorem entryTurn_advances : Advances (entryTurn script) := by
  intro fuel s t value h
  simp only [entryTurn, run_peek_bind] at h
  split at h
  · cases h
  · next key ht =>
    simp only [bind_eq_ok, advance_eq_ok ht, expectSymbol_eq_ok] at h
    obtain ⟨-, a, hp, -, b, hc, first, c, hv, h⟩ := h
    have hlt := separated_more h
    have := (Gives.derives (.expression first) hv).length_le
    grind
  · next key ht =>
    simp only [bind_eq_ok, advance_eq_ok ht, expectSymbol_eq_ok] at h
    obtain ⟨-, a, hp, -, b, hc, first, c, hv, h⟩ := h
    have hlt := separated_more h
    have := (Gives.derives (.expression first) hv).length_le
    grind
  · cases h

-- A statement is more than no token.
theorem moreStatement {value : Stmt}
    (h : (Turn.more <$> statement script fuel : Parser (Turn Stmt)).run s = .ok (.more value) t) :
    t.length < s.length := by
  obtain ⟨first, hv, -⟩ := map_eq_ok.mp h
  exact (Gives.derives (.statement first) hv).length_le

theorem blockItemTurn_advances : Advances (blockItemTurn script) := by
  intro fuel s t value h
  simp only [blockItemTurn, run_peek_bind] at h
  split at h
  · cases h
  · cases h
  · exact moreStatement h

theorem itemTurn_advances : Advances (itemTurn script) := by
  intro fuel s t value h
  simp only [itemTurn, run_peek_bind] at h
  split at h
  · cases h
  · exact moreStatement h

end Grammar

end ScriptEngine
