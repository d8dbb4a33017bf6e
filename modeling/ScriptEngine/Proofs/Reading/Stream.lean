import ScriptEngine.Program.Parser

-- What the small readers do: when they succeed, which token they have moved past, and which stream
-- they leave.

namespace ScriptEngine

namespace Stream

-- Reading can stand here: there is a token, or the input ends.
def Intact : Stream → Prop
  | broken _ => False
  | next _ _ | done _ => True

-- The token at hand is `token`, and moving past it leads to `rest`.
def Passes (stream : Stream) (token : Token) (rest : Stream) : Prop :=
  ∃ lexeme, stream = next lexeme rest ∧ lexeme.token = token ∧ rest.Intact

-- A statement may end here, and what follows it is `rest`.
def Closes (stream rest : Stream) : Prop :=
  stream.token? = none ∧ rest = stream ∨ stream.Passes (.symbol .semicolon) rest

@[grind →] theorem Passes.token? {stream rest : Stream} {token : Token} (h : stream.Passes token rest) :
    stream.token? = some token := by
  obtain ⟨lexeme, rfl, rfl, -⟩ := h
  rfl

@[grind →] theorem Passes.length {stream rest : Stream} {token : Token} (h : stream.Passes token rest) :
    stream.length = rest.length + 1 := by
  obtain ⟨lexeme, rfl, -, -⟩ := h
  rfl

@[grind →] theorem Closes.length_le {stream rest : Stream} (h : stream.Closes rest) :
    rest.length ≤ stream.length := by
  obtain ⟨-, rfl⟩ | h := h
  · exact Nat.le_refl _
  · have := h.length
    omega

end Stream

namespace Parser

variable {α β : Type}

theorem bind_apply (parser : Parser α) (next : α → Parser β) (stream : Stream) :
    (parser >>= next) stream = match parser stream with
      | .ok value rest => next value rest
      | .refused error => .refused error
      | .spent => .spent := rfl

theorem bind_eq_ok {parser : Parser α} {next : α → Parser β} {stream rest : Stream} {value : β} :
    (parser >>= next).run stream = .ok value rest ↔
      ∃ first middle, parser.run stream = .ok first middle ∧
        (next first).run middle = .ok value rest := by
  unfold run
  rw [bind_apply]
  cases h : parser stream with
  | ok first middle =>
    constructor
    · intro hn
      exact ⟨first, middle, rfl, hn⟩
    · rintro ⟨_, _, ⟨⟩, hn⟩
      exact hn
  | refused error => simp
  | spent => simp

@[simp] theorem run_pure {value : α} {stream : Stream} :
    (pure value : Parser α).run stream = .ok value stream := rfl

@[simp] theorem run_here {stream : Stream} : here.run stream = .ok stream.offset stream := rfl

@[simp] theorem run_hereStop {stream : Stream} : hereStop.run stream = .ok stream.stop stream := rfl

@[simp] theorem run_peek {stream : Stream} : peek.run stream = .ok stream.token? stream := rfl

@[simp] theorem run_spent {stream : Stream} : (spent : Parser α).run stream = .spent := rfl

@[simp] theorem run_refuseAt {stream : Stream} {offset : Nat} {fault : ParseFault} :
    (refuseAt offset fault : Parser α).run stream = .refused ⟨fault, offset⟩ := rfl

@[simp] theorem run_unexpected {stream : Stream} {expected : Expected} :
    (unexpected expected : Parser α).run stream =
      .refused ⟨.unexpected stream.token? expected, stream.offset⟩ := rfl

theorem map_eq_ok {f : α → β} {parser : Parser α} {stream rest : Stream} {value : β} :
    (f <$> parser).run stream = .ok value rest ↔
      ∃ first, parser.run stream = .ok first rest ∧ f first = value := by
  change (parser >>= fun first => pure (f first)).run stream = _ ↔ _
  rw [bind_eq_ok]
  constructor
  · rintro ⟨first, middle, h, ⟨⟩⟩
    exact ⟨first, h, rfl⟩
  · rintro ⟨first, h, rfl⟩
    exact ⟨first, rest, h, rfl⟩

-- Looking at the token at hand moves nothing.
@[simp] theorem run_peek_bind {next : Option Token → Parser β} {stream : Stream} :
    (peek >>= next).run stream = (next stream.token?).run stream := rfl

@[simp] theorem run_here_bind {next : Nat → Parser β} {stream : Stream} :
    (here >>= next).run stream = (next stream.offset).run stream := rfl

@[simp] theorem run_hereStop_bind {next : Nat → Parser β} {stream : Stream} :
    (hereStop >>= next).run stream = (next stream.stop).run stream := rfl

theorem advance_eq_ok {stream rest : Stream} {token : Token} {u : Unit}
    (ht : stream.token? = some token) :
    advance.run stream = .ok u rest ↔ stream.Passes token rest := by
  cases stream with
  | done offset => cases ht
  | broken error => cases ht
  | next lexeme tail =>
    cases ht
    constructor
    · intro h
      cases tail with
      | broken error => cases h
      | done offset => cases h; exact ⟨lexeme, rfl, rfl, trivial⟩
      | next _ _ => cases h; exact ⟨lexeme, rfl, rfl, trivial⟩
    · rintro ⟨_, ⟨⟩, -, hi⟩
      cases rest with
      | broken error => cases hi
      | done offset => rfl
      | next _ _ => rfl

theorem expectSymbol_eq_ok {mark : Symbol} {stream rest : Stream} {u : Unit} :
    (expectSymbol mark).run stream = .ok u rest ↔ stream.Passes (.symbol mark) rest := by
  rw [expectSymbol, run_peek_bind]
  split
  · next found ht =>
    split
    · next hf => rw [advance_eq_ok ht, hf]
    · next hf =>
      simp only [run_unexpected, reduceCtorEq, false_iff]
      intro h
      rw [h.token?] at ht
      cases ht
      exact hf rfl
  · next ht =>
    simp only [run_unexpected, reduceCtorEq, false_iff]
    intro h
    exact ht mark h.token?

theorem expectKeyword_eq_ok {word : Keyword} {stream rest : Stream} {u : Unit} :
    (expectKeyword word).run stream = .ok u rest ↔ stream.Passes (.keyword word) rest := by
  rw [expectKeyword, run_peek_bind]
  split
  · next found ht =>
    split
    · next hf => rw [advance_eq_ok ht, hf]
    · next hf =>
      simp only [run_unexpected, reduceCtorEq, false_iff]
      intro h
      rw [h.token?] at ht
      cases ht
      exact hf rfl
  · next ht =>
    simp only [run_unexpected, reduceCtorEq, false_iff]
    intro h
    exact ht word h.token?

theorem expectEnd_eq_ok {stream rest : Stream} {u : Unit} :
    expectEnd.run stream = .ok u rest ↔ stream.token? = none ∧ stream = rest := by
  rw [expectEnd, run_peek_bind]
  split
  · next ht => simp [ht]
  · next token ht => simp [ht]

theorem identifier_eq_ok {name : String} {stream rest : Stream} :
    identifier.run stream = .ok name rest ↔ stream.Passes (.identifier name) rest := by
  rw [identifier, run_peek_bind]
  split
  · next found ht =>
    simp only [bind_eq_ok, advance_eq_ok ht, run_pure, Parsed.ok.injEq]
    constructor
    · rintro ⟨-, middle, h, rfl, rfl⟩
      exact h
    · intro h
      obtain rfl : found = name := by
        rw [h.token?] at ht
        cases ht
        rfl
      exact ⟨(), rest, h, rfl, rfl⟩
  · next ht =>
    simp only [run_unexpected, reduceCtorEq, false_iff]
    intro h
    exact ht name h.token?

-- A symbol that may be missing.
theorem acceptSymbol_eq_ok {mark : Symbol} {stream rest : Stream} {found : Bool} :
    (acceptSymbol mark).run stream = .ok found rest ↔
      found = true ∧ stream.Passes (.symbol mark) rest ∨
        found = false ∧ stream.token? ≠ some (.symbol mark) ∧ stream = rest := by
  rw [acceptSymbol, run_peek_bind]
  split
  · next other ht =>
    split
    · next hf =>
      subst hf
      simp only [bind_eq_ok, advance_eq_ok ht, run_pure, Parsed.ok.injEq, ht, ne_eq,
        not_true_eq_false, false_and, and_false, or_false]
      constructor
      · rintro ⟨-, middle, h, rfl, rfl⟩
        exact ⟨rfl, h⟩
      · rintro ⟨rfl, h⟩
        exact ⟨(), rest, h, rfl, rfl⟩
    · next hf =>
      have hn : ¬ stream.Passes (.symbol mark) rest := by
        intro h
        rw [h.token?] at ht
        cases ht
        exact hf rfl
      cases found <;> simp [ht, hn, hf]
  · next ht =>
    have hn : ¬ stream.Passes (.symbol mark) rest := fun h => ht mark h.token?
    have hm : stream.token? ≠ some (.symbol mark) := ht mark
    cases found <;> simp [hm, hn]

theorem acceptKeyword_eq_ok {word : Keyword} {stream rest : Stream} {found : Bool} :
    (acceptKeyword word).run stream = .ok found rest ↔
      found = true ∧ stream.Passes (.keyword word) rest ∨
        found = false ∧ stream.token? ≠ some (.keyword word) ∧ stream = rest := by
  rw [acceptKeyword, run_peek_bind]
  split
  · next other ht =>
    split
    · next hf =>
      subst hf
      simp only [bind_eq_ok, advance_eq_ok ht, run_pure, Parsed.ok.injEq, ht, ne_eq,
        not_true_eq_false, false_and, and_false, or_false]
      constructor
      · rintro ⟨-, middle, h, rfl, rfl⟩
        exact ⟨rfl, h⟩
      · rintro ⟨rfl, h⟩
        exact ⟨(), rest, h, rfl, rfl⟩
    · next hf =>
      have hn : ¬ stream.Passes (.keyword word) rest := by
        intro h
        rw [h.token?] at ht
        cases ht
        exact hf rfl
      cases found <;> simp [ht, hn, hf]
  · next ht =>
    have hn : ¬ stream.Passes (.keyword word) rest := fun h => ht word h.token?
    have hw : stream.token? ≠ some (.keyword word) := ht word
    cases found <;> simp [hw, hn]

theorem atSymbol_eq_ok {mark : Symbol} {stream rest : Stream} {found : Bool} :
    (atSymbol mark).run stream = .ok found rest ↔
      (found = true ↔ stream.token? = some (.symbol mark)) ∧ stream = rest := by
  rw [atSymbol, run_peek_bind]
  split
  · next other ht =>
    by_cases hf : other = mark <;> cases found <;> simp [ht, hf]
  · next ht =>
    have hm : stream.token? ≠ some (.symbol mark) := ht mark
    cases found <;> simp [hm]

end Parser

end ScriptEngine
