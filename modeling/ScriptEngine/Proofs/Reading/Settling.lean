import ScriptEngine.Proofs.Lexing.Lossless
import ScriptEngine.Proofs.Lexing.Place
import ScriptEngine.Proofs.Reading.Stream
import ScriptEngine.Proofs.Text.Width

-- A reader settles at a place of a text: it gives a value with some of the tokens gone, or it refuses
-- at an offset between two characters, and it does not run out of fuel. The small readers settle, and
-- so does one reader behind another.

namespace ScriptEngine

namespace Text

-- An offset between two characters is a position of the string as the library has it.
theorem Boundary.isValid {text : String} {offset : Nat} (h : Boundary text.toList offset) :
    String.Pos.Raw.IsValid text ⟨offset⟩ := by
  obtain ⟨front, back, htext, rfl⟩ := h
  refine String.Pos.Raw.isValid_iff_exists_append.mpr
    ⟨String.ofList front, String.ofList back, ?_, ?_⟩
  · rw [← String.ofList_append, ← htext, String.ofList_toList]
  · rw [← utf8ByteSize_ofList]
    rfl

end Text

theorem Cursor.In.boundary {script : List Char} {cursor : Cursor} (h : cursor.In script) :
    Text.Boundary script cursor.offset := by
  obtain ⟨front, hscript, hwidth⟩ := h
  exact ⟨front, cursor.rest, hscript, hwidth⟩

namespace Stream

variable {script : List Char}

-- A stream of a place starts between two characters, also where it is broken.
theorem At.boundary {s : Stream} (h : s.At script) : Text.Boundary script s.offset := by
  obtain ⟨cursor, hin, rfl⟩ := h
  have hgap := hin.skipGap
  rw [ofCursor_eq]
  split
  · next hs =>
    rw [hs] at hgap
    exact hgap.boundary
  · next offset first rest hs =>
    rw [hs] at hgap
    split
    · exact hgap.boundary
    · split
      · next fault size _ =>
        obtain ⟨front, hscript, hwidth⟩ := hgap
        refine ⟨front ++ (first :: rest).take size, (first :: rest).drop size, ?_, ?_⟩
        · rw [hscript, List.append_assoc, List.take_append_drop]
        · rw [Text.width_append, hwidth]
          rfl
      · exact hgap.boundary

end Stream

namespace Parser

variable {α β : Type} {script : List Char} {k k' n n' : Nat} {s : Stream}

-- Reading comes to a value with at least `k` of `n` tokens gone, or to a refusal in the text.
def Settles (script : List Char) (k n : Nat) (parser : Parser α) (s : Stream) : Prop :=
  match parser.run s with
  | .ok _ t => t.At script ∧ t.length + k ≤ n
  | .refused error => Text.Boundary script error.offset
  | .spent => False

namespace Settles

theorem mono {parser : Parser α} (h : Settles script k n parser s) (hn : n + k' ≤ n' + k) :
    Settles script k' n' parser s := by
  unfold Settles at h ⊢
  split <;> simp_all
  omega

theorem ne_spent {parser : Parser α} (h : Settles script k n parser s) : parser.run s ≠ .spent := by
  intro hp
  unfold Settles at h
  rwa [hp] at h

theorem of_ok {parser : Parser α} {t : Stream} {value : α} (h : parser.run s = .ok value t)
    (ht : t.At script) (hn : t.length + k ≤ n) : Settles script k n parser s := by
  unfold Settles
  rw [h]
  exact ⟨ht, hn⟩

theorem bind {parser : Parser α} {next : α → Parser β} (h : Settles script k n parser s)
    (hnext : ∀ value t, parser.run s = .ok value t → t.At script → t.length + k ≤ n →
      Settles script k' n' (next value) t) : Settles script k' n' (parser >>= next) s := by
  unfold Settles at h
  have hbind : (parser >>= next).run s = match parser.run s with
      | .ok value t => (next value).run t
      | .refused error => .refused error
      | .spent => .spent := rfl
  cases hp : parser.run s with
  | ok value t =>
    rw [hp] at h hbind
    have hv := hnext value t hp h.1 h.2
    unfold Settles at hv ⊢
    rwa [hbind]
  | refused error =>
    rw [hp] at h hbind
    unfold Settles
    rwa [hbind]
  | spent =>
    rw [hp] at h
    exact h.elim

theorem pure {value : α} (hs : s.At script) (hn : s.length + k ≤ n) :
    Settles script k n (Pure.pure value) s :=
  of_ok run_pure hs hn

-- Looking at the token at hand or at its place moves nothing.
theorem peek {next : Option Token → Parser β} (h : Settles script k n (next s.token?) s) :
    Settles script k n (Parser.peek >>= next) s := h

theorem here {next : Nat → Parser β} (h : Settles script k n (next s.offset) s) :
    Settles script k n (Parser.here >>= next) s := h

theorem hereStop {next : Nat → Parser β} (h : Settles script k n (next s.stop) s) :
    Settles script k n (Parser.hereStop >>= next) s := h

theorem unexpected {expected : Expected} (hs : s.At script) :
    Settles script k n (Parser.unexpected expected : Parser α) s :=
  hs.boundary

theorem refuseAt {offset : Nat} {fault : ParseFault} (h : Text.Boundary script offset) :
    Settles script k n (Parser.refuseAt offset fault : Parser α) s := h

-- What stands behind a token is a place again, and where it is broken it says so.
theorem advance {token : Token} (hs : s.At script) (ht : s.token? = some token) :
    Settles script 1 s.length Parser.advance s := by
  cases s with
  | done offset => cases ht
  | broken error => cases ht
  | next lexeme rest =>
    have hrest : rest.At script := hs.leads (.next (.refl rest))
    cases hr : rest with
    | broken error =>
      rw [hr] at hrest
      exact hrest.boundary
    | done offset =>
      rw [hr] at hrest
      exact ⟨hrest, Nat.le_refl _⟩
    | next _ _ =>
      rw [hr] at hrest
      exact ⟨hrest, Nat.le_refl _⟩

-- A token that is at hand is passed, and the rest is read from behind it.
theorem past {token : Token} {next : Parser α} (hs : s.At script) (ht : s.token? = some token)
    (hnext : ∀ {t : Stream}, t.At script → t.length < s.length → Settles script k n next t) :
    Settles script k n (Parser.advance >>= fun _ => next) s :=
  (advance hs ht).bind fun _ _ _ hst hl => hnext hst hl

theorem expectSymbol {mark : Symbol} (hs : s.At script) :
    Settles script 1 s.length (Parser.expectSymbol mark) s := by
  refine .peek ?_
  split
  · next found ht =>
    split
    · exact advance hs ht
    · exact unexpected hs
  · exact unexpected hs

theorem expectKeyword {word : Keyword} (hs : s.At script) :
    Settles script 1 s.length (Parser.expectKeyword word) s := by
  refine .peek ?_
  split
  · next found ht =>
    split
    · exact advance hs ht
    · exact unexpected hs
  · exact unexpected hs

theorem expectEnd (hs : s.At script) : Settles script 0 s.length Parser.expectEnd s := by
  refine .peek ?_
  split
  · exact .pure hs (Nat.le_refl _)
  · exact unexpected hs

theorem identifier (hs : s.At script) : Settles script 1 s.length Parser.identifier s := by
  refine .peek ?_
  split
  · next name ht => exact (advance hs ht).bind fun _ t _ hst hl => .pure hst hl
  · exact unexpected hs

theorem acceptSymbol {mark : Symbol} (hs : s.At script) :
    Settles script 0 s.length (Parser.acceptSymbol mark) s := by
  refine .peek ?_
  split
  · next found ht =>
    split
    · exact past hs ht fun hst hl => .pure hst (Nat.le_of_lt hl)
    · exact .pure hs (Nat.le_refl _)
  · exact .pure hs (Nat.le_refl _)

theorem acceptKeyword {word : Keyword} (hs : s.At script) :
    Settles script 0 s.length (Parser.acceptKeyword word) s := by
  refine .peek ?_
  split
  · next found ht =>
    split
    · exact past hs ht fun hst hl => .pure hst (Nat.le_of_lt hl)
    · exact .pure hs (Nat.le_refl _)
  · exact .pure hs (Nat.le_refl _)

theorem atSymbol {mark : Symbol} (hs : s.At script) :
    Settles script 0 s.length (Parser.atSymbol mark) s := by
  refine .peek ?_
  split
  · exact .pure hs (Nat.le_refl _)
  · exact .pure hs (Nat.le_refl _)

end Settles

end Parser

end ScriptEngine
