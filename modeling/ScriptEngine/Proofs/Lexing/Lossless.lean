import ScriptEngine.Proofs.Lexing.Joining
import ScriptEngine.Proofs.Lexing.Longest

-- Reading a text into tokens loses none of it. The tokens take the text apart in order, with nothing
-- but gaps before, between and behind them, and there are no more of them than characters.

namespace ScriptEngine

open Text

-- An offset between two characters of a text.
def Text.Boundary (text : List Char) (offset : Nat) : Prop :=
  ∃ front back, text = front ++ back ∧ width front = offset

theorem ne_of_toList_prefix {front back text : String} (h : ¬ front.toList <+: text.toList) :
    front ++ back ≠ text := by
  rintro rfl
  rw [String.toList_append] at h
  exact h (List.prefix_append _ _)

theorem ParseFault.message_ne {fault : ParseFault} (h : fault ≠ .malformedNumber) :
    fault.message ≠ "Syntax error in numeric constant" := by
  cases fault with
  | malformedNumber => exact absurd rfl h
  | unexpectedCharacter c =>
    change "Unexpected character '" ++ String.singleton c ++ "' in source" ≠ _
    rw [String.append_assoc]
    exact ne_of_toList_prefix (by decide)
  | unexpected found expected =>
    change "Found " ++ Token.describe? found ++ " when expecting " ++ expected.describe ≠ _
    rw [String.append_assoc, String.append_assoc]
    exact ne_of_toList_prefix (by decide)
  | _ => decide
namespace Stream

-- The tokens of a stream, in order.
def lexemes : Stream → List Lexeme
  | next lexeme rest => lexeme :: rest.lexemes
  | done _ | broken _ => []

-- What comes behind the tokens: the end of the text at an offset, or an error.
def ending : Stream → Except ParseError Nat
  | next _ rest => rest.ending
  | done offset => .ok offset
  | broken error => .error error

-- The stream takes the text behind an offset apart: a gap and the characters of a token, again and
-- again, and what may stand behind the last token. It may break, but never at a number that is
-- malformed.
inductive Covers : Nat → List Char → Stream → Prop where
  | next {offset : Nat} {gap piece back : List Char} {token : Token} {rest : Stream} :
      Scan.Gap gap → piece ≠ [] → token.Fits piece back →
      Covers (offset + width gap + width piece) back rest →
      Covers offset (gap ++ (piece ++ back))
        (next ⟨token, offset + width gap, offset + width gap + width piece⟩ rest)
  | done {offset : Nat} {gap : List Char} : Scan.Trailing gap →
      Covers offset gap (done (offset + width gap))
  | broken {offset : Nat} {text : List Char} {error : ParseError} :
      error.fault.message ≠ "Syntax error in numeric constant" →
      Covers offset text (broken error)

theorem ofCursor_covers (cursor : Cursor) : Covers cursor.offset cursor.rest (ofCursor cursor) := by
  fun_induction ofCursor cursor with
  | case1 cursor gap hnil =>
    obtain ⟨skipped, hrest, hoffset, -, -⟩ := Scan.gap_of_skipGap cursor
    have htrailing := Scan.trailing_of_skipGap hnil
    rw [show (Scan.skipGap cursor).rest = [] from hnil, List.append_nil] at hrest
    rw [show gap.offset = cursor.offset + width skipped from hoffset, ← hrest]
    exact .done htrailing
  | case2 => exact .broken (ParseFault.message_ne (by rintro ⟨⟩))
  | case3 cursor gap first rest _ _ fault size htoken =>
    exact .broken (ParseFault.message_ne (Scan.token_error htoken))
  | case4 cursor gap first rest hstart _ token size htoken stop ih =>
    obtain ⟨skipped, hrest, hoffset, hgap, -⟩ := Scan.gap_of_skipGap cursor
    have hbehind : (Scan.skipGap cursor).rest = first :: rest := hstart
    rw [hbehind] at hrest hgap
    have hsplit : first :: rest = (first :: rest.take size) ++ rest.drop size := by
      rw [List.cons_append, List.take_append_drop]
    have hplace : gap.offset = cursor.offset + width skipped := hoffset
    have hstop : stop = cursor.offset + width skipped + width (first :: rest.take size) := by
      rw [← hplace]
    rw [hrest, hsplit, hplace, hstop]
    rw [hstop] at ih
    exact .next (hgap (List.cons_ne_nil _ _)) (List.cons_ne_nil _ _) (Scan.token_fits htoken) ih

variable {offset : Nat} {text : List Char} {stream : Stream}

-- Every token takes a character at least.
theorem Covers.length_le (h : Covers offset text stream) : stream.lexemes.length ≤ text.length := by
  induction h with
  | next _ hp _ _ ih =>
    have := List.length_pos_iff.mpr hp
    simp only [lexemes, List.length_cons, List.length_append]
    omega
  | done | broken => exact Nat.zero_le _

theorem width_pos {piece : List Char} (h : piece ≠ []) : 0 < width piece := by
  cases piece with
  | nil => exact absurd rfl h
  | cons c piece => exact Nat.add_pos_left c.utf8Size_pos _

-- The tokens lie behind the offset.
theorem Covers.le_start (h : Covers offset text stream) :
    ∀ lexeme ∈ stream.lexemes, offset ≤ lexeme.start := by
  induction h with
  | next _ _ _ _ ih =>
    intro lexeme hmem
    obtain rfl | hmem := List.mem_cons.mp hmem
    · exact Nat.le_add_right _ _
    · have := ih lexeme hmem
      omega
  | done | broken =>
    intro lexeme hmem
    cases hmem

-- Each reaches from one place between characters to a later one.
theorem Covers.spans (h : Covers offset text stream) {front : List Char}
    (ho : width front = offset) : ∀ lexeme ∈ stream.lexemes,
      lexeme.start < lexeme.stop ∧ Boundary (front ++ text) lexeme.start ∧
        Boundary (front ++ text) lexeme.stop := by
  induction h generalizing front with
  | @next offset gap piece back token rest _ hp _ _ ih =>
    intro lexeme hmem
    have hbehind := @ih (front ++ gap ++ piece) (by rw [width_append, width_append, ho])
    obtain rfl | hmem := List.mem_cons.mp hmem
    · refine ⟨Nat.lt_add_of_pos_right (width_pos hp), ?_, ?_⟩
      · exact ⟨front ++ gap, piece ++ back, by simp, by rw [width_append, ho]⟩
      · exact ⟨front ++ gap ++ piece, back, by simp, by rw [width_append, width_append, ho]⟩
    · have happ : front ++ (gap ++ (piece ++ back)) = front ++ gap ++ piece ++ back := by simp
      rw [happ]
      exact hbehind lexeme hmem
  | done | broken =>
    intro lexeme hmem
    cases hmem

theorem Covers.pairwise (h : Covers offset text stream) :
    stream.lexemes.Pairwise fun earlier later => earlier.stop ≤ later.start := by
  induction h with
  | next _ _ _ hrest ih => exact List.pairwise_cons.mpr ⟨hrest.le_start, ih⟩
  | done | broken => exact .nil

theorem Covers.ending (h : Covers offset text stream) {last : Nat} (he : stream.ending = .ok last) :
    last = offset + width text := by
  induction h with
  | next _ _ _ _ ih =>
    rw [ih he, width_append, width_append]
    omega
  | done =>
    cases he
    rfl
  | broken => cases he

theorem Covers.message_ne (h : Covers offset text stream) {error : ParseError}
    (he : stream.ending = .error error) :
    error.fault.message ≠ "Syntax error in numeric constant" := by
  induction h with
  | next _ _ _ _ ih => exact ih he
  | done => cases he
  | broken hm =>
    cases he
    exact hm

-- From every text come finitely many tokens and then its end or an error. The tokens have spans of
-- characters, in order and apart from each other; between them, before the first and behind the last
-- stands nothing but white space and complete comments. Words and symbols are the longest that start
-- at their places, the end is that of the text, and no number is malformed.
theorem ofText_lossless (script : List Char) :
    Covers 0 script (ofText script) ∧
    (ofText script).lexemes.length ≤ script.length ∧
    (∀ lexeme ∈ (ofText script).lexemes, lexeme.start < lexeme.stop ∧
      Boundary script lexeme.start ∧ Boundary script lexeme.stop) ∧
    (ofText script).lexemes.Pairwise (fun earlier later => earlier.stop ≤ later.start) ∧
    (∀ last, (ofText script).ending = .ok last → last = width script) ∧
    ∀ error, (ofText script).ending = .error error →
      error.fault.message ≠ "Syntax error in numeric constant" := by
  have hcovers : Covers 0 script (ofText script) := ofCursor_covers ⟨0, script⟩
  have hspans := @Covers.spans _ _ _ hcovers [] rfl
  refine ⟨hcovers, hcovers.length_le, hspans, hcovers.pairwise, fun last he => ?_,
    fun error he => hcovers.message_ne he⟩
  rw [hcovers.ending he, Nat.zero_add]

end Stream

end ScriptEngine
