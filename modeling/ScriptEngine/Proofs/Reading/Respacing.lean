import ScriptEngine.Proofs.Lexing.Isolated
import ScriptEngine.Proofs.Lexing.Lossless
import ScriptEngine.Proofs.Reading.Erasing
import ScriptEngine.Proofs.Source.Excerpt

-- Layout does not matter. The characters of the tokens of a text, with a space between any two, are
-- read as the same tokens, and so as the same tree or with the same fault.

namespace ScriptEngine

namespace Scan

-- The characters of a token spell it.
theorem Starts.spells {cursor : Cursor} {offset : Nat} {first : Char} {rest : List Char}
    {found : Token} {size : Nat} (h : Starts cursor offset first rest)
    (ht : token first rest = .ok (found, size)) : Spells (first :: rest.take size) found := by
  obtain ⟨hs, hcomment⟩ := h.startsNoGap
  refine ⟨first, rest.take size, rfl, hs, fun hslash => ?_, ?_⟩
  · have hhead : ∀ c, rest.head? ≠ some c → (rest.take size).head? ≠ some c := by
      intro c hc
      rw [List.head?_take]
      split
      · rintro ⟨⟩
      · exact hc
    exact ⟨hhead '/' (hcomment hslash).1, hhead '*' (hcomment hslash).2⟩
  · rw [List.length_take_of_le (token_size_le ht)]
    exact token_take ht

end Scan

namespace Stream

-- The characters of the tokens of a text, with spaces between them.
def respaced (script : List Char) : List Char :=
  [' '].intercalate
    ((ofText script).lexemes.map fun lexeme => Text.slice script lexeme.start lexeme.stop)

theorem spells_slice {script : List Char} {cursor : Cursor} (h : cursor.In script) :
    ∀ lexeme ∈ (ofCursor cursor).lexemes,
      Scan.Spells (Text.slice script lexeme.start lexeme.stop) lexeme.token := by
  fun_induction ofCursor cursor with
  | case1 | case2 | case3 =>
    intro lexeme hmem
    cases hmem
  | case4 cursor gap first rest hbehind hopen token size htoken stop ih =>
    have hskip : Scan.skipGap cursor = ⟨gap.offset, first :: rest⟩ := by rw [← hbehind]
    have hin := h.skipGap
    rw [hskip] at hin
    obtain ⟨front, hscript, hwidth⟩ := hin
    have hsplit : script = front ++ (first :: rest.take size ++ rest.drop size) := by
      rw [hscript, List.cons_append, List.take_append_drop]
    intro lexeme hmem
    obtain rfl | hmem := List.mem_cons.mp hmem
    · have hslice : Text.slice script gap.offset stop = first :: rest.take size := by
        rw [hsplit, show stop = gap.offset + Text.width (first :: rest.take size) from rfl, ← hwidth]
        exact Text.slice_whole front (first :: rest.take size) (rest.drop size)
      rw [hslice]
      exact Scan.Starts.spells ⟨hskip, hopen⟩ htoken
    · refine ih ⟨front ++ first :: rest.take size, ?_, ?_⟩ lexeme hmem
      · rw [hsplit, List.append_assoc]
      · rw [Text.width_append, hwidth]

def tokens (stream : Stream) : List Token :=
  stream.lexemes.map Lexeme.token

-- A text of one token.
theorem ofCursor_spelling {spelling : List Char} {token : Token} (h : Scan.Spells spelling token)
    (offset : Nat) :
    ofCursor ⟨offset, spelling⟩ = next ⟨token, offset, offset + Text.width spelling⟩
      (done (offset + Text.width spelling)) := by
  obtain ⟨first, rest, rfl, hs, hc, ht⟩ := h
  have hgap : Scan.skipGap ⟨offset, first :: rest⟩ = ⟨offset, first :: rest⟩ :=
    Scan.skipGap_startsNoGap ⟨hs, hc⟩
  rw [ofCursor_eq_next]
  refine ⟨offset, first, rest, token, rest.length, ⟨hgap, fun h => (hc h.1).2 h.2⟩, ht, ?_, ?_⟩
  · rw [List.take_length]
  · rw [List.drop_length]
    exact (ofCursor_eq_done.mpr Scan.skipGap_nil).symm

-- The tokens of spellings with spaces between them.
theorem ofCursor_intercalate {spellings : List (List Char × Token)}
    (h : ∀ spelling ∈ spellings, Scan.Spells spelling.1 spelling.2) (offset : Nat) :
    ∃ last, (ofCursor ⟨offset, [' '].intercalate (spellings.map Prod.fst)⟩).ending = .ok last ∧
      (ofCursor ⟨offset, [' '].intercalate (spellings.map Prod.fst)⟩).tokens =
        spellings.map Prod.snd := by
  induction spellings generalizing offset with
  | nil =>
    have hdone : ofCursor ⟨offset, []⟩ = done offset := ofCursor_eq_done.mpr Scan.skipGap_nil
    change ∃ last, (ofCursor ⟨offset, []⟩).ending = .ok last ∧ (ofCursor ⟨offset, []⟩).tokens = []
    rw [hdone]
    exact ⟨offset, rfl, rfl⟩
  | cons spelling rest ih =>
    obtain ⟨hfirst, hrest⟩ := List.forall_mem_cons.mp h
    cases rest with
    | nil =>
      have hone : [' '].intercalate ([spelling].map Prod.fst) = spelling.1 := by simp
      rw [hone, ofCursor_spelling hfirst]
      exact ⟨_, rfl, rfl⟩
    | cons second rest =>
      have hmore : [' '].intercalate ((spelling :: second :: rest).map Prod.fst) =
          spelling.1 ++ ' ' :: [' '].intercalate ((second :: rest).map Prod.fst) := by
        simp
      obtain ⟨last, hlast, htokens⟩ := ih hrest (offset + Text.width spelling.1 + 1)
      rw [hmore, Stream.ofCursor_spells hfirst]
      exact ⟨last, hlast, congrArg (spelling.2 :: ·) htokens⟩

-- Without places a stream is its tokens.
theorem relabel_erasing_congr {stream other : Stream} {last stop : Nat}
    (hs : stream.ending = .ok last) (ho : other.ending = .ok stop)
    (h : stream.tokens = other.tokens) : stream.relabel .erasing = other.relabel .erasing := by
  induction stream generalizing other with
  | next lexeme rest ih =>
    cases other with
    | next lexeme' rest' =>
      obtain ⟨htoken, htokens⟩ := List.cons.inj h
      rw [relabel, relabel, @ih rest' hs ho htokens]
      exact congrArg (fun token => next ⟨token, 0, 0⟩ (rest'.relabel .erasing)) htoken
    | done => cases h
    | broken => cases ho
  | done =>
    cases other with
    | next => cases h
    | done => rfl
    | broken => cases ho
  | broken => cases hs

theorem tokens_respaced (script : List Char) :
    ∃ last, (ofText (respaced script)).ending = .ok last ∧
      (ofText (respaced script)).tokens = (ofText script).tokens := by
  let spellings := (ofText script).lexemes.map fun lexeme =>
    (Text.slice script lexeme.start lexeme.stop, lexeme.token)
  have hspells : ∀ spelling ∈ spellings, Scan.Spells spelling.1 spelling.2 := by
    intro spelling hmem
    obtain ⟨lexeme, hlexeme, rfl⟩ := List.mem_map.mp hmem
    exact spells_slice ⟨[], rfl, rfl⟩ lexeme hlexeme
  have hfirst : spellings.map Prod.fst =
      (ofText script).lexemes.map fun lexeme => Text.slice script lexeme.start lexeme.stop :=
    List.map_map
  have hsecond : spellings.map Prod.snd = (ofText script).tokens := List.map_map
  obtain ⟨last, hlast, htokens⟩ := ofCursor_intercalate hspells 0
  rw [hfirst] at hlast htokens
  exact ⟨last, hlast, htokens.trans hsecond⟩

-- A text that consists of tokens up to its end, and the text of the same tokens with single spaces
-- between them, have the same tokens, and as a program or an expression they are read as the same
-- tree, up to offsets and the texts of functions, or with the same fault.
theorem read_respaced {script : String} {last : Nat}
    (h : (ofText script.toList).ending = .ok last) :
    (∃ stop, (ofText (respaced script.toList)).ending = .ok stop) ∧
    (ofText (respaced script.toList)).tokens = (ofText script.toList).tokens ∧
    Grammar.placeless (Program.relabel .erasing)
        (Program.read (String.ofList (respaced script.toList))) =
      Grammar.placeless (Program.relabel .erasing) (Program.read script) ∧
    Grammar.placeless (Expr.relabel .erasing) (Expr.read (String.ofList (respaced script.toList))) =
      Grammar.placeless (Expr.relabel .erasing) (Expr.read script) := by
  obtain ⟨stop, hstop, htokens⟩ := tokens_respaced script.toList
  have hsame := relabel_erasing_congr hstop h htokens
  refine ⟨⟨stop, hstop⟩, htokens, ?_, ?_⟩
  · rw [Program.read, Program.read, String.toList_ofList]
    exact Grammar.placeless_run Grammar.program_erases hsame
  · rw [Expr.read, Expr.read, String.toList_ofList]
    exact Grammar.placeless_run Grammar.wholeExpression_erases hsame

-- Comments go, and tokens that the text decides by what follows them stay apart.
def tangledText : String :=
  "1.e/* x */+0x>>>=.5e // y"

theorem read_respaced_tangledText :
    (ofText tangledText.toList).ending = .ok 25 ∧
    respaced tangledText.toList = "1 . e + 0 x >>> = . 5 e".toList ∧
    (ofText (respaced tangledText.toList)).tokens = (ofText tangledText.toList).tokens := by
  have hend : (ofText tangledText.toList).ending = .ok 25 := by
    have hsome : (ofText tangledText.toList).ending.toOption = some 25 := by decide +kernel
    cases he : (ofText tangledText.toList).ending with
    | ok last =>
      rw [he] at hsome
      cases hsome
      rfl
    | error error =>
      rw [he] at hsome
      cases hsome
  exact ⟨hend, by decide +kernel, (read_respaced hend).2.1⟩

end Stream

end ScriptEngine
