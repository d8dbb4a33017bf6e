import ScriptEngine.Proofs.Lexing.Locality
import ScriptEngine.Proofs.Lexing.Place
import ScriptEngine.Proofs.Reading.Relabelling

-- Texts that follow each other. What stands behind an end of line changes no token before it, and a
-- text further on has the same tokens at greater offsets; so two texts joined by a semicolon on a
-- line of its own have the tokens of the first, the semicolon, and the tokens of the second.

namespace ScriptEngine

open Text

namespace Scan

theorem length_takeWhile_add_dropWhile (p : Char → Bool) (text : List Char) :
    (text.takeWhile p).length + (text.dropWhile p).length = text.length := by
  rw [← List.length_append, List.takeWhile_append_dropWhile]

theorem fraction?_size_le {text : List Char} {fraction : Number.Fraction} {size : Nat}
    (h : fraction? text = some (fraction, size)) : size ≤ text.length := by
  have hwhole := length_takeWhile_add_dropWhile Char.isDigit text
  simp only [fraction?] at h
  split at h
  · next rest hd =>
    have hafter := length_takeWhile_add_dropWhile Char.isDigit rest
    rw [hd, List.length_cons] at hwhole
    split at h
    · cases h
    · split at h
      · next mark tail ht =>
        rw [ht] at hafter
        split at h
        · obtain ⟨⟨power, left⟩, -, hf⟩ := Option.map_eq_some_iff.mp h
          cases hf
          simp only [ht]
          omega
        · cases h
          omega
      · cases h
        omega
  · split at h
    · cases h
    · obtain ⟨⟨power, left⟩, -, hf⟩ := Option.map_eq_some_iff.mp h
      cases hf
      omega

theorem hexDigits_length_lt {first : Char} {rest : List Char} (h : hexDigits first rest ≠ []) :
    (hexDigits first rest).length < rest.length := by
  unfold hexDigits at h ⊢
  split at h
  · next mark digits =>
    have htake := (List.takeWhile_sublist (Number.isDigitIn 16) (l := digits)).length_le
    split at h
    · next hm =>
      rw [if_pos hm, List.length_cons]
      omega
    · exact absurd rfl h
  · exact absurd rfl h

variable {first : Char} {rest : List Char} {found : Token} {size : Nat}

theorem double?_size_le (h : double? (first :: rest) = some (.ok (found, size))) :
    size ≤ rest.length := by
  rw [double?_eq] at h
  obtain ⟨⟨fraction, whole⟩, hf, hfound⟩ := Option.map_eq_some_iff.mp h
  cases hfound
  have := fraction?_size_le hf
  rw [List.length_cons] at this
  omega

theorem number_size_le (h : number first rest = .ok (found, size)) : size ≤ rest.length := by
  have htake (p : Char → Bool) : (rest.takeWhile p).length ≤ rest.length :=
    (List.takeWhile_sublist p).length_le
  simp only [number] at h
  split at h
  · next hhex =>
    cases h
    exact hexDigits_length_lt (by simpa using hhex)
  · split at h
    · next hf =>
      subst h
      exact double?_size_le hf
    · split at h
      · simp only [octal] at h
        split at h
        · split at h
          · cases h
          · cases h
            exact htake _
        · cases h
          exact htake _
      · simp only [decimal] at h
        split at h
        · cases h
        · have hle := (List.takeWhile_sublist Char.isDigit (l := first :: rest)).length_le
          cases h
          rw [List.length_cons] at hle
          omega

theorem symbol_size_le (h : symbol first rest = .ok (found, size)) : size ≤ rest.length := by
  rw [symbol] at h
  split at h
  · next mark hf =>
    cases h
    have hp : mark.text.toList.isPrefixOf (first :: rest) := by simpa using List.find?_some hf
    have hl := (List.isPrefixOf_iff_prefix.mp hp).length_le
    rw [String.length_toList, List.length_cons] at hl
    omega
  · cases h

-- A token ends within the text.
theorem token_size_le (h : token first rest = .ok (found, size)) : size ≤ rest.length := by
  unfold token at h
  split at h
  · cases h
    exact (List.takeWhile_sublist _).length_le
  · split at h
    · exact number_size_le h
    · split at h
      · next hq =>
        have hne : first ≠ '\\' := by
          rintro rfl
          simp at hq
        obtain ⟨body, value, after, -, rfl, -, -, rfl⟩ := (stringLiteral_eq_ok hne).mp h
        simp
      · split at h
        · split at h
          · next hf =>
            subst h
            exact double?_size_le hf
          · exact symbol_size_le h
        · exact symbol_size_le h

theorem closeComment?_append {text : List Char} {offset : Nat} {cursor : Cursor}
    (h : closeComment? offset text = some cursor) (back : List Char) :
    closeComment? offset (text ++ back) = some ⟨cursor.offset, cursor.rest ++ back⟩ := by
  obtain ⟨body, rfl, hb, ho⟩ := commentBody_of_closeComment? h
  rw [List.append_assoc, List.cons_append, List.cons_append, hb.close, ho]

-- What is skipped at the start of a text is skipped as well if the text goes on with another line;
-- so a line comment that ends the text ends there.
theorem skipGap_append (cursor : Cursor) (back : List Char)
    (hopen : ¬ OpensComment (skipGap cursor).rest) :
    skipGap ⟨cursor.offset, cursor.rest ++ '\n' :: back⟩ =
      skipGap ⟨(skipGap cursor).offset, (skipGap cursor).rest ++ '\n' :: back⟩ := by
  fun_induction skipGap cursor with
  | case1 cursor comment hc body ih =>
    have hle : body.length ≤ comment.length := (List.takeWhile_sublist _).length_le
    have hbody : (comment ++ '\n' :: back).takeWhile (· ≠ '\n') = body :=
      takeWhile_delimited (by simp)
    rw [hc, List.cons_append, List.cons_append, skipGap_line, hbody,
      List.drop_append_of_le_length hle]
    exact ih hopen
  | case2 cursor comment hc after hm ih =>
    rw [hc, List.cons_append, List.cons_append, skipGap_block, closeComment?_append hm]
    exact ih hopen
  | case3 cursor comment hc hm => exact absurd ⟨comment, hc⟩ hopen
  | case4 cursor c rest hline hblock hc hs ih =>
    have hslash : c ≠ '/' := by
      rintro rfl
      rw [isSpace_slash] at hs
      cases hs
    rw [hc, List.cons_append, skipGap_cons (fun h => absurd h hslash), if_pos hs]
    exact ih hopen
  | case5 => rfl
  | case6 => rfl

section

variable {cursor : Cursor} {offset : Nat}

theorem Starts.not_opensComment (h : Starts cursor offset first rest) :
    ¬ OpensComment (skipGap cursor).rest := by
  rw [h.1]
  rintro ⟨comment, hc⟩
  cases hc
  exact h.2 ⟨rfl, rfl⟩

theorem Starts.startsNoGap (h : Starts cursor offset first rest) : StartsNoGap (first :: rest) := by
  obtain ⟨-, -, -, -, hn⟩ := gap_of_skipGap cursor
  have hstart := hn.resolve_right h.not_opensComment
  rwa [h.1] at hstart

theorem Starts.append (h : Starts cursor offset first rest) (back : List Char) :
    Starts ⟨cursor.offset, cursor.rest ++ '\n' :: back⟩ offset first (rest ++ '\n' :: back) := by
  have hhead (c : Char) (hc : c ≠ '\n') :
      (rest ++ '\n' :: back).head? = some c ↔ rest.head? = some c := by
    cases rest with
    | nil => simpa using Ne.symm hc
    | cons _ _ => rfl
  have hstart : StartsNoGap (first :: (rest ++ '\n' :: back)) := by
    obtain ⟨hs, hc⟩ := h.startsNoGap
    refine ⟨hs, fun hslash => ?_⟩
    rw [ne_eq, ne_eq, hhead '/' (by decide), hhead '*' (by decide)]
    exact hc hslash
  constructor
  · rw [skipGap_append cursor back h.not_opensComment, h.1]
    exact skipGap_startsNoGap hstart
  · rw [hhead '*' (by decide)]
    exact h.2

-- Skipping keeps count of the bytes.
theorem skipGap_width (cursor : Cursor) :
    (skipGap cursor).offset + width (skipGap cursor).rest =
      cursor.offset + width cursor.rest := by
  obtain ⟨gap, hrest, ho, -, -⟩ := gap_of_skipGap cursor
  rw [ho, hrest, width_append, Nat.add_assoc]

end

theorem closeComment?_shift (offset distance : Nat) (text : List Char) :
    closeComment? (offset + distance) text =
      (closeComment? offset text).map fun cursor => ⟨cursor.offset + distance, cursor.rest⟩ := by
  fun_induction closeComment? offset text with
  | case1 offset rest =>
    rw [closeComment?, Option.map_some, Nat.add_right_comm]
  | case2 offset c rest hne ih =>
    rw [closeComment?, Nat.add_right_comm, ih]
    exact hne
  | case3 offset => rfl

theorem skipGap_shift (cursor : Cursor) (distance : Nat) :
    skipGap ⟨cursor.offset + distance, cursor.rest⟩ =
      ⟨(skipGap cursor).offset + distance, (skipGap cursor).rest⟩ := by
  fun_induction skipGap cursor with
  | case1 cursor comment hc body ih =>
    rw [hc, skipGap_line, ← ih]
    simp only [body, Nat.add_right_comm _ distance]
  | case2 cursor comment hc after hm ih =>
    rw [hc, skipGap_block, Nat.add_right_comm, closeComment?_shift, hm, ← ih]
    rfl
  | case3 cursor comment hc hm =>
    rw [hc, skipGap_block, Nat.add_right_comm, closeComment?_shift, hm]
    rfl
  | case4 cursor c rest hline hblock hc hs ih =>
    have hslash : c ≠ '/' := by
      rintro rfl
      rw [isSpace_slash] at hs
      cases hs
    rw [hc, skipGap_cons (fun h => absurd h hslash), if_pos hs, Nat.add_right_comm, ← ih]
  | case5 cursor c rest hline hblock hc hs =>
    have hslash : c = '/' → rest.head? ≠ some '/' ∧ rest.head? ≠ some '*' := by
      intro h
      constructor
      · rintro hh
        obtain ⟨tail, rfl⟩ := List.head?_eq_some_iff.mp hh
        exact hline tail h rfl
      · rintro hh
        obtain ⟨tail, rfl⟩ := List.head?_eq_some_iff.mp hh
        exact hblock tail h rfl
    rw [hc, skipGap_cons hslash, if_neg hs]
  | case6 cursor hc =>
    rw [hc, skipGap_nil]

end Scan

namespace Stream

-- The tokens of the stream, and the tail in the place of its end.
def followedBy : Stream → Stream → Stream
  | next lexeme rest, tail => next lexeme (rest.followedBy tail)
  | done _, tail => tail
  | broken error, _ => broken error

-- The same tokens at other places.
def relabel (r : Relabelling) : Stream → Stream
  | next lexeme rest =>
    next ⟨lexeme.token, r.offset lexeme.start, r.offset lexeme.stop⟩ (relabel r rest)
  | done offset => done (r.offset offset)
  | broken error => broken ⟨error.fault, r.offset error.offset⟩

theorem ofCursor_append {cursor : Cursor} {last : Nat} (h : Leads (ofCursor cursor) (done last))
    (back : List Char) :
    ofCursor ⟨cursor.offset, cursor.rest ++ '\n' :: back⟩ =
      (ofCursor cursor).followedBy
        (ofCursor ⟨cursor.offset + width cursor.rest, '\n' :: back⟩) := by
  generalize hu : ofCursor cursor = u at h ⊢
  generalize hg : done last = goal at h
  have hwidth := Scan.skipGap_width cursor
  induction h generalizing cursor with
  | refl stream =>
    -- What is left is a gap.
    subst hg
    have hskip := ofCursor_eq_done.mp hu
    have hopen : ¬ Scan.OpensComment (Scan.skipGap cursor).rest := by
      rw [hskip]
      rintro ⟨comment, hc⟩
      cases hc
    refine ofCursor_congr ?_
    rw [Scan.skipGap_append cursor back hopen, ← hwidth, hskip]
    rfl
  | @next lexeme tail goal hl ih =>
    obtain ⟨offset, first, rest, token, size, hstart, htoken, rfl, rfl⟩ := ofCursor_eq_next.mp hu
    have hsize := Scan.token_size_le htoken
    have hd : Scan.isDelimiter '\n' := by decide
    have hplace : cursor.offset + width cursor.rest =
        offset + width (first :: rest.take size) + width (rest.drop size) := by
      rw [← hwidth, hstart.1, Nat.add_assoc, ← width_append, List.cons_append,
        List.take_append_drop]
    have htail := @ih ⟨offset + width (first :: rest.take size), rest.drop size⟩ rfl hg
      (Scan.skipGap_width _)
    rw [followedBy, hplace, ← htail, ofCursor_eq_next]
    refine ⟨offset, first, rest ++ '\n' :: back, token, size, hstart.append back,
      (Scan.token_delimited hd hsize).mpr htoken, ?_, ?_⟩
    · rw [List.take_append_of_le_length hsize]
    · rw [List.drop_append_of_le_length hsize]

-- A text further on has the same tokens.
theorem ofCursor_shift {cursor : Cursor} {last : Nat} (h : Leads (ofCursor cursor) (done last))
    (distance : Nat) :
    ofCursor ⟨cursor.offset + distance, cursor.rest⟩ =
      (ofCursor cursor).relabel (.shift distance) := by
  generalize hu : ofCursor cursor = u at h ⊢
  generalize hg : done last = goal at h
  have hskip := Scan.skipGap_shift cursor distance
  induction h generalizing cursor with
  | refl stream =>
    subst hg
    rw [ofCursor_eq_done.mp hu] at hskip
    exact ofCursor_eq_done.mpr hskip
  | @next lexeme tail goal hl ih =>
    obtain ⟨offset, first, rest, token, size, hstart, htoken, rfl, rfl⟩ := ofCursor_eq_next.mp hu
    rw [hstart.1] at hskip
    have htail := @ih ⟨offset + width (first :: rest.take size), rest.drop size⟩ rfl hg
      (Scan.skipGap_shift _ distance)
    rw [relabel, ← htail, ofCursor_eq_next]
    refine ⟨offset + distance, first, rest, token, size, ⟨hskip, hstart.2⟩, htoken, ?_, rfl⟩
    simp only [Relabelling.shift, Nat.add_right_comm]

theorem ofCursor_semicolon (offset : Nat) (back : List Char) :
    ofCursor ⟨offset, '\n' :: ';' :: '\n' :: back⟩ =
      next ⟨.symbol .semicolon, offset + 1, offset + 2⟩ (ofCursor ⟨offset + 3, back⟩) := by
  have hspace (place : Nat) (rest : List Char) :
      Scan.skipGap ⟨place, '\n' :: rest⟩ = Scan.skipGap ⟨place + 1, rest⟩ := by
    rw [Scan.skipGap_cons (fun h => by cases h)]
    rfl
  have htoken : Scan.token ';' ('\n' :: back) = .ok (.symbol .semicolon, 0) := by
    have hn : Scan.startsName ';' = false := by decide +kernel
    have hs : Scan.symbol ';' ('\n' :: back) = .ok (.symbol .semicolon, 0) := rfl
    simp [Scan.token, hn, hs]
  have hstart : Scan.StartsNoGap (';' :: '\n' :: back) := ⟨by decide, fun h => by cases h⟩
  rw [ofCursor_eq_next]
  refine ⟨offset + 1, ';', '\n' :: back, _, 0, ⟨?_, fun h => by cases h.1⟩, htoken, rfl, ?_⟩
  · rw [hspace, Scan.skipGap_startsNoGap hstart]
  · exact ofCursor_congr (hspace (offset + 2) back).symm

-- The tokens of two texts joined by a semicolon.
theorem ofText_join {first second : List Char} {end₁ end₂ : Nat}
    (h₁ : Leads (ofText first) (done end₁)) (h₂ : Leads (ofText second) (done end₂)) :
    ofText (first ++ '\n' :: ';' :: '\n' :: second) =
      (ofText first).followedBy (next ⟨.symbol .semicolon, width first + 1, width first + 2⟩
        ((ofText second).relabel (.shift (width first + 3)))) := by
  have hfirst := ofCursor_append h₁ (';' :: '\n' :: second)
  have hsecond := ofCursor_shift h₂ (width first + 3)
  simp only [Nat.zero_add] at hfirst hsecond
  rw [ofText, hfirst, ofCursor_semicolon, hsecond]
  rfl

end Stream

end ScriptEngine
