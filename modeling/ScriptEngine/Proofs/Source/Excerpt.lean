import ScriptEngine.Proofs.Lexing.Locality
import ScriptEngine.Proofs.Lexing.Longest
import ScriptEngine.Proofs.Source.Translation
import ScriptEngine.Proofs.Text.Width

-- A piece of a text up to a closing brace, read on its own. As long as the brace is a token of the
-- whole text, the piece has the same tokens in front of any other rest and behind any other start.

namespace ScriptEngine

open Text

namespace Scan

variable {first : Char} {rest : List Char} {mark : Symbol} {size : Nat}

-- A symbol is read from nothing but its own text.
theorem token_symbol (h : token first rest = .ok (.symbol mark, size)) :
    mark.text.toList <+: first :: rest := by
  obtain ⟨htext, -⟩ : mark.text.toList = first :: rest.take size ∧ _ := token_fits h
  rw [htext]
  exact List.cons_prefix_cons.mpr ⟨rfl, List.take_prefix size rest⟩

end Scan

-- Moves every offset from behind one start to behind another.
def Relabelling.moving (old new : Nat) : Relabelling := ⟨fun offset => offset + new - old, id⟩

-- Lifts every offset to the given one.
def Relabelling.floor (least : Nat) : Relabelling := ⟨max least, id⟩

namespace Stream

theorem startsNoGap_brace (back : List Char) : Scan.StartsNoGap ('\x7d' :: back) :=
  ⟨by decide, fun h => by cases h⟩

-- The stream of a text that goes on with a closing brace.
theorem ofCursor_brace (offset : Nat) (back : List Char) :
    ofCursor ⟨offset, '\x7d' :: back⟩ =
      next ⟨.symbol .rightBrace, offset, offset + 1⟩ (ofCursor ⟨offset + 1, back⟩) := by
  have ht : Scan.token '\x7d' back = .ok (.symbol .rightBrace, 0) := by
    have hn : Scan.startsName '\x7d' = false := by decide +kernel
    have hs : Scan.symbol '\x7d' back = .ok (.symbol .rightBrace, 0) := rfl
    simp [Scan.token, hn, hs]
  rw [ofCursor_eq_next]
  exact ⟨offset, _, back, _, 0,
    ⟨Scan.skipGap_startsNoGap (startsNoGap_brace back), fun h => by cases h.1⟩, ht, rfl, rfl⟩

theorem head?_brace {text : List Char} (back other : List Char) :
    (text ++ '\x7d' :: other).head? = (text ++ '\x7d' :: back).head? := by
  cases text <;> rfl

-- One token of an excerpt, if it ends before the closing brace.
theorem ofCursor_excerpt {text back : List Char} {offset : Nat} {lexeme : Lexeme} {rest : Stream}
    (h : ofCursor ⟨offset, text ++ '\x7d' :: back⟩ = next lexeme rest)
    (hstop : lexeme.stop ≤ offset + width text) :
    ∃ before token after : List Char, text = before ++ token ++ after ∧
      lexeme.start = offset + width before ∧ lexeme.stop = offset + width before + width token ∧
      token ≠ [] ∧ rest = ofCursor ⟨lexeme.stop, after ++ '\x7d' :: back⟩ ∧
      ∀ place other, ofCursor ⟨place, text ++ '\x7d' :: other⟩ =
        next ⟨lexeme.token, place + width before, place + width before + width token⟩
          (ofCursor ⟨place + width before + width token, after ++ '\x7d' :: other⟩) := by
  obtain ⟨start, first, tail, found, size, ⟨hskip, hcomment⟩, htoken, rfl, rfl⟩ :=
    ofCursor_eq_next.mp h
  dsimp only at hstop
  -- The gap ends in the excerpt, so it does not depend on the rest of the text.
  obtain ⟨before, inner, rfl, hgap⟩ : ∃ gap inner, text = gap ++ inner ∧
      ∀ place other, Scan.skipGap ⟨place, text ++ '\x7d' :: other⟩ =
        ⟨place + width gap, inner ++ '\x7d' :: other⟩ := by
    obtain ⟨gap, hsplit, hstart, -, -⟩ := Scan.gap_of_skipGap ⟨offset, text ++ '\x7d' :: back⟩
    rw [hskip] at hsplit hstart
    dsimp only at hsplit hstart
    obtain ⟨inner, rfl⟩ : gap <+: text :=
      prefix_of_width_le ⟨_, hsplit.symm⟩ (List.prefix_append text _) (by omega)
    rw [List.append_assoc, List.append_cancel_left_eq] at hsplit
    have hlength : back.length <
        (Scan.skipGap ⟨offset, gap ++ inner ++ '\x7d' :: back⟩).rest.length := by
      rw [hskip, ← hsplit, List.length_append, List.length_cons]
      omega
    refine Scan.skipGap_excerpt hlength ?_
    rw [hskip]
    rintro ⟨comment, hc⟩
    cases hc
    exact hcomment ⟨rfl, rfl⟩
  have hplace := hgap offset back
  rw [hskip, Cursor.mk.injEq] at hplace
  obtain ⟨rfl, hsplit⟩ := hplace
  -- So does the token.
  have hprefix : first :: tail.take size <+: inner := by
    have htail : first :: tail.take size <+: first :: tail := ⟨tail.drop size, by simp⟩
    refine prefix_of_width_le htail ⟨_, hsplit.symm⟩ ?_
    rw [width_append] at hstop
    omega
  obtain ⟨after, rfl⟩ := hprefix
  obtain ⟨piece, hpiece⟩ : ∃ piece, tail.take size = piece := ⟨_, rfl⟩
  rw [hpiece] at hsplit hgap hstop ⊢
  have htail : tail = piece ++ after ++ '\x7d' :: back := by
    simpa using hsplit
  have hsize : size = piece.length := by
    have := congrArg List.length hpiece
    rw [htail, List.length_take] at this
    simp only [List.length_append, List.length_cons] at this
    omega
  have hd : Scan.isDelimiter '\x7d' := by decide
  have hle : size ≤ (piece ++ after).length := by
    rw [hsize, List.length_append]
    omega
  rw [htail, Scan.token_delimited hd hle] at htoken
  refine ⟨before, first :: piece, after, by simp, rfl, rfl, by simp, ?_, ?_⟩
  · rw [htail, hsize, List.append_assoc, List.drop_left]
  · intro place other
    rw [ofCursor_eq_next]
    refine ⟨_, first, piece ++ after ++ '\x7d' :: other, found, size,
      ⟨hgap place other, ?_⟩, (Scan.token_delimited hd hle).mpr htoken, ?_, ?_⟩
    · rwa [head?_brace back other, ← htail]
    · rw [hsize, List.append_assoc, List.take_left]
    · rw [hsize, List.append_assoc, List.drop_left]

-- A stream that has come to the closing brace stands in a gap before it.
theorem ofCursor_gap {text back : List Char} {offset : Nat}
    (h : ofCursor ⟨offset, text ++ '\x7d' :: back⟩ =
      ofCursor ⟨offset + width text, '\x7d' :: back⟩) (place : Nat) (other : List Char) :
    ofCursor ⟨place, text ++ '\x7d' :: other⟩ = ofCursor ⟨place + width text, '\x7d' :: other⟩ := by
  have hi : (ofCursor ⟨offset, text ++ '\x7d' :: back⟩).Intact := by
    rw [h, ofCursor_brace]
    trivial
  obtain ⟨rest, hskip, -⟩ := skipGap_of_ofCursor hi
  obtain ⟨gap, hsplit, hoffset, hgap, -⟩ := Scan.gap_of_skipGap ⟨offset, text ++ '\x7d' :: back⟩
  rw [hskip, h, ofCursor_brace] at hoffset
  rw [hskip] at hsplit hgap
  have hwidth : width gap = width text := by
    simp only [Stream.offset] at hoffset
    omega
  obtain rfl : gap = text := by
    have hp : gap <+: text :=
      prefix_of_width_le ⟨_, hsplit.symm⟩ (List.prefix_append text _) (by omega)
    obtain ⟨tail, rfl⟩ := hp
    rw [width_append] at hwidth
    have htail : tail = [] := width_eq_zero (by omega)
    rw [htail, List.append_nil]
  have hrest : rest ≠ [] := by
    rintro rfl
    have := congrArg List.length hsplit
    simp at this
  refine ofCursor_congr ?_
  rw [Scan.skipGap_gap (hgap hrest) (startsNoGap_brace other),
    Scan.skipGap_startsNoGap (startsNoGap_brace other)]

-- The excerpt has the tokens of the whole text up to the closing brace.
theorem redirect_excerpt {script text back other : List Char} {offset place old new : Nat}
    (hin : Cursor.In script ⟨offset, text ++ '\x7d' :: back⟩) (hshift : place + old = offset + new)
    (hl : Leads (ofCursor ⟨offset, text ++ '\x7d' :: back⟩)
      (ofCursor ⟨offset + width text, '\x7d' :: back⟩)) :
    redirect (.moving old new) (ofCursor ⟨offset + width text, '\x7d' :: back⟩)
        (ofCursor ⟨place + width text, '\x7d' :: other⟩)
        (ofCursor ⟨offset, text ++ '\x7d' :: back⟩) =
      ofCursor ⟨place, text ++ '\x7d' :: other⟩ := by
  generalize hu : ofCursor ⟨offset, text ++ '\x7d' :: back⟩ = u at hl ⊢
  generalize hg : ofCursor ⟨offset + width text, '\x7d' :: back⟩ = goal at hl ⊢
  induction hl generalizing text offset place with
  | refl stream =>
    have hpos : 0 < stream.length := by
      rw [← hg, ofCursor_brace]
      exact Nat.succ_pos _
    rw [redirect_goal hpos]
    exact (ofCursor_gap (hu.trans hg.symm) place other).symm
  | @next lexeme rest goal hl ih =>
    have hat : (Stream.next lexeme rest).At script := ⟨_, hin, hu.symm⟩
    have hi : goal.Intact := by
      rw [← hg, ofCursor_brace]
      trivial
    have hoffset : goal.offset = offset + width text := by
      rw [← hg, ofCursor_brace]
      rfl
    have hstop := hat.stop_le hl hi
    rw [hoffset] at hstop
    obtain ⟨before, token, after, rfl, hstart, hend, -, hrest, hother⟩ := ofCursor_excerpt hu hstop
    have hplace : place + width (before ++ token ++ after) =
        place + width before + width token + width after := by
      simp only [width_append]
      omega
    have hnext : Cursor.In script ⟨lexeme.stop, after ++ '\x7d' :: back⟩ := by
      obtain ⟨front, hscript, hwidth⟩ := hin
      refine ⟨front ++ before ++ token, by rw [hscript]; simp, ?_⟩
      simp only [width_append, hwidth, hend]
    have hgoal : ofCursor ⟨lexeme.stop + width after, '\x7d' :: back⟩ = goal := by
      rw [← hg, hend]
      simp only [width_append, Nat.add_assoc]
    have hmoved : place + width before + width token + old = lexeme.stop + new := by omega
    rw [redirect_next hl, hother place other, hplace, ih hnext hmoved hrest.symm hgoal]
    simp only [Relabelling.moving, Stream.next.injEq, Lexeme.mk.injEq, true_and, and_true]
    omega

-- A place of the text that lies in a middle part.
theorem place_in_middle {script front middle back rest : List Char} {offset : Nat}
    (hs : script = front ++ (middle ++ back)) (hin : Cursor.In script ⟨offset, rest⟩)
    (hfirst : width front ≤ offset) (hlast : offset ≤ width front + width middle) :
    ∃ piece, piece <+: middle ∧ offset = width front + width piece := by
  obtain ⟨before, hbefore, hwidth⟩ := hin
  dsimp only at hbefore hwidth
  have hprefix : before <+: front ++ (middle ++ back) := ⟨rest, by rw [← hbefore, hs]⟩
  obtain ⟨piece, rfl⟩ : front <+: before :=
    prefix_of_width_le (List.prefix_append front _) hprefix (by omega)
  rw [width_append] at hwidth
  have hpiece : piece <+: middle ++ back := (List.prefix_append_right_inj front).mp hprefix
  exact ⟨piece, prefix_of_width_le hpiece (List.prefix_append middle back) (by omega), hwidth.symm⟩

-- A token ends at a place of the text.
theorem At.stop_place {script : List Char} {stream goal : Stream} (h : stream.At script)
    (hl : Leads stream goal) (hpos : 0 < goal.length) :
    stream.offset < stream.stop ∧ ∃ rest, Cursor.In script ⟨stream.stop, rest⟩ := by
  have hlength := hl.length_le
  cases stream with
  | next lexeme rest =>
    obtain ⟨hlt, text, hin, -⟩ := h.next
    exact ⟨hlt, text, hin⟩
  | done offset => exact absurd hlength (Nat.not_le.mpr hpos)
  | broken error => exact absurd hlength (Nat.not_le.mpr hpos)

section Excerpt

variable {script front text back head tail : List Char} {goal : Stream}

-- The tokens of an excerpt start and end at places of it.
theorem excerpt_places (hscript : script = front ++ (text ++ '\x7d' :: back))
    (hgoal : goal = ofCursor ⟨width front + width text, '\x7d' :: back⟩) {s : Stream}
    (hs : Leads (ofCursor ⟨width front, text ++ '\x7d' :: back⟩) s) (hl : Leads s goal) :
    (∃ piece, piece <+: text ++ ['\x7d'] ∧ s.offset = width front + width piece) ∧
      ∃ piece, piece <+: text ++ ['\x7d'] ∧ s.stop = width front + width piece := by
  rw [ofCursor_brace] at hgoal
  have hpos : 0 < goal.length := by
    rw [hgoal]
    exact Nat.succ_pos _
  have hi : goal.Intact := by
    rw [hgoal]
    trivial
  have hoffset : goal.offset = width front + width text := by
    rw [hgoal]
    rfl
  have hat : (ofCursor ⟨width front, text ++ '\x7d' :: back⟩).At script :=
    ⟨_, ⟨front, hscript, rfl⟩, rfl⟩
  have hmiddle : script = front ++ ((text ++ ['\x7d']) ++ back) := by
    rw [hscript]
    simp
  have hwidth : width (text ++ ['\x7d']) = width text + 1 := width_append text ['\x7d']
  -- Offsets lie between the start of the excerpt and its closing brace.
  have hfirst : width front ≤ (ofCursor ⟨width front, text ++ '\x7d' :: back⟩).offset :=
    le_offset_ofCursor ((hs.trans hl).intact hi)
  have hlow := hat.offset_le hs (hl.intact hi)
  have hhigh := (hat.leads hs).offset_le hl hi
  obtain ⟨hlt, after, hafter⟩ := (hat.leads hs).stop_place hl hpos
  have hstop : s.stop ≤ width front + width text + 1 := by
    cases hl with
    | refl =>
      rw [hgoal]
      exact Nat.le_refl _
    | next hl =>
      have := (hat.leads hs).stop_le hl hi
      simp only [stop]
      omega
  obtain ⟨before, hbefore, -, -⟩ := (hat.leads hs).place (hl.intact hi)
  exact ⟨place_in_middle hmiddle hbefore (by omega) (by omega),
    place_in_middle hmiddle hafter (by omega) (by omega)⟩

theorem moving_offset {old new size offset : Nat} (h : offset = old + size) :
    (Relabelling.moving old new).offset offset = new + size := by
  simp only [Relabelling.moving]
  omega

-- What is derived inside of an excerpt of a text is derived from the excerpt.
theorem excerpt_translation (hscript : script = front ++ (text ++ '\x7d' :: back))
    (hgoal : goal = ofCursor ⟨width front + width text, '\x7d' :: back⟩) :
    Grammar.Translation script (head ++ (text ++ '\x7d' :: tail))
      (ofCursor ⟨width front, text ++ '\x7d' :: back⟩) goal (.moving (width front) (width head))
      (redirect (.moving (width front) (width head)) goal
        (ofCursor ⟨width head + width text, '\x7d' :: tail⟩)) := by
  have hbrace := hgoal
  rw [ofCursor_brace] at hbrace
  refine redirect_translation ?_ ?_
  · rw [ofCursor_brace, hbrace]
    refine ⟨rfl, ?_, ?_, Nat.succ_pos _, trivial⟩
    · exact (moving_offset rfl).symm
    · simp only [stop]
      rw [moving_offset (Nat.add_assoc ..), Nat.add_assoc]
  · intro s a hs ha hag
    obtain ⟨⟨first, hfp, hfo⟩, -⟩ := excerpt_places hscript hgoal hs (ha.trans hag)
    obtain ⟨-, second, hsp, hso⟩ := excerpt_places hscript hgoal (hs.trans ha) hag
    have hmiddle (rest : List Char) : text ++ '\x7d' :: rest = (text ++ ['\x7d']) ++ rest := by
      simp
    rw [moving_offset hfo, moving_offset hso, hscript, hfo, hso, hmiddle tail, hmiddle back,
      slice_middle hfp hsp, slice_middle hfp hsp]
    rfl

end Excerpt

section Floor

variable {script : List Char} {origin goal s : Stream}

theorem floor_offset {least offset : Nat} (h : least ≤ offset) :
    (Relabelling.floor least).offset offset = offset :=
  Nat.max_eq_right h

-- No token behind the origin lies before it.
theorem origin_le (hat : origin.At script) (hpos : 0 < goal.length) (hs : Leads origin s)
    (hl : Leads s goal) : origin.offset ≤ s.offset ∧ s.offset < s.stop := by
  have hi : s.Intact := by
    refine hl.intact ?_
    cases goal with
    | next lexeme rest => trivial
    | _ => cases hpos
  exact ⟨hat.offset_le hs hi, ((hat.leads hs).stop_place hl hpos).1⟩

theorem redirect_floor (hat : origin.At script) (hpos : 0 < goal.length) (hs : Leads origin s)
    (hl : Leads s goal) : redirect (.floor origin.offset) goal goal s = s := by
  induction hl with
  | refl => exact redirect_goal hpos
  | @next lexeme rest goal hl ih =>
    have hplace := origin_le hat hpos hs (.next hl)
    have hstart : origin.offset ≤ lexeme.start := hplace.1
    have hstop : lexeme.start < lexeme.stop := hplace.2
    rw [redirect_next hl, ih hpos (hs.trans (.next (.refl rest))), floor_offset hstart,
      floor_offset (Nat.le_trans hstart (Nat.le_of_lt hstop))]

theorem floor_translation (hat : origin.At script) (hpos : 0 < goal.length)
    (hl : Leads origin goal) :
    Grammar.Translation script script origin goal (.floor origin.offset)
      (redirect (.floor origin.offset) goal goal) := by
  obtain ⟨hstart, hstop⟩ := origin_le hat hpos hl (.refl goal)
  refine redirect_translation ⟨rfl, ?_, ?_, hpos, ?_⟩ ?_
  · rw [floor_offset hstart]
  · rw [floor_offset (by omega)]
  · cases goal with
    | next lexeme rest => trivial
    | _ => cases hpos
  · intro s a hs ha hag
    obtain ⟨hlow, -⟩ := origin_le hat hpos hs (ha.trans hag)
    obtain ⟨hfirst, hlast⟩ := origin_le hat hpos (hs.trans ha) hag
    rw [floor_offset hlow, floor_offset (by omega)]
    rfl

end Floor

end Stream

end ScriptEngine
