import ScriptEngine.Proofs.Lexing.Step

-- What stands between tokens, as a language of its own: white space, line comments up to their end
-- of line, and closed block comments. Skipping moves past a gap, whatever follows it.

namespace ScriptEngine.Scan

open Text

-- The inside of a block comment, in which no end mark stands.
def CommentBody (body : List Char) : Prop :=
  ¬ ['*', '/'] <:+: body

theorem closeComment?_cons {offset : Nat} {c : Char} {rest : List Char}
    (h : c = '*' → rest.head? ≠ some '/') :
    closeComment? offset (c :: rest) = closeComment? (offset + c.utf8Size) rest := by
  rw [closeComment?]
  rintro tail hc rfl
  exact h hc rfl

theorem commentBody_cons {c : Char} {body : List Char} :
    CommentBody (c :: body) ↔ CommentBody body ∧ (c = '*' → body.head? ≠ some '/') := by
  unfold CommentBody
  rw [List.infix_cons_iff, not_or, and_comm]
  refine and_congr_right fun _ => ?_
  cases body <;> simp [List.cons_prefix_cons, eq_comm]

-- The first end mark is the one behind the body.
theorem CommentBody.close {body : List Char} (hb : CommentBody body) (offset : Nat)
    (rest : List Char) :
    closeComment? offset (body ++ '*' :: '/' :: rest) = some ⟨offset + width body + 2, rest⟩ := by
  induction body generalizing offset with
  | nil => rfl
  | cons c body ih =>
    obtain ⟨hb, h⟩ := commentBody_cons.mp hb
    have hhead : c = '*' → (body ++ '*' :: '/' :: rest).head? ≠ some '/' := by
      intro hc
      cases body with
      | nil => simp
      | cons first tail => exact h hc
    rw [List.cons_append, closeComment?_cons hhead, ih hb]
    simp only [width_cons, Option.some.injEq, Cursor.mk.injEq, and_true]
    omega

theorem commentBody_of_closeComment? {text : List Char} {offset : Nat} {cursor : Cursor}
    (h : closeComment? offset text = some cursor) :
    ∃ body, text = body ++ '*' :: '/' :: cursor.rest ∧ CommentBody body ∧
      cursor.offset = offset + width body + 2 := by
  fun_induction closeComment? offset text with
  | case1 offset rest =>
    cases h
    exact ⟨[], rfl, by simp [CommentBody], rfl⟩
  | case2 offset c rest hne ih =>
    obtain ⟨body, hrest, hb, ho⟩ := ih h
    refine ⟨c :: body, by rw [hrest]; rfl, commentBody_cons.mpr ⟨hb, ?_⟩, ?_⟩
    · intro hc hhead
      cases body with
      | nil => cases hhead
      | cons first tail =>
        cases hhead
        exact hne _ hc hrest
    · rw [ho, width_cons]
      omega
  | case3 => cases h

theorem utf8Size_slash : '/'.utf8Size = 1 := rfl

theorem utf8Size_star : '*'.utf8Size = 1 := rfl

-- Gaps between tokens.
inductive Gap : List Char → Prop where
  | nil : Gap []
  | space {c : Char} {gap : List Char} : isSpace c → Gap gap → Gap (c :: gap)
  | line {body gap : List Char} : (∀ c ∈ body, c ≠ '\n') → Gap ('\n' :: gap) →
      Gap ('/' :: '/' :: body ++ '\n' :: gap)
  | block {body gap : List Char} : CommentBody body → Gap gap →
      Gap ('/' :: '*' :: body ++ '*' :: '/' :: gap)

-- No gap starts here.
def StartsNoGap : List Char → Prop
  | [] => True
  | c :: rest => isSpace c = false ∧ (c = '/' → rest.head? ≠ some '/' ∧ rest.head? ≠ some '*')

theorem isSpace_slash : isSpace '/' = false := by
  decide

theorem skipGap_startsNoGap {offset : Nat} {text : List Char} (h : StartsNoGap text) :
    skipGap ⟨offset, text⟩ = ⟨offset, text⟩ := by
  cases text with
  | nil => exact skipGap_nil
  | cons c rest =>
    rw [skipGap_cons h.2, h.1]
    rfl

theorem takeWhile_line {body rest : List Char} (h : ∀ c ∈ body, c ≠ '\n') :
    (body ++ '\n' :: rest).takeWhile (· ≠ '\n') = body := by
  rw [List.takeWhile_append_of_pos (by simpa using h)]
  simp

-- Skipping moves past a gap and no further.
theorem skipGap_gap {gap rest : List Char} (hg : Gap gap) (hr : StartsNoGap rest) (offset : Nat) :
    skipGap ⟨offset, gap ++ rest⟩ = ⟨offset + width gap, rest⟩ := by
  induction hg generalizing offset with
  | nil => exact skipGap_startsNoGap hr
  | @space c gap hc hg ih =>
    have hslash : c ≠ '/' := by
      rintro rfl
      rw [isSpace_slash] at hc
      cases hc
    rw [List.cons_append, skipGap_cons (fun h => absurd h hslash), if_pos hc, ih, width_cons,
      Nat.add_assoc]
  | @line body gap hb hg ih =>
    have happ : '/' :: '/' :: body ++ '\n' :: gap ++ rest =
        '/' :: '/' :: (body ++ '\n' :: (gap ++ rest)) := by
      simp
    rw [happ, skipGap_line, takeWhile_line hb, List.drop_left, ← List.cons_append, ih]
    simp only [List.cons_append, width_cons, width_append, utf8Size_slash, Cursor.mk.injEq, and_true]
    omega
  | @block body gap hb hg ih =>
    have happ : '/' :: '*' :: body ++ '*' :: '/' :: gap ++ rest =
        '/' :: '*' :: (body ++ '*' :: '/' :: (gap ++ rest)) := by
      simp
    rw [happ, skipGap_block, hb.close]
    simp only [ih, List.cons_append, width_cons, width_append, utf8Size_slash, utf8Size_star,
      Cursor.mk.injEq, and_true]
    omega

-- A line comment reaches to an end of line or to the end of the text.
theorem line_split (comment : List Char) :
    comment = comment.takeWhile (· ≠ '\n')
      ++ comment.drop (comment.takeWhile (· ≠ '\n')).length ∧
    (comment.drop (comment.takeWhile (· ≠ '\n')).length = [] ∨
      ∃ tail, comment.drop (comment.takeWhile (· ≠ '\n')).length = '\n' :: tail) := by
  induction comment with
  | nil => simp
  | cons c rest ih =>
    by_cases hc : c = '\n'
    · subst hc
      simp
    · obtain ⟨hsplit, hend⟩ := ih
      rw [List.takeWhile_cons_of_pos (by simpa using hc)]
      refine ⟨?_, hend⟩
      rw [List.cons_append, List.length_cons, List.drop_succ_cons, ← hsplit]

-- A block comment that nothing closes.
def OpensComment (text : List Char) : Prop :=
  ∃ comment, text = '/' :: '*' :: comment

theorem StartsNoGap.ne_newline {rest : List Char} (h : StartsNoGap rest ∨ OpensComment rest)
    {tail : List Char} : rest ≠ '\n' :: tail := by
  rintro rfl
  obtain ⟨hs, -⟩ | ⟨comment, hc⟩ := h
  · revert hs
    decide
  · cases hc

-- Skipping moves past a gap; only at the end of the text it may be a line comment without its end of
-- line.
theorem gap_of_skipGap (cursor : Cursor) :
    ∃ gap, cursor.rest = gap ++ (skipGap cursor).rest ∧
      (skipGap cursor).offset = cursor.offset + width gap ∧
      ((skipGap cursor).rest ≠ [] → Gap gap) ∧
      (StartsNoGap (skipGap cursor).rest ∨ OpensComment (skipGap cursor).rest) := by
  fun_induction skipGap cursor with
  | case1 cursor comment hc body ih =>
    obtain ⟨gap, hrest, ho, hg, hn⟩ := ih
    obtain ⟨hsplit, hend⟩ := line_split comment
    refine ⟨'/' :: '/' :: body ++ gap, ?_, ?_, fun hne => ?_, hn⟩
    · rw [hc, List.append_assoc, ← hrest]
      exact congrArg (fun rest => '/' :: '/' :: rest) hsplit
    · rw [ho]
      simp only [List.cons_append, width_cons, width_append, utf8Size_slash]
      omega
    · -- The comment ends at an end of line, which the rest of the gap begins with.
      dsimp only at hrest
      cases gap with
      | nil =>
        rw [List.nil_append] at hrest
        obtain hnil | ⟨tail, htail⟩ := hend
        · exact absurd (hrest.symm.trans hnil) hne
        · exact absurd (hrest.symm.trans htail) (StartsNoGap.ne_newline hn)
      | cons first gap =>
        obtain hnil | ⟨tail, htail⟩ := hend
        · rw [show comment.drop body.length = [] from hnil] at hrest
          cases hrest
        · have hfirst : first = '\n' := by
            rw [show comment.drop body.length = '\n' :: tail from htail, List.cons_append] at hrest
            exact (List.cons.inj hrest).1.symm
          subst hfirst
          exact .line (fun c hmem => by simpa using List.all_eq_true.mp List.all_takeWhile c hmem) (hg hne)
  | case2 cursor comment hc after hm ih =>
    obtain ⟨gap, hrest, ho, hg, hn⟩ := ih
    obtain ⟨body, hcomment, hb, hoffset⟩ := commentBody_of_closeComment? hm
    refine ⟨'/' :: '*' :: body ++ '*' :: '/' :: gap, ?_, ?_, fun hne => .block hb (hg hne), hn⟩
    · rw [hc, hcomment, hrest]
      simp
    · rw [ho, hoffset]
      simp only [List.cons_append, width_cons, width_append, utf8Size_slash, utf8Size_star]
      omega
  | case3 cursor comment hc hm => exact ⟨[], rfl, rfl, fun _ => .nil, .inr ⟨comment, hc⟩⟩
  | case4 cursor c rest _ _ hc hs ih =>
    obtain ⟨gap, hrest, ho, hg, hn⟩ := ih
    refine ⟨c :: gap, ?_, ?_, fun hne => .space hs (hg hne), hn⟩
    · rw [hc, List.cons_append, ← hrest]
    · rw [ho, width_cons, Nat.add_assoc]
  | case5 cursor c rest hline hblock hc hs =>
    refine ⟨[], rfl, rfl, fun _ => .nil, .inl ?_⟩
    rw [hc]
    refine ⟨by simpa using hs, fun hslash => ⟨fun h => ?_, fun h => ?_⟩⟩
    · obtain ⟨tail, rfl⟩ := List.head?_eq_some_iff.mp h
      exact hline tail hslash rfl
    · obtain ⟨tail, rfl⟩ := List.head?_eq_some_iff.mp h
      exact hblock tail hslash rfl
  | case6 cursor hc => exact ⟨[], rfl, rfl, fun _ => .nil, .inl (by rw [hc]; trivial)⟩

-- What may stand behind the last token: a gap, and then a line comment that ends with the text.
inductive Trailing : List Char → Prop where
  | gap {gap : List Char} : Gap gap → Trailing gap
  | line {gap body : List Char} : Gap gap → (∀ c ∈ body, c ≠ '\n') →
      Trailing (gap ++ '/' :: '/' :: body)

theorem Gap.tail {c : Char} {gap : List Char} (h : Gap (c :: gap)) (hc : isSpace c) : Gap gap := by
  generalize hg : c :: gap = text at h
  cases h with
  | nil => cases hg
  | space _ h =>
    cases hg
    exact h
  | line | block =>
    cases hg
    rw [isSpace_slash] at hc
    cases hc

theorem isSpace_newline : isSpace '\n' := by
  decide

theorem Trailing.tail {tail : List Char} (h : Trailing ('\n' :: tail)) : Trailing tail := by
  generalize hg : '\n' :: tail = text at h
  cases h with
  | gap h =>
    subst hg
    exact .gap (h.tail isSpace_newline)
  | @line gap body h hb =>
    cases gap with
    | nil => cases hg
    | cons c gap =>
      cases hg
      exact .line (h.tail isSpace_newline) hb

-- A gap before what may stand behind the last token.
theorem Trailing.before {front tail : List Char} (h : ∀ gap, Gap gap → Gap (front ++ gap))
    (ht : Trailing tail) : Trailing (front ++ tail) := by
  cases ht with
  | gap hg => exact .gap (h _ hg)
  | line hg hb =>
    rw [← List.append_assoc]
    exact .line (h _ hg) hb

-- Skipping reaches the end of a text only over such characters.
theorem trailing_of_skipGap {cursor : Cursor} (h : (skipGap cursor).rest = []) :
    Trailing cursor.rest := by
  fun_induction skipGap cursor with
  | case1 cursor comment hc body ih =>
    have hbody : ∀ c ∈ body, c ≠ '\n' := fun c hmem => by
      simpa using List.all_eq_true.mp List.all_takeWhile c hmem
    obtain ⟨hsplit, hend⟩ := line_split comment
    have ht := ih h
    rw [hc, hsplit]
    obtain hnil | ⟨tail, htail⟩ := hend
    · rw [hnil, List.append_nil]
      exact .line .nil hbody
    · rw [htail] at ht ⊢
      have happ : '/' :: '/' :: (body ++ '\n' :: tail) = ('/' :: '/' :: body ++ ['\n']) ++ tail := by
        simp
      rw [happ]
      refine ht.tail.before fun gap hg => ?_
      rw [List.append_assoc]
      exact .line hbody (.space isSpace_newline hg)
  | case2 cursor comment hc after hm ih =>
    obtain ⟨body, hcomment, hb, -⟩ := commentBody_of_closeComment? hm
    have happ : cursor.rest = ('/' :: '*' :: body ++ ['*', '/']) ++ after.rest := by
      rw [hc, hcomment]
      simp
    rw [happ]
    refine (ih h).before fun gap hg => ?_
    rw [List.append_assoc]
    exact .block hb hg
  | case3 cursor comment hc hm =>
    rw [hc] at h
    cases h
  | case4 cursor c rest _ _ hc hs ih =>
    rw [hc]
    exact @Trailing.before [c] _ (fun gap hg => .space hs hg) (ih h)
  | case5 cursor c rest hline hblock hc hs =>
    rw [hc] at h
    cases h
  | case6 cursor hc =>
    rw [hc]
    exact .gap .nil
theorem StartsNoGap.replace {rest back : List Char} (h : StartsNoGap (rest ++ '\x7d' :: back))
    (other : List Char) : StartsNoGap (rest ++ '\x7d' :: other) := by
  match rest, h with
  | [], h => exact ⟨h.1, fun hc => by cases hc⟩
  | [_], h => exact ⟨h.1, fun _ => by simp⟩
  | _ :: _ :: _, h => exact h

-- A gap that ends before a closing brace is the same whatever stands behind the brace.
theorem skipGap_excerpt {front back : List Char} {offset : Nat}
    (hlength : back.length < (skipGap ⟨offset, front ++ '\x7d' :: back⟩).rest.length)
    (hopen : ¬ OpensComment (skipGap ⟨offset, front ++ '\x7d' :: back⟩).rest) :
    ∃ gap rest, front = gap ++ rest ∧
      ∀ place other, skipGap ⟨place, front ++ '\x7d' :: other⟩ =
        ⟨place + width gap, rest ++ '\x7d' :: other⟩ := by
  obtain ⟨gap, hrest, -, hg, hn⟩ := gap_of_skipGap ⟨offset, front ++ '\x7d' :: back⟩
  generalize (skipGap ⟨offset, front ++ '\x7d' :: back⟩).rest = after at *
  have hprefix : gap <+: front := by
    refine List.prefix_of_prefix_length_le ⟨after, hrest.symm⟩ (List.prefix_append front _) ?_
    have := congrArg List.length hrest
    simp only [List.length_append, List.length_cons] at this
    omega
  obtain ⟨rest, rfl⟩ := hprefix
  have hafter : after = rest ++ '\x7d' :: back := by
    rw [List.append_assoc] at hrest
    exact (List.append_cancel_left hrest).symm
  subst hafter
  refine ⟨gap, rest, rfl, fun place other => ?_⟩
  rw [List.append_assoc]
  exact skipGap_gap (hg (by simp)) ((hn.resolve_right hopen).replace other) place

-- Behind a gap there is nothing more to skip.
theorem skipGap_skipGap {cursor : Cursor} (hopen : ¬ OpensComment (skipGap cursor).rest) :
    skipGap (skipGap cursor) = skipGap cursor := by
  obtain ⟨-, -, -, -, hn⟩ := gap_of_skipGap cursor
  exact skipGap_startsNoGap (hn.resolve_right hopen)

end ScriptEngine.Scan
