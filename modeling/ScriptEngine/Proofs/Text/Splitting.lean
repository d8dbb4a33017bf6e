import ScriptEngine.Proofs.Cancellation.Trace
import ScriptEngine.Proofs.Heap.Arrays
import ScriptEngine.Proofs.Text.Search

-- Splitting a text and joining the pieces. A split cuts at the first occurrence of the separator and
-- goes on behind it, so joining fills every cut with what was taken out. The other way round, joined
-- texts that have no character of the separator are found again, because no occurrence starts before
-- the end of a text.

namespace ScriptEngine

namespace Text

variable {mark : List Char}

theorem splitAfter_skip (mark piece : List Char) (skip : Nat) (text : List Char) :
    splitAfter mark piece skip text = splitAfter mark piece 0 (text.drop skip) := by
  induction text generalizing skip with
  | nil => cases skip <;> rfl
  | cons c rest ih =>
    cases skip with
    | zero => rfl
    | succ skip => rw [splitAfter, ih, List.drop_succ_cons]

-- A text is cut at the first occurrence of the separator. What has been collected before stands at the
-- start of the first piece.
theorem splitAfter_spec (hm : mark ≠ []) (piece text : List Char) :
    (∃ index, IsLeast (occurrences text mark 0) index ∧ splitAfter mark piece 0 text =
      (piece.reverse ++ text.take index) :: splitAt mark (text.drop (index + mark.length))) ∨
    (occurrences text mark 0 = ∅ ∧ splitAfter mark piece 0 text = [piece.reverse ++ text]) := by
  induction text generalizing piece with
  | nil => exact .inr ⟨by simp [occurrences, hm], by simp [splitAfter]⟩
  | cons c rest ih =>
    rw [splitAfter]
    by_cases h : mark.isPrefixOf (c :: rest)
    · obtain ⟨size, hsize⟩ := Nat.exists_eq_add_of_le' (List.length_pos_iff.mpr hm)
      refine .inl ⟨0, isLeast_zero_of_isPrefixOf h, ?_⟩
      rw [if_pos h, hsize, splitAfter_skip, splitAt, List.take_zero, List.append_nil, Nat.zero_add,
        List.drop_succ_cons, Nat.add_sub_cancel]
    · rw [if_neg h]
      obtain ⟨index, hleast, hsplit⟩ | ⟨hempty, hsplit⟩ := ih (c :: piece)
      · refine .inl ⟨index + 1, isLeast_occurrences_cons h hleast, ?_⟩
        rw [hsplit, Nat.add_right_comm, List.take_succ_cons, List.drop_succ_cons, List.reverse_cons,
          List.append_assoc, List.singleton_append]
      · refine .inr ⟨occurrences_cons_eq_empty h hempty, ?_⟩
        rw [hsplit, List.reverse_cons, List.append_assoc, List.singleton_append]

theorem splitAt_spec (hm : mark ≠ []) (text : List Char) :
    (∃ index, IsLeast (occurrences text mark 0) index ∧
      splitAt mark text = text.take index :: splitAt mark (text.drop (index + mark.length))) ∨
    (occurrences text mark 0 = ∅ ∧ splitAt mark text = [text]) :=
  splitAfter_spec hm [] text

theorem splitAt_ne_nil (hm : mark ≠ []) (text : List Char) : splitAt mark text ≠ [] := by
  obtain ⟨index, -, hsplit⟩ | ⟨-, hsplit⟩ := splitAt_spec hm text <;> simp [hsplit]

-- Each cut takes out one separator.
theorem intercalate_splitAt (hm : mark ≠ []) (text : List Char) :
    mark.intercalate (splitAt mark text) = text := by
  obtain ⟨index, hleast, hsplit⟩ | ⟨-, hsplit⟩ := splitAt_spec hm text
  · have hlength : 0 < mark.length := List.length_pos_iff.mpr hm
    have hcut : text.drop index = mark ++ text.drop (index + mark.length) := by
      rw [← List.drop_drop]
      exact List.prefix_iff_eq_append.mp hleast.1.2 |>.symm
    have hshort : (text.drop (index + mark.length)).length < text.length := by
      have := congrArg List.length hcut
      simp only [List.length_drop, List.length_append] at this ⊢
      omega
    rw [hsplit, List.intercalate_cons_of_ne_nil (splitAt_ne_nil hm _), intercalate_splitAt hm,
      List.append_assoc, ← hcut, List.take_append_drop]
  · rw [hsplit, List.intercalate_singleton]
termination_by text.length

-- No occurrence starts inside of a text that has no character of the separator.
theorem length_le_of_occurrence (hm : mark ≠ []) {part : List Char} (hn : ∀ c ∈ part, c ∉ mark)
    {rest : List Char} {index : Nat} (h : mark <+: (part ++ rest).drop index) : part.length ≤ index := by
  refine Nat.le_of_not_lt fun hlt => ?_
  obtain ⟨first, others, rfl⟩ := List.exists_cons_of_ne_nil hm
  rw [List.drop_append_of_le_length (Nat.le_of_lt hlt), List.drop_eq_getElem_cons hlt,
    List.cons_append, List.cons_prefix_cons] at h
  exact hn _ (List.getElem_mem hlt) (h.1 ▸ List.mem_cons_self)

theorem splitAt_intercalate (hm : mark ≠ []) {parts : List (List Char)} (hp : parts ≠ [])
    (hn : ∀ part ∈ parts, ∀ c ∈ part, c ∉ mark) :
    splitAt mark (mark.intercalate parts) = parts := by
  induction parts with
  | nil => exact absurd rfl hp
  | cons part rest ih =>
    obtain ⟨hpart, hrest⟩ := List.forall_mem_cons.mp hn
    cases rest with
    | nil =>
      rw [List.intercalate_singleton]
      obtain ⟨index, ⟨⟨-, hin⟩, -⟩, -⟩ | ⟨-, hsplit⟩ := splitAt_spec hm part
      · have hle : part.length ≤ index :=
          @length_le_of_occurrence _ hm _ hpart [] index (by rwa [List.append_nil])
        rw [List.drop_eq_nil_of_le hle] at hin
        exact absurd (List.prefix_nil.mp hin) hm
      · exact hsplit
    | cons next rest =>
      rw [List.intercalate_cons_of_ne_nil (List.cons_ne_nil _ _), List.append_assoc]
      have hjoint : part.length ∈
          occurrences (part ++ (mark ++ mark.intercalate (next :: rest))) mark 0 := by
        refine ⟨Nat.zero_le _, ?_⟩
        rw [List.drop_left]
        exact List.prefix_append _ _
      obtain ⟨index, hleast, hsplit⟩ | ⟨hempty, -⟩ := splitAt_spec hm _
      · have hindex : index = part.length :=
          Nat.le_antisymm (hleast.2 hjoint) (length_le_of_occurrence hm hpart hleast.1.2)
        rw [hsplit, hindex, List.take_left, ← List.drop_drop, List.drop_left, List.drop_left,
          ih (List.cons_ne_nil _ _) hrest]
      · rw [hempty] at hjoint
        exact absurd hjoint (Set.notMem_empty _)

-- Without a separator in between, single characters make up the text again.
theorem intercalate_characters (text : List Char) :
    List.intercalate [] (text.map fun c => [c]) = text := by
  induction text with
  | nil => rfl
  | cons c rest ih =>
    cases rest with
    | nil => rfl
    | cons next rest =>
      have hne : (next :: rest).map (fun c => [c]) ≠ [] := List.cons_ne_nil _ _
      rw [List.map_cons, List.intercalate_cons_of_ne_nil hne, ih]
      rfl

theorem intercalate_map_ofList (separator : String) (pieces : List (List Char)) :
    separator.intercalate (pieces.map String.ofList) =
      String.ofList (separator.toList.intercalate pieces) := by
  have hpieces : (pieces.map String.ofList).map String.toList = pieces := by
    rw [List.map_map]
    exact List.map_id'' (fun _ => String.toList_ofList) pieces
  rw [← String.toList_inj, String.toList_intercalate, hpieces, String.toList_ofList]

end Text

-- The text that a join puts between the elements.
def Heap.joint (heap : Heap) : Value → String
  | .undefined => ","
  | separator => heap.toText separator

theorem Heap.joint_given (heap : Heap) {separator : Value} (h : separator ≠ .undefined) :
    heap.joint separator = heap.toText separator := by
  cases separator with
  | undefined => exact absurd rfl h
  | _ => rfl

theorem Heap.joint_addArray {heap : Heap} (h : heap.AllMade) {separator : Value}
    (hs : heap.Made separator) (elements : Array Value) :
    (heap.addArray elements).2.joint separator = heap.joint separator := by
  cases separator with
  | undefined => rfl
  | _ => exact toText_addArray elements h hs

namespace StringFunction

theorem pieces_given (heap : Heap) (text : List Char) {separator : Value}
    (h : separator ≠ .undefined) : pieces heap text [separator] =
      match (heap.toText separator).toList with
      | [] => text.map fun c => [c]
      | mark => Text.splitAt mark text := by
  cases separator with
  | undefined => exact absurd rfl h
  | _ => rfl

-- What is put between the pieces is what they have been split at, or there is only one of them.
theorem intercalate_pieces (heap : Heap) (text : List Char) (separator : Value) :
    (heap.joint separator).toList.intercalate (pieces heap text [separator]) = text := by
  by_cases h : separator = .undefined
  · subst h
    exact List.intercalate_singleton
  · rw [pieces_given heap text h, heap.joint_given h]
    cases (heap.toText separator).toList with
    | nil => exact Text.intercalate_characters text
    | cons first rest => exact Text.intercalate_splitAt (List.cons_ne_nil _ _) text

theorem pieces_intercalate (heap : Heap) {texts : List String} (hne : texts ≠ [])
    {separator : String} (hs : separator ≠ "")
    (hn : ∀ text ∈ texts, ∀ c ∈ text.toList, c ∉ separator.toList) :
    (pieces heap (separator.intercalate texts).toList [.string separator]).map String.ofList =
      texts := by
  have hmark : separator.toList ≠ [] := fun h => hs (String.toList_eq_nil_iff.mp h)
  have hsplit : Text.splitAt separator.toList (separator.toList.intercalate
      (texts.map String.toList)) = texts.map String.toList :=
    Text.splitAt_intercalate hmark (List.map_eq_nil_iff.not.mpr hne) (List.forall_mem_map.mpr hn)
  rw [pieces_given heap _ Value.noConfusion, heap.toText_string, String.toList_intercalate]
  obtain ⟨first, rest, hcons⟩ := List.exists_cons_of_ne_nil hmark
  rw [hcons] at hsplit ⊢
  dsimp only
  rw [hsplit, List.map_map]
  exact List.map_id'' (fun _ => String.ofList_toList) texts

end StringFunction

namespace Machine

variable {σ : Type}

-- The machine with one more array of texts.
def withTexts (machine : Machine σ) (texts : List String) : Machine σ :=
  { machine with heap := (machine.heap.addArray (texts.map .string).toArray).2 }

variable (machine : Machine σ) (texts : List String)

theorem array_withTexts :
    (machine.withTexts texts).heap.array ⟨machine.heap.arrays.size⟩ =
      (texts.map .string).toArray := by
  rw [withTexts, Heap.array_addArray, if_pos rfl]

theorem joinArray_withTexts (separator : String) :
    (machine.withTexts texts).heap.joinArray ⟨machine.heap.arrays.size⟩ separator =
      separator.intercalate texts := by
  refine Heap.joinArray_strings ?_ ?_ separator
  · simp [withTexts, Heap.addArray]
  · rw [array_withTexts]

end Machine

namespace Native

variable {σ : Type} (host : Host σ) (below : Below σ)

-- Splits a text at a separator and joins the pieces with it.
def splitThenJoin (text : String) (separator : Value) : Run σ Fault Value := do
  let pieces ← apply host below (.string text) [separator] (.string .split)
  apply host below pieces [separator] (.array .join)

-- Joins the elements of an array with a separator and splits the text at it.
def joinThenSplit (ref : ArrayRef) (separator : Value) : Run σ Fault Value := do
  let text ← apply host below (.array ref) [separator] (.array .join)
  apply host below text [separator] (.string .split)

variable {machine : Machine σ}

theorem apply_split (text : String) (separator : Value) :
    apply host below (.string text) [separator] (.string .split) machine =
      (.done (.array ⟨machine.heap.arrays.size⟩), machine.withTexts
        ((StringFunction.pieces machine.heap text.toList [separator]).map String.ofList)) := by
  change (Ending.done (Value.array ⟨machine.heap.arrays.size⟩), { machine with
    heap := (machine.heap.addArray ((StringFunction.pieces machine.heap
      (machine.heap.toText (.string text)).toList [separator]).map Value.ofChars).toArray).2 }) = _
  rw [Heap.toText_string, Machine.withTexts, List.map_map]
  rfl

theorem apply_join (ref : ArrayRef) (separator : Value) :
    apply host below (.array ref) [separator] (.array .join) machine =
      (.done (.string (machine.heap.joinArray ref (machine.heap.joint separator))), machine) := by
  cases separator <;> rfl

theorem splitThenJoin_eq (h : machine.heap.AllMade) (text : String) {separator : Value}
    (hs : machine.heap.Made separator) :
    ∃ pieces, splitThenJoin host below text separator machine =
      (.done (.string text), machine.withTexts pieces) := by
  obtain ⟨pieces, hpieces⟩ :
      ∃ pieces, StringFunction.pieces machine.heap text.toList [separator] = pieces := ⟨_, rfl⟩
  have hjoint : (machine.withTexts (pieces.map String.ofList)).heap.joint separator =
      machine.heap.joint separator :=
    Heap.joint_addArray h hs _
  refine ⟨pieces.map String.ofList, ?_⟩
  rw [splitThenJoin, Run.bind_apply, apply_split, hpieces]
  dsimp only
  rw [apply_join, hjoint, Machine.joinArray_withTexts, Text.intercalate_map_ofList, ← hpieces,
    StringFunction.intercalate_pieces, String.ofList_toList]

theorem joinThenSplit_eq {ref : ArrayRef} {texts : List String}
    (ha : (machine.heap.array ref).toList = texts.map .string) (hne : texts ≠ [])
    {separator : String} (hs : separator ≠ "")
    (hn : ∀ text ∈ texts, ∀ c ∈ text.toList, c ∉ separator.toList) :
    joinThenSplit host below ref (.string separator) machine =
      (.done (.array ⟨machine.heap.arrays.size⟩), machine.withTexts texts) := by
  have hr : ref.index < machine.heap.arrays.size := by
    refine Nat.lt_of_not_le fun hle => hne ?_
    rw [Heap.array_of_size_le hle] at ha
    exact List.map_eq_nil_iff.mp ha.symm
  have hjoint : machine.heap.joint (.string separator) = separator :=
    machine.heap.toText_string separator
  rw [joinThenSplit, Run.bind_apply, apply_join, hjoint, Heap.joinArray_strings hr ha]
  dsimp only
  rw [apply_split, StringFunction.pieces_intercalate machine.heap hne hs hn]

-- Splitting and joining undo each other. Whatever the separator is, joining the pieces with it gives
-- the text back; and texts are found again behind a join unless one has a character of the separator.
theorem split_join_inverse (machine : Machine σ) :
    (∀ (text : String) (separator : Value), machine.heap.AllMade → machine.heap.Made separator →
      ∃ pieces, splitThenJoin host below text separator machine =
        (.done (.string text), machine.withTexts pieces)) ∧
    ∀ (ref : ArrayRef) (texts : List String) (separator : String),
      (machine.heap.array ref).toList = texts.map .string → texts ≠ [] → separator ≠ "" →
      (∀ text ∈ texts, ∀ c ∈ text.toList, c ∉ separator.toList) →
      ∃ copy after, joinThenSplit host below ref (.string separator) machine =
          (.done (.array copy), after) ∧
        (after.heap.array copy).toList = texts.map .string := by
  refine ⟨fun text separator h hs => splitThenJoin_eq host below h text hs, ?_⟩
  intro ref texts separator ha hne hs hn
  refine ⟨_, _, joinThenSplit_eq host below ha hne hs hn, ?_⟩
  rw [Machine.array_withTexts]

section Sample

-- A machine with an array of texts, an array of the first and itself, and a wrapper around the second.
def nest : Machine Unit where
  heap :=
    { objects := #[.empty, ⟨.wrapper (.host ⟨"box", 0⟩ "Box" (.array ⟨1⟩)), .empty⟩]
      arrays := #[#[.string "né", .string "", .string "-"], #[.array ⟨0⟩, .array ⟨1⟩]]
      natives := #[] }
  root := ⟨0⟩
  deadline := .never
  readings := 0
  depth := 0
  maxDepth := 0
  transcript := default
  host := ()

theorem nest_allMade : nest.heap.AllMade where
  elements {ref element} hm := by
    obtain ⟨_ | _ | index⟩ := ref
    · obtain rfl | rfl | rfl : element = .string "né" ∨ element = .string "" ∨
        element = .string "-" := by simpa [nest, Heap.array] using hm
      all_goals trivial
    · obtain rfl | rfl : element = .array ⟨0⟩ ∨ element = .array ⟨1⟩ := by
        simpa [nest, Heap.array] using hm
      exacts [Nat.zero_lt_two, Nat.one_lt_two]
    · cases hm
  contents {ref content} hi := by
    obtain ⟨_ | _ | index⟩ := ref
    · cases hi
    · obtain rfl := Option.some.inj hi
      exact Nat.one_lt_two
    · cases hi

-- Separators that stand at both ends, and that overlap themselves.
theorem split_join_inverse_nest :
    nest.heap.AllMade ∧ nest.heap.Made (.object ⟨1⟩) ∧
    nest.heap.toText (.object ⟨1⟩) = "né,,-," ∧
    (∃ pieces, splitThenJoin .bare (.ofFuel .bare 0) "né,,-,a,né,,-," (.object ⟨1⟩) nest =
      (.done (.string "né,,-,a,né,,-,"), nest.withTexts pieces)) ∧
    (∃ pieces, splitThenJoin .bare (.ofFuel .bare 0) "aaaéaa" (.string "aa") nest =
      (.done (.string "aaaéaa"), nest.withTexts pieces)) ∧
    ∃ copy after, joinThenSplit .bare (.ofFuel .bare 0) ⟨0⟩ (.string "aa") nest =
        (.done (.array copy), after) ∧
      (after.heap.array copy).toList = [.string "né", .string "", .string "-"] := by
  obtain ⟨hsplit, hjoin⟩ := split_join_inverse .bare (.ofFuel .bare 0) nest
  refine ⟨nest_allMade, trivial, by decide, hsplit _ _ nest_allMade trivial,
    hsplit _ _ nest_allMade trivial, ?_⟩
  exact hjoin ⟨0⟩ ["né", "", "-"] "aa" rfl (List.cons_ne_nil _ _) (by decide) (by simp)

end Sample

end Native

end ScriptEngine
