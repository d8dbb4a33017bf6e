import Mathlib.Data.List.Induction
import ScriptEngine.Properties

-- The properties of an object after any history of sets and removals. A name that is set again keeps
-- its place, and one that comes back after a removal comes last.

namespace ScriptEngine

-- What is done to the properties of an object.
inductive PropertyAction where
  | set (name : String) (value : Value)
  | remove (name : String)

namespace PropertyAction

def name : PropertyAction → String
  | set name _ | remove name => name

def apply (properties : Properties) : PropertyAction → Properties
  | set name value => properties.set name value
  | remove name => (properties.remove name).2

-- The name has been set and not been removed since.
def Standing (history : List PropertyAction) (name : String) : Prop :=
  ∃ front value back, history = front ++ set name value :: back ∧ remove name ∉ back

-- The latest set of the name was to the value, and it has not been removed since.
def Latest (history : List PropertyAction) (name : String) (value : Value) : Prop :=
  ∃ front back, history = front ++ set name value :: back ∧ ∀ action ∈ back, action.name ≠ name

-- The first set of the name after its last removal has this index.
def Enters (history : List PropertyAction) (name : String) (index : Nat) : Prop :=
  ∃ front value back, history = front ++ set name value :: back ∧ remove name ∉ back ∧
    ¬ Standing front name ∧ front.length = index

section Concat

variable {history : List PropertyAction} {action : PropertyAction} {name : String}

-- A place in a longer history is its last one or a place in the history before.
theorem concat_eq_append_cons_iff {front back : List PropertyAction} {other : PropertyAction} :
    history ++ [action] = front ++ other :: back ↔
      (history = front ∧ action = other ∧ back = []) ∨
        ∃ rest, back = rest ++ [action] ∧ history = front ++ other :: rest := by
  constructor
  · intro h
    obtain rfl | ⟨rest, last, rfl⟩ := back.eq_nil_or_concat
    · obtain ⟨hfront, hlast⟩ := List.append_inj' h rfl
      exact .inl ⟨hfront, (List.cons.inj hlast).1, rfl⟩
    · rw [List.concat_eq_append, ← List.cons_append, ← List.append_assoc] at h
      obtain ⟨hrest, hlast⟩ := List.append_inj' h rfl
      obtain rfl := (List.cons.inj hlast).1
      exact .inr ⟨rest, List.concat_eq_append, hrest⟩
  · rintro (⟨rfl, rfl, rfl⟩ | ⟨rest, rfl, rfl⟩)
    · rfl
    · simp

theorem standing_concat : Standing (history ++ [action]) name ↔
    (∃ value, action = set name value) ∨ (Standing history name ∧ action ≠ remove name) := by
  constructor
  · rintro ⟨front, value, back, h, hback⟩
    obtain ⟨-, hlast, -⟩ | ⟨rest, rfl, hrest⟩ := concat_eq_append_cons_iff.mp h
    · exact .inl ⟨value, hlast⟩
    · simp only [List.mem_append, List.mem_singleton, not_or] at hback
      exact .inr ⟨⟨front, value, rest, hrest, hback.1⟩, Ne.symm hback.2⟩
  · rintro (⟨value, rfl⟩ | ⟨⟨front, value, back, rfl, hback⟩, hne⟩)
    · exact ⟨history, value, [], rfl, List.not_mem_nil⟩
    · exact ⟨front, value, back ++ [action], by simp, by simp [hback, Ne.symm hne]⟩

theorem latest_concat {value : Value} : Latest (history ++ [action]) name value ↔
    action = set name value ∨ (Latest history name value ∧ action.name ≠ name) := by
  constructor
  · rintro ⟨front, back, h, hback⟩
    obtain ⟨-, hlast, -⟩ | ⟨rest, rfl, hrest⟩ := concat_eq_append_cons_iff.mp h
    · exact .inl hlast
    · obtain ⟨hback, hlast⟩ := List.forall_mem_append.mp hback
      exact .inr ⟨⟨front, rest, hrest, hback⟩, hlast _ List.mem_cons_self⟩
  · rintro (rfl | ⟨⟨front, back, rfl, hback⟩, hne⟩)
    · exact ⟨history, [], rfl, nofun⟩
    · refine ⟨front, back ++ [action], by simp, List.forall_mem_append.mpr ⟨hback, ?_⟩⟩
      exact List.forall_mem_singleton.mpr hne

theorem enters_concat {index : Nat} : Enters (history ++ [action]) name index ↔
    ((∃ value, action = set name value) ∧ ¬ Standing history name ∧ index = history.length) ∨
      (Enters history name index ∧ action ≠ remove name) := by
  constructor
  · rintro ⟨front, value, back, h, hback, hnew, rfl⟩
    obtain ⟨rfl, hlast, -⟩ | ⟨rest, rfl, hrest⟩ := concat_eq_append_cons_iff.mp h
    · exact .inl ⟨⟨value, hlast⟩, hnew, rfl⟩
    · simp only [List.mem_append, List.mem_singleton, not_or] at hback
      exact .inr ⟨⟨front, value, rest, hrest, hback.1, hnew, rfl⟩, Ne.symm hback.2⟩
  · rintro (⟨⟨value, rfl⟩, hnew, rfl⟩ | ⟨⟨front, value, back, rfl, hback, hnew, rfl⟩, hne⟩)
    · exact ⟨history, value, [], rfl, List.not_mem_nil, hnew, rfl⟩
    · exact ⟨front, value, back ++ [action], by simp, by simp [hback, Ne.symm hne], hnew, rfl⟩

theorem not_standing_nil : ¬ Standing [] name := by
  rintro ⟨front, value, back, h, -⟩
  simp at h

theorem not_latest_nil {value : Value} : ¬ Latest [] name value := by
  rintro ⟨front, back, h, -⟩
  simp at h

theorem Enters.standing {index : Nat} (h : Enters history name index) :
    Standing history name := by
  obtain ⟨front, value, back, hsplit, hback, -, -⟩ := h
  exact ⟨front, value, back, hsplit, hback⟩

theorem Enters.lt_length {index : Nat} (h : Enters history name index) :
    index < history.length := by
  obtain ⟨front, value, back, rfl, -, -, rfl⟩ := h
  simp

-- What is there has come at some time.
theorem exists_enters (h : Standing history name) : ∃ index, Enters history name index := by
  induction history using List.reverseRecOn with
  | nil => exact absurd h not_standing_nil
  | append_singleton history action ih =>
    by_cases hold : Standing history name ∧ action ≠ remove name
    · obtain ⟨index, hindex⟩ := ih hold.1
      exact ⟨index, enters_concat.mpr (.inr ⟨hindex, hold.2⟩)⟩
    · obtain ⟨value, rfl⟩ := (standing_concat.mp h).resolve_right hold
      have hnew : ¬ Standing history name := fun hs => hold ⟨hs, nofun⟩
      exact ⟨history.length, enters_concat.mpr (.inl ⟨⟨value, rfl⟩, hnew, rfl⟩)⟩

end Concat

end PropertyAction

namespace Properties

open PropertyAction (Standing Latest Enters not_standing_nil not_latest_nil standing_concat
  latest_concat enters_concat exists_enters)

variable {properties : Properties} {history : List PropertyAction}

theorem mem_names_set {name other : String} {value : Value} :
    other ∈ (properties.set name value).names ↔ other = name ∨ other ∈ properties.names := by
  rw [names_set]
  split
  · next hm => exact ⟨.inr, fun h => h.elim (· ▸ hm) id⟩
  · rw [List.mem_append, List.mem_singleton, or_comm]

theorem nodup_names_set (h : properties.names.Nodup) (name : String) (value : Value) :
    (properties.set name value).names.Nodup := by
  rw [names_set]
  split
  · exact h
  · next hm =>
    refine List.nodup_append.mpr ⟨h, List.pairwise_singleton _ _, fun other ho last hl he => hm ?_⟩
    rwa [← List.mem_singleton.mp hl, ← he]

-- A filter of the names leaves those alone that it lets through.
theorem lookup_filter {α : Type} (entries : List (String × α)) (accepts : String → Bool)
    (name : String) : (entries.filter fun entry => accepts entry.1).lookup name =
      if accepts name then entries.lookup name else none := by
  induction entries with
  | nil => simp
  | cons entry rest ih =>
    obtain ⟨key, value⟩ := entry
    by_cases hk : name = key
    · subst hk
      cases ha : accepts name <;> simp [ha, ih]
    · have hne : (name == key) = false := beq_eq_false_iff_ne.mpr hk
      cases ha : accepts key <;> simp [ha, ih, List.lookup_cons, hne]

section Remove

variable (h : properties.names.Nodup)
include h

-- Without repetitions, the first entry of a name is the only one.
theorem entries_remove_of_nodup (name : String) :
    (properties.remove name).2.entries = properties.entries.filter (·.1 ≠ name) := by
  rw [entries_remove]
  obtain ⟨entries⟩ := properties
  dsimp only
  change (entries.map Prod.fst).Nodup at h
  induction entries with
  | nil => rfl
  | cons entry rest ih =>
    obtain ⟨hentry, hrest⟩ := List.nodup_cons.mp h
    by_cases hk : entry.1 = name
    · have hother : ∀ other ∈ rest, other.1 ≠ name := fun other hm ho =>
        hentry (List.mem_map.mpr ⟨other, hm, ho.trans hk.symm⟩)
      rw [List.eraseP_cons_of_pos (by simpa using hk), List.filter_cons_of_neg (by simpa using hk),
        List.filter_eq_self.mpr (by simpa using hother)]
    · rw [List.eraseP_cons_of_neg (by simpa using hk), List.filter_cons_of_pos (by simpa using hk),
        ih hrest]

theorem names_remove (name : String) :
    (properties.remove name).2.names = properties.names.filter (· ≠ name) := by
  rw [names, entries_remove_of_nodup h, names, List.filter_map]
  rfl

theorem get?_remove (name other : String) : (properties.remove name).2.get? other =
    if other = name then none else properties.get? other := by
  rw [get?, entries_remove_of_nodup h, lookup_filter _ (· ≠ name), get?]
  simp

end Remove

-- The properties of a new object after what has been done to them.
def afterAll (history : List PropertyAction) : Properties :=
  history.foldl PropertyAction.apply .empty

theorem afterAll_concat (history : List PropertyAction) (action : PropertyAction) :
    afterAll (history ++ [action]) = action.apply (afterAll history) := by
  rw [afterAll, List.foldl_append]
  rfl

theorem nodup_names_afterAll (history : List PropertyAction) :
    (afterAll history).names.Nodup := by
  induction history using List.reverseRecOn with
  | nil => exact List.nodup_nil
  | append_singleton history action ih =>
    rw [afterAll_concat]
    cases action with
    | set name value => exact nodup_names_set ih name value
    | remove name =>
      rw [PropertyAction.apply, names_remove ih]
      exact ih.filter _

theorem mem_names_afterAll (history : List PropertyAction) (name : String) :
    name ∈ (afterAll history).names ↔ Standing history name := by
  induction history using List.reverseRecOn with
  | nil => exact ⟨fun h => absurd h List.not_mem_nil, fun h => absurd h not_standing_nil⟩
  | append_singleton history action ih =>
    rw [afterAll_concat, standing_concat, ← ih]
    cases action with
    | set other value =>
      rw [PropertyAction.apply, mem_names_set]
      simp [eq_comm]
    | remove other =>
      rw [PropertyAction.apply, names_remove (nodup_names_afterAll history), List.mem_filter]
      by_cases hn : name = other
      · simp [hn]
      · simp [hn, Ne.symm hn]

theorem get?_afterAll (history : List PropertyAction) (name : String) (value : Value) :
    (afterAll history).get? name = some value ↔ Latest history name value := by
  induction history using List.reverseRecOn with
  | nil => exact ⟨fun h => (nomatch h), fun h => absurd h not_latest_nil⟩
  | append_singleton history action ih =>
    rw [afterAll_concat, latest_concat, ← ih]
    cases action with
    | set other new =>
      rw [PropertyAction.apply, get?_set]
      by_cases hn : name = other
      · subst hn
        simp [PropertyAction.name]
      · simp [hn, Ne.symm hn, PropertyAction.name]
    | remove other =>
      rw [PropertyAction.apply, get?_remove (nodup_names_afterAll history)]
      by_cases hn : name = other
      · subst hn
        simp [PropertyAction.name]
      · simp [hn, Ne.symm hn, PropertyAction.name]

-- Of two names that are there, the one that has come earlier stands first.
theorem ordered_afterAll (history : List PropertyAction) :
    (afterAll history).names.Pairwise fun first second =>
      ∀ i j, Enters history first i → Enters history second j → i < j := by
  induction history using List.reverseRecOn with
  | nil => exact .nil
  | append_singleton history action ih =>
    -- What was there before has come when it came before.
    have hold {name : String} {index : Nat} (hm : name ∈ (afterAll history).names)
        (h : Enters (history ++ [action]) name index) : Enters history name index := by
      obtain ⟨-, hnew, -⟩ | ⟨hindex, -⟩ := enters_concat.mp h
      · exact absurd ((mem_names_afterAll history name).mp hm) hnew
      · exact hindex
    have hkept := List.Pairwise.imp_of_mem (fun ha hb hlt i j hi hj =>
      hlt i j (hold ha hi) (hold hb hj)) ih
    rw [afterAll_concat]
    cases action with
    | remove name =>
      rw [PropertyAction.apply, names_remove (nodup_names_afterAll history)]
      exact hkept.filter _
    | set name value =>
      rw [PropertyAction.apply, names_set]
      split
      · exact hkept
      · next hnew =>
        refine List.pairwise_append.mpr ⟨hkept, List.pairwise_singleton _ _, ?_⟩
        intro first hm last hlast i j hi hj
        obtain rfl := List.mem_singleton.mp hlast
        have hlength : j = history.length := by
          obtain ⟨-, -, hj⟩ | ⟨hj, -⟩ := enters_concat.mp hj
          · exact hj
          · exact absurd ((mem_names_afterAll history last).mpr hj.standing) hnew
        rw [hlength]
        exact (hold hm hi).lt_length

-- Properties that agree with a history: nothing but what is there has a name, and it stands in the
-- order in which it came.
structure Remember (properties : Properties) (history : List PropertyAction) : Prop where
  nodup : properties.names.Nodup
  names (name : String) : name ∈ properties.names ↔ Standing history name
  contains (name : String) : properties.contains name ↔ Standing history name
  value (name : String) (value : Value) :
    properties.get? name = some value ↔ Latest history name value
  entered (name : String) : name ∈ properties.names → ∃ index, Enters history name index
  ordered : properties.names.Pairwise fun first second =>
    ∀ i j, Enters history first i → Enters history second j → i < j

theorem contains_iff {name : String} : properties.contains name ↔ name ∈ properties.names := by
  simp [contains, get?, Properties.names, List.lookup_isSome_iff]

-- Whatever has been set and removed, the properties of an object are those of the history in its
-- order. A removal gives what was found under the name, and leaves all the other entries as they are.
theorem remember_afterAll (history : List PropertyAction) :
    (afterAll history).Remember history ∧
      ∀ name, ((afterAll history).remove name).1 = (afterAll history).get? name ∧
        ((afterAll history).remove name).2.entries =
          (afterAll history).entries.filter (·.1 ≠ name) := by
  have hmem (name : String) := mem_names_afterAll history name
  refine ⟨?_, fun name => ⟨value_remove _ name, ?_⟩⟩
  · exact {
      nodup := nodup_names_afterAll history
      names := hmem
      contains := fun name => contains_iff.trans (hmem name)
      value := get?_afterAll history
      entered := fun name hm => exists_enters ((hmem name).mp hm)
      ordered := ordered_afterAll history }
  · exact entries_remove_of_nodup (nodup_names_afterAll history) name

-- Set again, `b` keeps its place; set after its removal, `a` comes last.
example : (afterAll [.set "b" (.int 1), .set "a" (.int 2), .set "b" (.int 3), .remove "a",
    .set "c" (.int 4), .set "a" (.int 5)]).names = ["b", "c", "a"] := by decide

end Properties

end ScriptEngine
