import ScriptEngine.Value

-- Named values in the order in which the names came.

namespace ScriptEngine

structure Properties where
  entries : List (String × Value)

namespace Properties

def empty : Properties := ⟨[]⟩

instance : Inhabited Properties := ⟨empty⟩

def names (properties : Properties) : List String :=
  properties.entries.map Prod.fst

def get? (properties : Properties) (name : String) : Option Value :=
  properties.entries.lookup name

def contains (properties : Properties) (name : String) : Bool :=
  (properties.get? name).isSome

def setEntries (name : String) (value : Value) : List (String × Value) → List (String × Value)
  | [] => [(name, value)]
  | entry :: rest =>
    if entry.1 = name then (name, value) :: rest else entry :: setEntries name value rest

-- A name that is there keeps its place, a new one comes last.
def set (properties : Properties) (name : String) (value : Value) : Properties :=
  ⟨setEntries name value properties.entries⟩

-- Takes the first entry of a name away, and gives the value that it had.
def remove (properties : Properties) (name : String) : Option Value × Properties :=
  match properties.entries.findIdx? (·.1 = name) with
  | some index =>
    ((properties.entries[index]?).map Prod.snd, ⟨properties.entries.eraseIdx index⟩)
  | none => (none, properties)

def erase (properties : Properties) (name : String) : Properties :=
  (properties.remove name).2

-- Sets the entries of a list one after the other.
def setAll (properties : Properties) (entries : List (String × Value)) : Properties :=
  entries.foldl (fun properties entry => properties.set entry.1 entry.2) properties

@[simp] theorem get?_empty (name : String) : empty.get? name = none := rfl

@[simp] theorem names_empty : empty.names = [] := rfl

theorem lookup_setEntries (name other : String) (value : Value)
    (entries : List (String × Value)) :
    (setEntries name value entries).lookup other =
      if other = name then some value else entries.lookup other := by
  induction entries with
  | nil =>
    simp only [setEntries, List.lookup_cons, List.lookup_nil]
    split <;> simp_all
  | cons entry rest ih =>
    obtain ⟨key, old⟩ := entry
    by_cases hk : key = name
    · subst hk
      simp only [setEntries, ↓reduceIte, List.lookup_cons]
      split <;> simp_all
    · simp only [setEntries, hk, ↓reduceIte, List.lookup_cons, ih]
      split <;> simp_all

-- The name that was set has the value, and all other names keep theirs.
theorem get?_set (properties : Properties) (name other : String) (value : Value) :
    (properties.set name value).get? other =
      if other = name then some value else properties.get? other :=
  lookup_setEntries name other value properties.entries

theorem map_fst_setEntries (name : String) (value : Value) (entries : List (String × Value)) :
    (setEntries name value entries).map Prod.fst =
      if name ∈ entries.map Prod.fst then entries.map Prod.fst
      else entries.map Prod.fst ++ [name] := by
  induction entries with
  | nil => simp [setEntries]
  | cons entry rest ih =>
    by_cases he : entry.1 = name
    · simp [setEntries, he]
    · have hne : name ≠ entry.1 := fun h => he h.symm
      by_cases hm : name ∈ rest.map Prod.fst <;> simp_all [setEntries]

-- Setting a name keeps the order of the others, and a new one comes last.
theorem names_set (properties : Properties) (name : String) (value : Value) :
    (properties.set name value).names =
      if name ∈ properties.names then properties.names else properties.names ++ [name] :=
  map_fst_setEntries name value properties.entries

-- The value that a removal gives is the one that was there.
theorem value_remove (properties : Properties) (name : String) :
    (properties.remove name).1 = properties.get? name := by
  obtain ⟨entries⟩ := properties
  rw [get?, remove]
  dsimp only
  induction entries with
  | nil => rfl
  | cons entry rest ih =>
    obtain ⟨key, value⟩ := entry
    rw [List.findIdx?_cons, List.lookup_cons]
    by_cases hk : key = name
    · simp [hk]
    · have hne : (name == key) = false := by simpa using Ne.symm hk
      rw [hne]
      dsimp only
      rw [← ih]
      simp only [hk, decide_false, Bool.false_eq_true, if_false]
      cases rest.findIdx? (·.1 = name) <;> rfl

theorem entries_remove (properties : Properties) (name : String) :
    (properties.remove name).2.entries = properties.entries.eraseP (·.1 = name) := by
  rw [List.eraseP_eq_eraseIdx, remove]
  split <;> next h => rw [h]

end Properties

end ScriptEngine
