-- TOML documents: values, and tables that know how they came to be, which decides what may still be
-- added to them.

namespace ScriptEngine.Toml

-- How a table came to be: by a header or as the root, on the way to a header, by a dotted key, or
-- in braces, after which it is complete.
inductive Origin where
  | defined | implied | dotted | closed
deriving DecidableEq, Repr

inductive Item where
  | integer (value : Int)
  | float (value : Float)
  | boolean (value : Bool)
  | string (value : String)
  | datetime (text : String)
  | array (items : List Item)
  | table (origin : Origin) (entries : List (String × Item))
  -- Tables under one repeated header.
  | tables (rows : List Item)

abbrev Entries := List (String × Item)

-- Puts an item in the place of the one under a key, or at the end.
def Entries.put (key : String) (item : Item) : Entries → Entries
  | [] => [(key, item)]
  | entry :: rest =>
    if entry.1 = key then (key, item) :: rest else entry :: Entries.put key item rest

-- Changes the table at a path. Tables that are missing on the way are made, as dotted ones if the
-- path is a dotted key; such a key does not lead through a table that has been defined.
def within (dotted : Bool) (change : Origin → Entries → Option Entries) :
    List String → Origin → Entries → Option Entries
  | [], origin, entries => change origin entries
  | key :: rest, _, entries =>
    match entries.lookup key with
    | none =>
      let origin := if dotted then Origin.dotted else .implied
      (within dotted change rest origin []).map fun made => entries.put key (.table origin made)
    | some (.table origin inner) =>
      if origin = .closed ∨ (dotted ∧ origin = .defined) then none
      else
        (within dotted change rest origin inner).map fun changed =>
          entries.put key (.table origin changed)
    | some (.tables rows) =>
      match rows.getLast? with
      | some (.table origin inner) =>
        (within dotted change rest origin inner).map fun changed =>
          entries.put key (.tables (rows.dropLast ++ [.table origin changed]))
      | _ => none
    | some _ => none

-- Adds a value under a key that may be dotted. A key is set once, and a dotted one only in a table
-- that dotted keys have made.
def addValue (path : List String) (key : String) (item : Item) (origin : Origin)
    (entries : Entries) : Option Entries :=
  within true (fun origin entries =>
      if decide (origin = .dotted) = path.isEmpty then none
      else if (entries.lookup key).isSome then none
      else some (entries.put key item))
    path origin entries

-- Makes the table of a header. A table that is there must have been implied only.
def addTable (path : List String) (key : String) (root : Entries) : Option Entries :=
  within false (fun _ entries =>
      match entries.lookup key with
      | none => some (entries.put key (.table .defined []))
      | some (.table .implied inner) => some (entries.put key (.table .defined inner))
      | some _ => none)
    path .defined root

-- Adds a table under a repeated header.
def addRow (path : List String) (key : String) (root : Entries) : Option Entries :=
  within false (fun _ entries =>
      match entries.lookup key with
      | none => some (entries.put key (.tables [.table .defined []]))
      | some (.tables rows) => some (entries.put key (.tables (rows ++ [.table .defined []])))
      | some _ => none)
    path .defined root

end ScriptEngine.Toml
