import ScriptEngine.Toml.Document

-- Settings of an engine, and their form in TOML: the keys of the table `engine`. Other tables and
-- keys do not matter.

namespace ScriptEngine

structure Config where
  -- The time of a run in milliseconds.
  timeout : Nat := 60000
  -- User functions that may be entered at a time.
  maxDepth : Nat := 512
  installStandard : Bool := true
deriving DecidableEq, Repr

namespace Config

open Toml (Item Entries)

def natural? : Item → Option Nat
  | .integer value => if 0 ≤ value then some value.toNat else none
  | _ => none

def boolean? : Item → Option Bool
  | .boolean value => some value
  | _ => none

-- A setting that may be missing but must have the right type.
def setting? {α : Type} (read? : Item → Option α) (fallback : α) : Option Item → Option α
  | some item => read? item
  | none => some fallback

def standard : Config := {}

-- The keys of the table. A key that is missing keeps its standard setting.
def ofEntries? (entries : Entries) : Option Config := do
  return {
    timeout := ← setting? natural? standard.timeout (entries.lookup "maximum_execution_time_ms")
    maxDepth := ← setting? natural? standard.maxDepth (entries.lookup "max_call_depth")
    installStandard := ← setting? boolean? standard.installStandard
      (entries.lookup "install_std_lib") }

-- The settings of an item: a table by keys, an array by position, and a date, which has none of the
-- keys, for the standard ones.
def ofItem? : Item → Option Config
  | .table _ entries => ofEntries? entries
  | .array (timeout :: maxDepth :: installStandard :: _) => do
    return ⟨← natural? timeout, ← natural? maxDepth, ← boolean? installStandard⟩
  | .datetime _ => some standard
  | _ => none

def ofToml? (text : List Char) : Option Config := do
  let root ← Toml.read? text
  match root.lookup "engine" with
  | some item => ofItem? item
  | none => some standard

end Config

end ScriptEngine
