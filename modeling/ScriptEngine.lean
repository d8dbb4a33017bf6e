import ScriptEngine.Config
import ScriptEngine.Deadline
import ScriptEngine.Double.Binary
import ScriptEngine.Double.Remainder
import ScriptEngine.Double.Shortest
import ScriptEngine.Engine
import ScriptEngine.Eval
import ScriptEngine.Fault
import ScriptEngine.Heap
import ScriptEngine.Heap.Conversion
import ScriptEngine.Heap.Debug
import ScriptEngine.Heap.Elements
import ScriptEngine.Heap.Equality
import ScriptEngine.Heap.Ladder
import ScriptEngine.Host.Probe
import ScriptEngine.Machine
import ScriptEngine.Main
import ScriptEngine.Native
import ScriptEngine.Native.Collections
import ScriptEngine.Native.Instances
import ScriptEngine.Native.Numbers
import ScriptEngine.Native.Standard
import ScriptEngine.Native.Strings
import ScriptEngine.Number
import ScriptEngine.Number.Reader
import ScriptEngine.Object
import ScriptEngine.Program
import ScriptEngine.Program.Chain
import ScriptEngine.Program.Grammar
import ScriptEngine.Program.Parser
import ScriptEngine.Properties
import ScriptEngine.Registry
import ScriptEngine.Scope
import ScriptEngine.Shell
import ScriptEngine.Text.Alphabetic
import ScriptEngine.Text.Cased
import ScriptEngine.Text.CharClass
import ScriptEngine.Text.LetterCase
import ScriptEngine.Text.Position
import ScriptEngine.Text.Search
import ScriptEngine.Text.Width
import ScriptEngine.Token
import ScriptEngine.Token.Fault
import ScriptEngine.Token.Scan
import ScriptEngine.Toml
import ScriptEngine.Toml.Document
import ScriptEngine.Toml.Scalar
import ScriptEngine.Value
import ScriptEngine.Proofs.Reading.Stream
import ScriptEngine.Proofs.Reading.Derivation
import ScriptEngine.Proofs.Reading.Soundness
import ScriptEngine.Proofs.Reading.Completeness
import ScriptEngine.Proofs.Reading.Relabelling
import ScriptEngine.Proofs.Lexing.Fraction
import ScriptEngine.Proofs.Lexing.Longest
import ScriptEngine.Proofs.Lexing.Locality
import ScriptEngine.Proofs.Printing.Spelling
import ScriptEngine.Proofs.Printing.Canonical
import ScriptEngine.Proofs.Printing.Expressions
import ScriptEngine.Proofs.Printing.Statements
import ScriptEngine.Proofs.Printing.RoundTrip
import ScriptEngine.Proofs.Lexing.Gap
import ScriptEngine.Proofs.Lexing.Place
import ScriptEngine.Proofs.Source.Translation
import ScriptEngine.Proofs.Source.Excerpt
import ScriptEngine.Proofs.Source.Functions
import ScriptEngine.Proofs.Source.Reread
import ScriptEngine.Proofs.Runs.Computation
import ScriptEngine.Proofs.Runs.Manner
import ScriptEngine.Proofs.Runs.Entry
import ScriptEngine.Proofs.Logging.Log
import ScriptEngine.Proofs.Logging.Hooks
import ScriptEngine.Proofs.Logging.Erasure
import ScriptEngine.Proofs.Cancellation.Trace
import ScriptEngine.Proofs.Cancellation.Record
import ScriptEngine.Proofs.Cancellation.Discipline
import ScriptEngine.Proofs.Cancellation.Walk
import ScriptEngine.Proofs.Cancellation.Stop
import ScriptEngine.Proofs.Cancellation.Halted
import ScriptEngine.Proofs.Pairing.Matching
import ScriptEngine.Proofs.Pairing.Walk
import ScriptEngine.Proofs.Pairing.Invariant
import ScriptEngine.Proofs.Depth.Watch
import ScriptEngine.Proofs.Depth.Accounting
import ScriptEngine.Proofs.Heap.Walks
import ScriptEngine.Proofs.Heap.Visits
import ScriptEngine.Proofs.Termination.Writes
import ScriptEngine.Proofs.Termination.LoopFree
import ScriptEngine.Proofs.Arena.Node
import ScriptEngine.Proofs.Arena.Builder
import ScriptEngine.Proofs.Arena.Placement
import ScriptEngine.Proofs.Arena.Agreement
import ScriptEngine.Proofs.Arena.WellFormed
import ScriptEngine.Proofs.Heap.Extension
import ScriptEngine.Proofs.Arena.LoneExpression
import ScriptEngine.Proofs.Arena.Unfolding
import ScriptEngine.Proofs.Arena.FlatWalk
import ScriptEngine.Proofs.Faults.Raising
import ScriptEngine.Proofs.Faults.SyntaxErrors
import ScriptEngine.Proofs.Faults.ParsedHeap
import ScriptEngine.Proofs.Lexing.Joining
import ScriptEngine.Proofs.Lexing.Lossless
import ScriptEngine.Proofs.Lexing.Isolated
import ScriptEngine.Proofs.Lexing.Digits
import ScriptEngine.Proofs.Lexing.Integers
import ScriptEngine.Proofs.Reading.Precedence
import ScriptEngine.Proofs.Reading.Levels
import ScriptEngine.Proofs.Reading.Operands
import ScriptEngine.Proofs.Reading.Settling
import ScriptEngine.Proofs.Reading.Turns
import ScriptEngine.Proofs.Reading.Totality
import ScriptEngine.Proofs.Reading.Prolonging
import ScriptEngine.Proofs.Reading.Joining
import ScriptEngine.Proofs.Reading.Erasing
import ScriptEngine.Proofs.Reading.Respacing
import ScriptEngine.Proofs.Likeness.Unplaced
import ScriptEngine.Proofs.Likeness.Idle
import ScriptEngine.Proofs.Likeness.Walk
import ScriptEngine.Proofs.Likeness.Concatenation
import ScriptEngine.Proofs.Reading.Names
import ScriptEngine.Proofs.Logging.Statements
import ScriptEngine.Proofs.Logging.Returning
import ScriptEngine.Proofs.Receivers.Reports
import ScriptEngine.Proofs.Receivers.Binding
import ScriptEngine.Proofs.Receivers.Keeping
import ScriptEngine.Proofs.Receivers.Walk
import ScriptEngine.Proofs.Receivers.Histories
import ScriptEngine.Proofs.Places.Place
import ScriptEngine.Proofs.Places.Updates
import ScriptEngine.Proofs.Scopes.Assignment
import ScriptEngine.Proofs.Lexing.Escapes
import ScriptEngine.Proofs.Printing.Integers
import ScriptEngine.Proofs.Comparison.Doubles
import ScriptEngine.Proofs.Comparison.Strict
import ScriptEngine.Proofs.Comparison.Loose
import ScriptEngine.Proofs.Heap.Unfolding
import ScriptEngine.Proofs.Methods.Lineage
import ScriptEngine.Proofs.Methods.Dispatch
import ScriptEngine.Proofs.Comparison.Mirrored
import ScriptEngine.Proofs.Comparison.TruthWrappers
import ScriptEngine.Proofs.Arithmetic.Integers
import ScriptEngine.Proofs.Deadline.History
import ScriptEngine.Proofs.Heap.Elements
import ScriptEngine.Proofs.Heap.Limit
import ScriptEngine.Proofs.Places.Storing
import ScriptEngine.Proofs.Loops.WhileForm
import ScriptEngine.Proofs.Untimed.Lasting
import ScriptEngine.Proofs.Untimed.Walk
import ScriptEngine.Proofs.Untimed.NamedCall
import ScriptEngine.Proofs.Heap.Arrays
import ScriptEngine.Proofs.Text.Width
import ScriptEngine.Proofs.Text.Position
import ScriptEngine.Proofs.Text.Search
import ScriptEngine.Proofs.Text.Splitting
import ScriptEngine.Proofs.Registry.Building
import ScriptEngine.Proofs.Registry.Installation
import ScriptEngine.Proofs.Properties.History
