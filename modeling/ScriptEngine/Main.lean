import ScriptEngine.Shell

-- The process around the command line: its arguments, files and streams.

namespace ScriptEngine.Shell

-- More steps than any run takes before its deadline.
def stepBudget : Nat := 0x4000000000000000

-- The text of a file, or why it cannot be read.
def fileText (path : String) : IO (Except String String) := do
  try
    return .ok (← IO.FS.readFile path)
  catch error =>
    return .error (toString error)

def emit (output errors : String) : IO Unit := do
  IO.print output
  IO.eprint errors

def finish (outcome : Outcome) : IO UInt32 := do
  emit outcome.output outcome.errors
  return outcome.exit.toUInt32

-- Asks for lines until one is a request to quit, a line crashes or the input ends.
partial def converse (state : State) : IO UInt32 := do
  IO.print prompt
  (← IO.getStdout).flush
  let line ← (← IO.getStdin).getLine
  if line.isEmpty then return 0
  match Request.ofLine line with
  | .quit => return 0
  | .nothing => converse state
  | .run line =>
    match runLine stepBudget line state with
    | (transcript, some state) =>
      emit transcript.output transcript.errors
      converse state
    | (transcript, none) => finish (.crash transcript)

def perform (command : Command) : IO UInt32 := do
  match command.mode with
  | .interactive =>
    IO.print banner
    converse (start command)
  | .expression text => finish (runExpression stepBudget text (start command))
  | .file path =>
    match ← fileText path with
    | .ok source => finish (runScript stepBudget path source (start command))
    | .error reason => finish (unreadable path reason)

end ScriptEngine.Shell

open ScriptEngine.Shell in
def main (arguments : List String) : IO UInt32 := do
  match ← Command.read fileText arguments {} with
  | .ok command => perform command
  | .error outcome => finish outcome
