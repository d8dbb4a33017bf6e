import ScriptEngine.Engine

-- The command line: its arguments, and what it does with a script, an expression or lines typed one
-- by one.

namespace ScriptEngine.Shell

def usage : String :=
  "jsembed - embeddable JavaScript-like interpreter\n\nUsage:\n"
    ++ "  jsembed [options] <file.js>     Execute a script file\n"
    ++ "  jsembed [options] -e \"expr\"     Evaluate one expression\n"
    ++ "  jsembed [options]               Start REPL (interactive mode)\n\nOptions:\n"
    ++ "  --config <file>   Engine settings (TOML, [engine] table)\n"
    ++ "  --timeout <ms>    Maximum execution time per script\n"

def banner : String :=
  "jsembed v0.1.0\nType statements or expressions and press Enter. Type .exit to quit.\n\n"

def prompt : String := "> "

inductive Mode where
  | interactive
  | file (path : String)
  | expression (text : String)
deriving DecidableEq, Repr

structure Command where
  config : Config := {}
  timeout : Option Nat := none
  mode : Mode := .interactive
deriving DecidableEq, Repr

-- What a process leaves behind.
structure Outcome where
  exit : Nat
  output : String
  errors : String
deriving DecidableEq, Repr

def Outcome.refusal (errors : String) : Outcome :=
  ⟨1, "", errors⟩

-- A crash writes its own report behind the errors, which belongs to the system.
def Outcome.crash (transcript : Transcript) : Outcome :=
  ⟨101, transcript.output, transcript.errors⟩

-- The outcome of a process that has written something before.
def Outcome.after (output errors : String) (outcome : Outcome) : Outcome :=
  { outcome with output := output ++ outcome.output, errors := errors ++ outcome.errors }

-- A count of milliseconds that fits 64 bits. A plus sign may stand before it.
def milliseconds? (text : List Char) : Option Nat :=
  let digits := match text with
    | '+' :: digits => digits
    | digits => digits
  if digits.isEmpty || !digits.all Char.isDigit then none
  else
    let value := Number.digitsValue 10 digits
    if value < UInt64.size then some value else none

def missingValue (option : String) : Outcome :=
  .refusal ("Missing value for '" ++ option ++ "'\n" ++ usage)

def badConfig (path reason : String) : Outcome :=
  .refusal ("Error in config '" ++ path ++ "': " ++ reason ++ "\n")

def unreadable (path reason : String) : Outcome :=
  .refusal ("Error reading file '" ++ path ++ "': " ++ reason ++ "\n")

-- Reads the arguments from left to right, and a settings file as soon as it is named. The last
-- script, expression and timeout count.
def Command.read {m : Type → Type} [Monad m] (readFile : String → m (Except String String)) :
    List String → Command → m (Except Outcome Command)
  | [], command => return .ok command
  | option :: rest, command =>
    match option, rest with
    | "-h", _ | "--help", _ => return .error ⟨0, "", usage⟩
    | "--config", path :: rest => do
      match ← readFile path with
      | .error reason => return .error (badConfig path ("Failed to read config file: " ++ reason))
      | .ok text =>
        match Config.ofToml? text.toList with
        | some config => Command.read readFile rest { command with config }
        | none => return .error (badConfig path "Invalid config: TOML parse error")
    | "--timeout", value :: rest =>
      match milliseconds? value.toList with
      | some timeout => Command.read readFile rest { command with timeout := some timeout }
      | none => return .error (.refusal ("Invalid timeout '" ++ value ++ "'\n"))
    | "-e", text :: rest | "--eval", text :: rest =>
      Command.read readFile rest { command with mode := .expression text }
    | "--config", [] | "--timeout", [] | "-e", [] | "--eval", [] =>
      return .error (missingValue option)
    | path, rest => Command.read readFile rest { command with mode := .file path }

-- The settings of a command. Its timeout wins over that of the settings file.
def Command.settings (command : Command) : Config :=
  { command.config with timeout := command.timeout.getD command.config.timeout }

abbrev State := Engine Unit

def start (command : Command) : State :=
  Engine.create command.settings ()

def outOfFuel : String := "Out of fuel"

-- Runs a script for its effects; a failure is reported with the name of the script.
def runScript (fuel : Nat) (path source : String) (state : State) : Outcome :=
  let (ending, state) := state.execute Host.bare fuel source
  let transcript := state.takeTranscript.1
  match ending with
  | .done () => ⟨0, transcript.output, transcript.errors⟩
  | .failed error =>
    ⟨1, transcript.output, transcript.errors ++ path ++ ": " ++ error.render ++ "\n"⟩
  | .crashed => .crash transcript
  | .spent => ⟨1, transcript.output, transcript.errors ++ path ++ ": " ++ outOfFuel ++ "\n"⟩

-- Shows the value of an expression.
def runExpression (fuel : Nat) (text : String) (state : State) : Outcome :=
  let (ending, state) := state.evaluate Host.bare fuel text
  let transcript := state.takeTranscript.1
  match ending with
  | .done value => ⟨0, transcript.output ++ state.heap.toText value ++ "\n", transcript.errors⟩
  | .failed error => ⟨1, transcript.output, transcript.errors ++ error.render ++ "\n"⟩
  | .crashed => .crash transcript
  | .spent => ⟨1, transcript.output, transcript.errors ++ outOfFuel ++ "\n"⟩

def isUndefined : Value → Bool
  | .undefined => true
  | _ => false

-- Writes what a line led to, behind what the script itself has written.
def report (output errors : String) (state : State) : Transcript × Option State :=
  let (transcript, state) := state.takeTranscript
  (⟨transcript.output ++ output, transcript.errors ++ errors⟩, some state)

-- Runs one line: as an expression, whose value is shown unless it is undefined, or as statements if
-- it is no expression. A crash leaves no state.
def runLine (fuel : Nat) (line : String) (state : State) : Transcript × Option State :=
  match state.evaluate Host.bare fuel line with
  | (.done value, state) =>
    report (if isUndefined value then "" else state.heap.toText value ++ "\n") "" state
  | (.failed error, state) =>
    if error.kind = .syntaxError then
      match state.execute Host.bare fuel line with
      | (.done (), state) => report "" "" state
      | (.failed error, state) => report "" (error.render ++ "\n") state
      | (.crashed, state) => (state.takeTranscript.1, none)
      | (.spent, state) => report "" (outOfFuel ++ "\n") state
    else report "" (error.render ++ "\n") state
  | (.crashed, state) => (state.takeTranscript.1, none)
  | (.spent, state) => report "" (outOfFuel ++ "\n") state

-- What a typed line asks for. Blanks around it do not matter.
inductive Request where
  | quit
  | nothing
  | run (line : String)
deriving DecidableEq, Repr

def Request.ofLine (line : String) : Request :=
  let line := String.ofList (Text.trim line.toList)
  if line = ".exit" ∨ line = ".quit" then .quit
  else if line = "" then .nothing
  else .run line

-- Lines up to a request to quit, a crash or the end, with a prompt before each of them and before the
-- end.
def runLines (fuel : Nat) (state : State) : List String → Outcome
  | [] => ⟨0, prompt, ""⟩
  | line :: rest =>
    match Request.ofLine line with
    | .quit => ⟨0, prompt, ""⟩
    | .nothing => (runLines fuel state rest).after prompt ""
    | .run line =>
      match runLine fuel line state with
      | (transcript, some state) =>
        (runLines fuel state rest).after (prompt ++ transcript.output) transcript.errors
      | (transcript, none) => (Outcome.crash transcript).after prompt ""

-- The lines of an input. The last one need not end with a line break.
def linesOf (input : List Char) : List String :=
  let pieces := Text.splitAt ['\n'] input
  (if pieces.getLast? = some [] then pieces.dropLast else pieces).map String.ofList

-- A whole process, given its arguments, the files it can read, and its input.
def run (fuel : Nat) (arguments : List String) (readFile : String → Except String String)
    (input : String) : Outcome :=
  match Id.run (Command.read (fun path => pure (readFile path)) arguments {}) with
  | .error outcome => outcome
  | .ok command =>
    match command.mode with
    | .interactive =>
      (runLines fuel (start command) (linesOf input.toList)).after banner ""
    | .file path =>
      match readFile path with
      | .ok source => runScript fuel path source (start command)
      | .error reason => unreadable path reason
    | .expression text => runExpression fuel text (start command)

end ScriptEngine.Shell
