import ScriptEngine.Object

-- The native functions of a fresh engine, and those of the embedding program.

namespace ScriptEngine

inductive GlobalFunction where
  | typeOf | exec | eval | parseInt | parseFloat | isNaN | isFinite
deriving DecidableEq, Repr

inductive ObjectFunction where
  | toString | hasOwnProperty | keys
deriving DecidableEq, Repr

inductive ArrayFunction where
  | push | pop | join | indexOf | contains | isArray
deriving DecidableEq, Repr

inductive StringFunction where
  | charAt | charCodeAt | indexOf | substring | split | trim | toUpperCase | toLowerCase
deriving DecidableEq, Repr

inductive NumberFunction where
  | isNaN | isFinite | isInteger
deriving DecidableEq, Repr

inductive MathFunction where
  | abs | floor | ceil | round | trunc | sign | min | max | sqrt | pow | exp | log | sin | cos | tan
deriving DecidableEq, Repr

inductive ConsoleFunction where
  | log | warn | error
deriving DecidableEq, Repr

inductive Native where
  | global (function : GlobalFunction)
  | object (function : ObjectFunction)
  | array (function : ArrayFunction)
  | string (function : StringFunction)
  | number (function : NumberFunction)
  | math (function : MathFunction)
  | console (function : ConsoleFunction)
  | host (handler : Handler)
deriving DecidableEq, Repr

end ScriptEngine
