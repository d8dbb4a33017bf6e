import ScriptEngine.Program
import ScriptEngine.Token.Fault

-- Why a run fails, and where.

namespace ScriptEngine

inductive ErrorKind where
  | syntaxError | typeError | referenceError | rangeError | timeoutError
deriving DecidableEq, Repr

-- What an operator was refused on.
inductive OperandClass where
  | integer | double | string | array | object
deriving DecidableEq, Repr

def OperandClass.text : OperandClass → String
  | integer => "Integer"
  | double => "Double"
  | string => "String"
  | array => "Array"
  | object => "Object"

inductive Fault where
  | malformed (fault : ParseFault)
  | notAllowed (operator : BinaryOp) (operand : OperandClass)
  | unknownFunction (name : String)
  | notAFunction
  | notConstructable (name : String)
  | noMethod (className method : String)
  | notAnArray (method : String)
  | notAssignable
  | invalidIndex (index : Int64)
  | callDepthExceeded
  | interrupted
  | timedOut
  -- Raised by a function of the embedding program.
  | raised (kind : ErrorKind) (message : String)
  -- Met at a place of a script that a native function was running.
  | nested (place : Location) (fault : Fault)

namespace Fault

def kind : Fault → ErrorKind
  | malformed _ => .syntaxError
  | notAllowed _ _ | unknownFunction _ | notAFunction | notConstructable _ | noMethod _ _
  | notAnArray _ => .typeError
  | notAssignable => .referenceError
  | invalidIndex _ | callDepthExceeded => .rangeError
  | interrupted | timedOut => .timeoutError
  | raised kind _ => kind
  | nested _ fault => fault.kind

def message : Fault → String
  | malformed fault => fault.message
  | notAllowed operator operand =>
    "'" ++ operator.mark.text ++ "' is not allowed on the " ++ operand.text ++ " type"
  | unknownFunction name => "Unknown function '" ++ name ++ "'"
  | notAFunction => "This expression is not a function!"
  | notConstructable name => name ++ " is not constructable!"
  | noMethod className method => className ++ " has no method '" ++ method ++ "'"
  | notAnArray method => "Array." ++ method ++ " called on a non-array"
  | notAssignable => "Cannot assign to this expression!"
  | invalidIndex index => "Invalid array index " ++ (Number.int index).text
  | callDepthExceeded => "Maximum call stack size exceeded"
  | interrupted => "Interrupted"
  | timedOut => "Execution timed-out"
  | raised _ message => message
  | nested place fault => place.render ++ ": " ++ fault.message

end Fault

-- A fault with its place.
structure Error where
  fault : Fault
  location : Location

namespace Error

def kind (error : Error) : ErrorKind :=
  error.fault.kind

def message (error : Error) : String :=
  error.fault.message

def render (error : Error) : String :=
  error.location.render ++ ": " ++ error.message

def ofParse (script : String) (error : ParseError) : Error :=
  ⟨.malformed error.fault, ⟨script, error.offset⟩⟩

end Error

end ScriptEngine
