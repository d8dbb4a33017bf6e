import ScriptEngine.Token
import ScriptEngine.Text.Position

-- Why a text is no script.

namespace ScriptEngine

-- What the grammar asks for at a place.
inductive Expected where
  | symbol (mark : Symbol)
  | keyword (word : Keyword)
  | identifier
  | endOfInput
  | statement
  | expression

def Expected.describe : Expected → String
  | symbol mark => (Token.symbol mark).describe
  | keyword word => (Token.keyword word).describe
  | identifier => "identifier"
  | endOfInput => "eof"
  | statement => "a statement"
  | expression => "an expression."

inductive ParseFault where
  | unterminatedComment
  | unterminatedString
  | badUnicodeEscape
  | malformedNumber
  | decimalDigitInOctal
  | unexpectedCharacter (c : Char)
  | unexpected (found : Option Token) (expected : Expected)
  | unnamedStatementFunction
  | namedInlineFunction

def ParseFault.message : ParseFault → String
  | unterminatedComment => "Unterminated '/*' comment"
  | unterminatedString => "Unexpected end-of-input in string constant"
  | badUnicodeEscape => "Invalid unicode escape in string constant"
  | malformedNumber => "Syntax error in numeric constant"
  | decimalDigitInOctal => "Decimal digit in octal constant"
  | unexpectedCharacter c => "Unexpected character '" ++ String.singleton c ++ "' in source"
  | unexpected found expected =>
    "Found " ++ Token.describe? found ++ " when expecting " ++ expected.describe
  | unnamedStatementFunction => "Functions defined at statement-level must have a name"
  | namedInlineFunction => "Inline functions definitions cannot have a name"

-- A fault at a byte offset.
structure ParseError where
  fault : ParseFault
  offset : Nat

end ScriptEngine
