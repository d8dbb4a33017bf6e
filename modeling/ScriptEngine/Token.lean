import ScriptEngine.Number

-- The vocabulary of scripts: keywords, symbols, literals, and the tokens made of them.

namespace ScriptEngine

-- Reserved words. Many of them have no use in the grammar, but none can be a name.
inductive Keyword where
  | varWord | ifWord | elseWord | doWord | nullWord | whileWord | forWord | breakWord
  | continueWord | undefinedWord | functionWord | returnWord | trueWord | falseWord | newWord
  | typeofWord | instanceofWord | infinityWord | tryWord | catchWord | throwWord | constWord
  | letWord | importWord | awaitWord | debuggerWord | switchWord | defaultWord | withWord
  | yieldWord | inWord | extendsWord | exportWord | finallyWord | superWord | thisWord | enumWord
  | implementsWord | interfaceWord | packageWord | privateWord | protectedWord | publicWord
  | staticWord | volatileWord | abstractWord | floatWord | synchronizedWord | booleanWord
  | gotoWord | intWord | longWord | nativeWord | shortWord | transientWord
deriving DecidableEq, Repr

namespace Keyword

def text : Keyword → String
  | varWord => "var"
  | ifWord => "if"
  | elseWord => "else"
  | doWord => "do"
  | nullWord => "null"
  | whileWord => "while"
  | forWord => "for"
  | breakWord => "break"
  | continueWord => "continue"
  | undefinedWord => "undefined"
  | functionWord => "function"
  | returnWord => "return"
  | trueWord => "true"
  | falseWord => "false"
  | newWord => "new"
  | typeofWord => "typeof"
  | instanceofWord => "instanceof"
  | infinityWord => "Infinity"
  | tryWord => "try"
  | catchWord => "catch"
  | throwWord => "throw"
  | constWord => "const"
  | letWord => "let"
  | importWord => "import"
  | awaitWord => "await"
  | debuggerWord => "debugger"
  | switchWord => "switch"
  | defaultWord => "default"
  | withWord => "with"
  | yieldWord => "yield"
  | inWord => "in"
  | extendsWord => "extends"
  | exportWord => "export"
  | finallyWord => "finally"
  | superWord => "super"
  | thisWord => "this"
  | enumWord => "enum"
  | implementsWord => "implements"
  | interfaceWord => "interface"
  | packageWord => "package"
  | privateWord => "private"
  | protectedWord => "protected"
  | publicWord => "public"
  | staticWord => "static"
  | volatileWord => "volatile"
  | abstractWord => "abstract"
  | floatWord => "float"
  | synchronizedWord => "synchronized"
  | booleanWord => "boolean"
  | gotoWord => "goto"
  | intWord => "int"
  | longWord => "long"
  | nativeWord => "native"
  | shortWord => "short"
  | transientWord => "transient"

def all : List Keyword :=
  [.varWord, .ifWord, .elseWord, .doWord, .nullWord, .whileWord, .forWord, .breakWord,
   .continueWord, .undefinedWord, .functionWord, .returnWord, .trueWord, .falseWord, .newWord,
   .typeofWord, .instanceofWord, .infinityWord, .tryWord, .catchWord, .throwWord, .constWord,
   .letWord, .importWord, .awaitWord, .debuggerWord, .switchWord, .defaultWord, .withWord,
   .yieldWord, .inWord, .extendsWord, .exportWord, .finallyWord, .superWord, .thisWord, .enumWord,
   .implementsWord, .interfaceWord, .packageWord, .privateWord, .protectedWord, .publicWord,
   .staticWord, .volatileWord, .abstractWord, .floatWord, .synchronizedWord, .booleanWord,
   .gotoWord, .intWord, .longWord, .nativeWord, .shortWord, .transientWord]

def ofText? (word : List Char) : Option Keyword :=
  all.find? fun keyword => keyword.text.toList = word

end Keyword

-- Operators and punctuation.
inductive Symbol where
  | semicolon | dot | comma | leftParen | rightParen | leftBrace | rightBrace | leftBracket
  | rightBracket | colon | question | strictEqual | equal | assign | strictUnequal | unequal
  | bang | plusAssign | increment | plus | minusAssign | decrement | minus | timesAssign | times
  | divideAssign | divide | moduloAssign | modulo | xorAssign | caret | andAssign
  | doubleAmpersand | ampersand | orAssign | doubleBar | bar | shiftLeftAssign | lessEqual
  | shiftLeft | less | shiftRightUnsigned | shiftRightAssign | shiftRight | greaterEqual
  | greater
deriving DecidableEq, Repr

namespace Symbol

def text : Symbol → String
  | semicolon => ";"
  | dot => "."
  | comma => ","
  | leftParen => "("
  | rightParen => ")"
  | leftBrace => "\x7b"
  | rightBrace => "\x7d"
  | leftBracket => "["
  | rightBracket => "]"
  | colon => ":"
  | question => "?"
  | strictEqual => "==="
  | equal => "=="
  | assign => "="
  | strictUnequal => "!=="
  | unequal => "!="
  | bang => "!"
  | plusAssign => "+="
  | increment => "++"
  | plus => "+"
  | minusAssign => "-="
  | decrement => "--"
  | minus => "-"
  | timesAssign => "*="
  | times => "*"
  | divideAssign => "/="
  | divide => "/"
  | moduloAssign => "%="
  | modulo => "%"
  | xorAssign => "^="
  | caret => "^"
  | andAssign => "&="
  | doubleAmpersand => "&&"
  | ampersand => "&"
  | orAssign => "|="
  | doubleBar => "||"
  | bar => "|"
  | shiftLeftAssign => "<<="
  | lessEqual => "<="
  | shiftLeft => "<<"
  | less => "<"
  | shiftRightUnsigned => ">>>"
  | shiftRightAssign => ">>="
  | shiftRight => ">>"
  | greaterEqual => ">="
  | greater => ">"

-- Every symbol, the longer ones first.
def all : List Symbol :=
  [.strictEqual, .strictUnequal, .shiftLeftAssign, .shiftRightUnsigned, .shiftRightAssign,
   .equal, .unequal, .plusAssign, .increment, .minusAssign, .decrement, .timesAssign,
   .divideAssign, .moduloAssign, .xorAssign, .andAssign, .doubleAmpersand, .orAssign, .doubleBar,
   .lessEqual, .shiftLeft, .shiftRight, .greaterEqual, .semicolon, .dot, .comma, .leftParen,
   .rightParen, .leftBrace, .rightBrace, .leftBracket, .rightBracket, .colon, .question, .assign,
   .bang, .plus, .minus, .times, .divide, .modulo, .caret, .ampersand, .bar, .less, .greater]

-- The longest symbol that the text starts with.
def longestPrefix? (text : List Char) : Option Symbol :=
  all.find? fun symbol => symbol.text.toList.isPrefixOf text

end Symbol

-- Constants that can stand in a script.
inductive Literal where
  | undefined
  | null
  | boolean (value : Bool)
  | number (value : Number)
  | string (value : String)

inductive Token where
  | keyword (word : Keyword)
  | identifier (name : String)
  | literal (value : Literal)
  | symbol (mark : Symbol)

namespace Token

-- How messages name a token.
def describe : Token → String
  | keyword word => "'" ++ word.text ++ "'"
  | symbol mark => "'" ++ mark.text ++ "'"
  | identifier _ => "identifier"
  | literal _ => "literal"

-- How messages name the token at hand, or the end of the input.
def describe? : Option Token → String
  | some token => token.describe
  | none => "eof"

end Token

end ScriptEngine
