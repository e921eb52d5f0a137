import Enclave.Number.Basic
import Enclave.Source.Position
import Enclave.Text.Character

/-!
# Tokens

The words of the language: literals, names, keywords, marks and operators, and besides them
comments, the end of the input, and pieces of source that form no token.
-/

namespace Enclave

/-- The reserved words. -/
inductive Keyword
  | kwClass | kwExtends | kwConstructor | kwNew | kwThis | kwSuper | kwPrivate | kwStatic | kwLet
  | kwConst | kwFunction | kwReturn | kwIf | kwElse | kwWhile | kwThrow | kwTry | kwCatch | kwDelete
  | kwIn | kwTypeof | kwTrue | kwFalse | kwNull | kwUndefined
  deriving DecidableEq

namespace Keyword

/-- Every reserved word. -/
def all : List Keyword :=
  [.kwClass, .kwExtends, .kwConstructor, .kwNew, .kwThis, .kwSuper, .kwPrivate, .kwStatic, .kwLet,
    .kwConst, .kwFunction, .kwReturn, .kwIf, .kwElse, .kwWhile, .kwThrow, .kwTry, .kwCatch,
    .kwDelete, .kwIn, .kwTypeof, .kwTrue, .kwFalse, .kwNull, .kwUndefined]

/-- The letters of a reserved word. -/
def spelling : Keyword → String
  | .kwClass => "class"
  | .kwExtends => "extends"
  | .kwConstructor => "constructor"
  | .kwNew => "new"
  | .kwThis => "this"
  | .kwSuper => "super"
  | .kwPrivate => "private"
  | .kwStatic => "static"
  | .kwLet => "let"
  | .kwConst => "const"
  | .kwFunction => "function"
  | .kwReturn => "return"
  | .kwIf => "if"
  | .kwElse => "else"
  | .kwWhile => "while"
  | .kwThrow => "throw"
  | .kwTry => "try"
  | .kwCatch => "catch"
  | .kwDelete => "delete"
  | .kwIn => "in"
  | .kwTypeof => "typeof"
  | .kwTrue => "true"
  | .kwFalse => "false"
  | .kwNull => "null"
  | .kwUndefined => "undefined"

/-- The reserved word spelled like this, if there is one. -/
def ofSpelling? (word : String) : Option Keyword := all.find? (·.spelling = word)

end Keyword

/-- Punctuation, and the sign of assignment. -/
inductive Mark
  | leftParen | rightParen | leftBracket | rightBracket | leftBrace | rightBrace
  | comma | semicolon | colon | dot | assign
  deriving DecidableEq

namespace Mark

/-- Every mark. -/
def all : List Mark :=
  [.leftParen, .rightParen, .leftBracket, .rightBracket, .leftBrace, .rightBrace, .comma,
    .semicolon, .colon, .dot, .assign]

/-- The character of a mark. -/
def spelling : Mark → String
  | .leftParen => "("
  | .rightParen => ")"
  | .leftBracket => "["
  | .rightBracket => "]"
  | .leftBrace => "\x7b"
  | .rightBrace => "\x7d"
  | .comma => ","
  | .semicolon => ";"
  | .colon => ":"
  | .dot => "."
  | .assign => "="

end Mark

/-- The operators. -/
inductive Operator
  | plus | minus | star | slash | percent | eq | notEq | lt | ltEq | gt | gtEq | and | or | not
  deriving DecidableEq

namespace Operator

/-- Every operator. -/
def all : List Operator :=
  [.plus, .minus, .star, .slash, .percent, .eq, .notEq, .lt, .ltEq, .gt, .gtEq, .and, .or, .not]

/-- The characters of an operator. -/
def spelling : Operator → String
  | .plus => "+"
  | .minus => "-"
  | .star => "*"
  | .slash => "/"
  | .percent => "%"
  | .eq => "=="
  | .notEq => "!="
  | .lt => "<"
  | .ltEq => "<="
  | .gt => ">"
  | .gtEq => ">="
  | .and => "&&"
  | .or => "||"
  | .not => "!"

end Operator

/-- Why a piece of source is no token. -/
inductive LexicalError
  | unterminatedComment
  | unterminatedString
  | unterminatedEscape
  | malformedNumber
  | unexpectedCharacter (c : Char)
  deriving DecidableEq

/-- The wording of a lexical error. -/
def LexicalError.message : LexicalError → String
  | .unterminatedComment => "unterminated block comment"
  | .unterminatedString => "unterminated string"
  | .unterminatedEscape => "unterminated string escape"
  | .malformedNumber => "invalid number: invalid float literal"
  | .unexpectedCharacter c => "unexpected character: " ++ Text.quotedChar c

/-- What a token is. -/
inductive TokenKind
  | number (value : Number)
  | string (value : String)
  | identifier (name : String)
  | keyword (word : Keyword)
  | mark (sign : Mark)
  | operator (sign : Operator)
  | lineComment (text : String)
  | blockComment (text : String)
  | endOfInput
  | malformed (error : LexicalError)
  deriving DecidableEq

namespace TokenKind

/-- How messages call a token. -/
def name : TokenKind → String
  | .number _ => "number"
  | .string _ => "string"
  | .identifier _ => "identifier"
  | .keyword word => "`" ++ word.spelling ++ "`"
  | .mark sign => "`" ++ sign.spelling ++ "`"
  | .operator sign => "`" ++ sign.spelling ++ "`"
  | .lineComment _ => "line comment"
  | .blockComment _ => "block comment"
  | .endOfInput => "end of input"
  | .malformed _ => "error"

def isComment : TokenKind → Bool
  | .lineComment _ | .blockComment _ => true
  | _ => false

end TokenKind

/-- A token, where it stands, and its text. -/
structure Token where
  kind : TokenKind
  span : Span
  lexeme : String
  deriving DecidableEq

namespace Token

def isComment (t : Token) : Bool := t.kind.isComment

def isEndOfInput (t : Token) : Bool := t.kind = .endOfInput

end Token

end Enclave
