import Decaf.Text.Span

/-!
# Tokens

The vocabulary of the language: twelve reserved words, the signs (operators
and punctuation), and the four classes of token that carry their text. A kind
of token has a spelling where the language fixes one, a name used in dumps, and
a description used in error messages.
-/

namespace Decaf

/-- The reserved words. -/
inductive Keyword where
  | boolWord | breakWord | continueWord | defWord | elseWord | falseWord
  | ifWord | intWord | returnWord | trueWord | voidWord | whileWord
deriving DecidableEq

namespace Keyword

/-- Every reserved word. -/
def all : List Keyword :=
  [boolWord, breakWord, continueWord, defWord, elseWord, falseWord,
    ifWord, intWord, returnWord, trueWord, voidWord, whileWord]

/-- How a reserved word is written. -/
def spelling : Keyword → String
  | boolWord => "bool"
  | breakWord => "break"
  | continueWord => "continue"
  | defWord => "def"
  | elseWord => "else"
  | falseWord => "false"
  | ifWord => "if"
  | intWord => "int"
  | returnWord => "return"
  | trueWord => "true"
  | voidWord => "void"
  | whileWord => "while"

/-- The name of a reserved word in dumps. -/
def label : Keyword → String
  | boolWord => "Bool"
  | breakWord => "Break"
  | continueWord => "Continue"
  | defWord => "Def"
  | elseWord => "Else"
  | falseWord => "False"
  | ifWord => "If"
  | intWord => "Int"
  | returnWord => "Return"
  | trueWord => "True"
  | voidWord => "Void"
  | whileWord => "While"

/-- The reserved word with a given spelling, if there is one. -/
def ofSpelling? (text : String) : Option Keyword :=
  all.find? (·.spelling == text)

end Keyword

/-- Operators and punctuation. -/
inductive Sign where
  | plus | minus | star | slash | percent
  | equalEqual | notEqual | less | greater | lessEqual | greaterEqual
  | andAnd | orOr | bang | equal
  | openParen | closeParen | openBracket | closeBracket | openBrace | closeBrace
  | semicolon | comma
deriving DecidableEq

namespace Sign

/-- How a sign is written. -/
def spelling : Sign → String
  | plus => "+"
  | minus => "-"
  | star => "*"
  | slash => "/"
  | percent => "%"
  | equalEqual => "=="
  | notEqual => "!="
  | less => "<"
  | greater => ">"
  | lessEqual => "<="
  | greaterEqual => ">="
  | andAnd => "&&"
  | orOr => "||"
  | bang => "!"
  | equal => "="
  | openParen => "("
  | closeParen => ")"
  | openBracket => "["
  | closeBracket => "]"
  | openBrace => "\x7b"
  | closeBrace => "\x7d"
  | semicolon => ";"
  | comma => ","

/-- The name of a sign in dumps. -/
def label : Sign → String
  | plus => "Plus"
  | minus => "Minus"
  | star => "Star"
  | slash => "Slash"
  | percent => "Percent"
  | equalEqual => "EqEq"
  | notEqual => "NotEq"
  | less => "Lt"
  | greater => "Gt"
  | lessEqual => "LtEq"
  | greaterEqual => "GtEq"
  | andAnd => "AmpAmp"
  | orOr => "PipePipe"
  | bang => "Bang"
  | equal => "Eq"
  | openParen => "LParen"
  | closeParen => "RParen"
  | openBracket => "LBracket"
  | closeBracket => "RBracket"
  | openBrace => "LBrace"
  | closeBrace => "RBrace"
  | semicolon => "Semi"
  | comma => "Comma"

/-- The sign written with two characters. -/
def pair? : Char → Char → Option Sign
  | '=', '=' => some equalEqual
  | '!', '=' => some notEqual
  | '<', '=' => some lessEqual
  | '>', '=' => some greaterEqual
  | '&', '&' => some andAnd
  | '|', '|' => some orOr
  | _, _ => none

/-- The sign written with a single character. -/
def single? : Char → Option Sign
  | '+' => some plus
  | '-' => some minus
  | '*' => some star
  | '/' => some slash
  | '%' => some percent
  | '<' => some less
  | '>' => some greater
  | '!' => some bang
  | '=' => some equal
  | '(' => some openParen
  | ')' => some closeParen
  | '[' => some openBracket
  | ']' => some closeBracket
  | '\x7b' => some openBrace
  | '\x7d' => some closeBrace
  | ';' => some semicolon
  | ',' => some comma
  | _ => none

end Sign

namespace Token

/-- What a token is. Identifiers and literals keep the text they were written
with; a string literal's text includes its quotes and escapes. -/
inductive Kind where
  | word (keyword : Keyword)
  | identifier (name : String)
  | hexLiteral (text : String)
  | decLiteral (text : String)
  | stringLiteral (text : String)
  | sign (sign : Sign)
  | endOfFile
deriving DecidableEq

namespace Kind

/-- The name of a kind in dumps. -/
def label : Kind → String
  | word w => w.label
  | identifier _ => "Identifier"
  | hexLiteral _ => "HexLiteral"
  | decLiteral _ => "DecLiteral"
  | stringLiteral _ => "StringLiteral"
  | sign s => s.label
  | endOfFile => "Eof"

/-- The text a token carries, for the kinds whose spelling is not fixed. -/
def payload? : Kind → Option String
  | identifier text => some text
  | hexLiteral text => some text
  | decLiteral text => some text
  | stringLiteral text => some text
  | word _ => none
  | sign _ => none
  | endOfFile => none

/-- How a token of this kind is written in a source text. -/
def spelling : Kind → String
  | word w => w.spelling
  | identifier text => text
  | hexLiteral text => text
  | decLiteral text => text
  | stringLiteral text => text
  | sign s => s.spelling
  | endOfFile => ""

/-- How error messages speak of a kind. -/
def describe : Kind → String
  | word w => "'" ++ w.spelling ++ "'"
  | identifier text => "identifier '" ++ text ++ "'"
  | hexLiteral text => "hex '" ++ text ++ "'"
  | decLiteral text => "integer '" ++ text ++ "'"
  | stringLiteral text => "string " ++ text
  | sign s => "'" ++ s.spelling ++ "'"
  | endOfFile => "end of file"

end Kind

end Token

/-- A token and where it stands. -/
structure Token where
  kind : Token.Kind
  span : Span
deriving DecidableEq

end Decaf
