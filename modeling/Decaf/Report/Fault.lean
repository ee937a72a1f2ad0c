import Decaf.Syntax.Reader

/-!
# Faults

What keeps a text from being checked, as it is reported to the outside: by the
phase it was found in, with a message and, unless the text could not be had at
all, a span.
-/

namespace Decaf

/-- What keeps a text from being checked, or what is wrong with it. -/
inductive Fault where
  | lexer (message : String) (span : Span)
  | parser (message : String) (span : Span)
  | semantic (message : String) (span : Span)
  | io (message : String)
deriving DecidableEq

namespace Fault

/-- The message of a fault. -/
def message : Fault → String
  | lexer message _ => message
  | parser message _ => message
  | semantic message _ => message
  | io message => message

/-- What a fault is about. -/
def span? : Fault → Option Span
  | lexer _ span => some span
  | parser _ span => some span
  | semantic _ span => some span
  | io _ => none

/-- A fault on a single line. -/
def text : Fault → String
  | lexer message span => "Lexer error at " ++ span.text ++ ": " ++ message
  | parser message span => "Parser error at " ++ span.text ++ ": " ++ message
  | semantic message span => "Semantic error at " ++ span.text ++ ": " ++ message
  | io message => "IO error: " ++ message

/-- The heading under which a fault is shown. -/
def heading : Fault → String
  | lexer .. => "Lexer error"
  | parser .. => "Syntax error"
  | semantic message _ => message
  | io message => "IO error: " ++ message

/-- What is written beside the place of a fault, unless the heading says it. -/
def label : Fault → String
  | lexer message _ => message
  | parser message _ => message
  | semantic .. => ""
  | io _ => ""

end Fault

/-- An unreadable spot as a fault. -/
def LexicalError.fault (e : LexicalError) : Fault :=
  .lexer e.message e.span

/-- A reason why a text is not a program as a fault. -/
def ParseError.fault : ParseError → Fault
  | .unreadable e => e.fault
  | e => .parser e.message e.span

end Decaf
