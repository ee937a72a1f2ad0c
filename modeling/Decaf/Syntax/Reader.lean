import Decaf.Text.Lines
import Decaf.Token.Lexer
import Decaf.Token.Literal
import Decaf.Syntax.Basic

/-!
# Reading syntax from tokens

A reader takes something off the front of a list of tokens. It gives what it
read together with the tokens that are left, and the type `Parsed` records that
these are fewer, so the readers of nested constructs terminate and every
successful reading makes progress.

The tokens may stop short at an unreadable spot of the text. To take a token is
to have read the one after it as well: the last token before such a spot
cannot be taken, and the attempt reports the spot (`Reading.reach`). A complaint
about the current token comes before that where the token is looked at first,
and after it where the token is taken first, as names and array lengths are.
-/

namespace Decaf

/-- What was expected where something else was found. -/
inductive Expected where
  | kind (kind : Token.Kind)
  | identifier
  | type
  | arrayLength
  | statement
  | expression
deriving DecidableEq

namespace Expected

/-- How error messages speak of what was expected. -/
def describe : Expected → String
  | kind k => k.describe
  | identifier => "identifier"
  | type => "type"
  | arrayLength => "array length"
  | statement => "statement"
  | expression => "expression"

end Expected

/-- Why a text is not a program. -/
inductive ParseError where
  /-- No token can be read at a spot of the text. -/
  | unreadable (error : LexicalError)
  /-- A token stands where something else was expected. -/
  | unexpected (expected : Expected) (found : Token)
  /-- An array length is too large. -/
  | lengthTooLarge (text : String) (span : Span)
  /-- An integer literal is too large. -/
  | integerTooLarge (text : String) (span : Span)
  /-- A string literal has an escape that means nothing. -/
  | badEscape (error : EscapeError) (span : Span)
deriving DecidableEq

namespace ParseError

/-- The wording of the complaint. -/
def message : ParseError → String
  | unreadable e => e.message
  | unexpected expected found =>
    "expected " ++ expected.describe ++ ", found " ++ found.kind.describe
  | lengthTooLarge text _ => "invalid array length '" ++ text ++ "'"
  | integerTooLarge text _ => "integer literal '" ++ text ++ "' out of range"
  | badEscape (.unknown c) _ => "invalid escape sequence '\\" ++ String.singleton c ++ "'"
  | badEscape .unfinished _ => "unterminated escape sequence"

/-- What the complaint is about. -/
def span : ParseError → Span
  | unreadable e => e.span
  | unexpected _ found => found.span
  | lengthTooLarge _ span => span
  | integerTooLarge _ span => span
  | badEscape _ span => span

end ParseError

/-- What stays fixed while the tokens of a text are read: its lines, the token
that marks its end, and the unreadable spot that its tokens stop at, if any. -/
structure Reading where
  lines : Lines
  ending : Token
  fault : Option LexicalError

namespace Reading

/-- The place of a node with a given span. -/
def place (r : Reading) (span : Span) : Place :=
  ⟨span, r.lines.lineOf span.start⟩

/-- The token at the front. -/
def current (r : Reading) (tokens : List Token) : Token :=
  tokens.headD r.ending

/-- Reaches the tokens after the one that is taken, unless the text is
unreadable there. -/
def reach (r : Reading) (rest : List Token) : Except ParseError Unit :=
  match rest, r.fault with
  | [], some e => .error (.unreadable e)
  | _, _ => .ok ()

end Reading

/-- What a reader found, and the tokens that are left, fewer than `bound`. -/
structure Parsed (α : Type) (bound : Nat) where
  value : α
  rest : List Token
  rest_lt : rest.length < bound

namespace Parsed

theorem tail_lt (t : Token) (rest : List Token) : rest.length < (t :: rest).length :=
  Nat.lt_succ_self _

theorem self_lt (tokens : List Token) : tokens.length < tokens.length + 1 :=
  Nat.lt_succ_self _

theorem cons_lt (t : Token) (rest : List Token) :
    (t :: rest).length < (t :: rest).length + 1 :=
  Nat.lt_succ_self _

theorem nil_lt : ([] : List Token).length < ([] : List Token).length + 1 :=
  Nat.lt_succ_self _

theorem tail_lt_succ (t : Token) (rest : List Token) :
    rest.length < (t :: rest).length + 1 :=
  Nat.lt_succ_of_lt (tail_lt t rest)

end Parsed

/-- A reader that takes at least one token off the front. -/
abbrev Reader (α : Type) : Type :=
  (tokens : List Token) → Except ParseError (Parsed α tokens.length)

/-- A reader that may leave all tokens where they are. -/
abbrev LazyReader (α : Type) : Type :=
  (tokens : List Token) → Except ParseError (Parsed α (tokens.length + 1))

namespace Parser

variable (r : Reading)

/-- Takes a token of the given kind. -/
def expect (kind : Token.Kind) : Reader Token
  | [] => .error (.unexpected (.kind kind) r.ending)
  | t :: rest => do
    if t.kind = kind then
      r.reach rest
      return ⟨t, rest, Parsed.tail_lt t rest⟩
    else throw (.unexpected (.kind kind) t)

/-- Takes the name at the front. The token is taken before it is looked at. -/
def identifier : Reader (String × Span)
  | [] => .error (.unexpected .identifier r.ending)
  | t :: rest => do
    r.reach rest
    match t.kind with
    | .identifier name => return ⟨(name, t.span), rest, Parsed.tail_lt t rest⟩
    | _ => throw (.unexpected .identifier t)

/-- Takes the type at the front. -/
def type : Reader (Ty × Span)
  | [] => .error (.unexpected .type r.ending)
  | t :: rest => do
    match t.kind.type? with
    | some ty =>
      r.reach rest
      return ⟨(ty, t.span), rest, Parsed.tail_lt t rest⟩
    | none => throw (.unexpected .type t)

/-- Takes the array length at the front. The token is taken before it is looked
at. -/
def arrayLength : Reader Nat
  | [] => .error (.unexpected .arrayLength r.ending)
  | t :: rest => do
    r.reach rest
    match t.kind with
    | .decLiteral text =>
      match lengthOfDecimal? text with
      | some length => return ⟨length, rest, Parsed.tail_lt t rest⟩
      | none => throw (.lengthTooLarge text t.span)
    | _ => throw (.unexpected .arrayLength t)

/-- Takes a token of the given kind if there is one at the front, and tells
whether there was. -/
def optional (kind : Token.Kind) : LazyReader Bool
  | [] => .ok ⟨false, [], Parsed.nil_lt⟩
  | t :: rest => do
    if t.kind = kind then
      r.reach rest
      return ⟨true, rest, Parsed.tail_lt_succ t rest⟩
    else return ⟨false, t :: rest, Parsed.cons_lt t rest⟩

end Parser

end Decaf
