import Decaf.Proofs.Syntax.Climbing
import Decaf.Proofs.Token.Peeking

/-!
# Recursive descent, a token at a time

The readers of the grammar have all tokens of a text before them. Here the same grammar is read
without that: a cursor holds the current token and a reader that gives the next one when asked
for it, and the end of the file again and again. Procedures move the cursor, and call one
another for the parts of a construct (`Proc`).

Nothing in these definitions says that they come to an end. A procedure makes its calls through
`call`, whatever that does, and a loop is cut off after `limit` rounds. `run` ties the knot with
fuel: one unit for a call inside a call. Where the fuel or the rounds run out, and where an
operation is not defined for what it is given, the reading is stuck (`none`).
-/

namespace Decaf

/-! ## Cursors -/

/-- Where a parser stands: the reader of the tokens to come, the current token, and the tokens
that were taken before it. -/
structure Cursor where
  lexer : Lexer
  current : Token
  taken : List Token

/-- A reading that moves a cursor. -/
abbrev Stepping (α : Type) : Type := StateT Cursor Attempt α

/-- The tokens but for the end of the file. -/
def withoutEnd (tokens : List Token) : List Token :=
  tokens.filter (·.kind ≠ .endOfFile)

/-- The tokens that a reader has not yet given, up to the end of the text or to the first
unreadable spot: one that it looked at, and those it has still to read. -/
def Lexer.unread (lexer : Lexer) : List Token :=
  withoutEnd lexer.peeked.toList ++ (Stream.scan lexer.offset lexer.rest).tokens

/-- The tokens that are not yet taken, the current one first. -/
def Cursor.unread (c : Cursor) : List Token :=
  withoutEnd [c.current] ++ c.lexer.unread

namespace Descent

/-- A cursor at the first token of a text. -/
def start (source : String) : Attempt Cursor :=
  match (Lexer.ofSource source).next with
  | (.error e, _) => throw (.unreadable e)
  | (.ok t, lexer) => return ⟨lexer, t, []⟩

/-- The current token. -/
def current : Stepping Token :=
  Cursor.current <$> get

/-- Takes the current token, whatever it is, and asks for the next one. -/
def advance : Stepping Token := fun c =>
  match c.lexer.next with
  | (.error e, _) => throw (.unreadable e)
  | (.ok t, lexer) => return (c.current, ⟨lexer, t, c.taken ++ [c.current]⟩)

/-- Looks at the token behind the current one. -/
def look : Stepping Token := fun c =>
  match c.lexer.peek with
  | (.error e, _) => throw (.unreadable e)
  | (.ok t, lexer) => return (t, { c with lexer := lexer })

/-- Nothing more comes of this reading. -/
def stuck {α : Type} : Stepping α := fun _ => none

/-- Takes a token of the given kind. -/
def expect (kind : Token.Kind) : Stepping Token := do
  let t ← current
  if t.kind = kind then advance else throw (.unexpected (.kind kind) t)

/-- Takes a token of the given kind if it is the current one, and tells whether it was. -/
def optional (kind : Token.Kind) : Stepping Bool := do
  let t ← current
  if t.kind = kind then
    let _ ← advance
    return true
  else return false

/-- Takes a name. -/
def identifier : Stepping (String × Span) := do
  let t ← advance
  match t.kind with
  | .identifier name => return (name, t.span)
  | _ => throw (.unexpected .identifier t)

/-- Takes a type. -/
def type : Stepping (Ty × Span) := do
  let t ← current
  match t.kind.type? with
  | some ty =>
    let _ ← advance
    return (ty, t.span)
  | none => throw (.unexpected .type t)

/-- Takes the length of an array. -/
def arrayLength : Stepping Nat := do
  let t ← advance
  match t.kind with
  | .decLiteral text =>
    match lengthOfDecimal? text with
    | some length => return length
    | none => throw (.lengthTooLarge text t.span)
  | _ => throw (.unexpected .arrayLength t)

/-! ## Loops -/

/-- Repeats a step while the current token passes a test, for fewer rounds than a limit. -/
def repeatWhile {α : Type} (test : Token.Kind → Bool) (step : Stepping α) :
    Nat → Stepping (List α)
  | 0 => stuck
  | limit + 1 => do
    let t ← current
    if test t.kind then
      let first ← step
      let others ← repeatWhile test step limit
      return first :: others
    else return []

/-- Repeats a step for as long as a comma follows, for fewer rounds than a limit. -/
def separated {α : Type} (step : Stepping α) : Nat → Stepping (List α)
  | 0 => stuck
  | limit + 1 => do
    let first ← step
    let more ← optional (.sign .comma)
    if more then
      let others ← separated step limit
      return first :: others
    else return [first]

/-! ## Procedures -/

/-- The procedures that call one another, with what they are given and what they give. -/
inductive Proc : Type → Type 1
  | topLevel : Proc Parser.TopLevel
  | functionRest (name : String) (returnType : Ty) (start : Span) : Proc Function
  | varDecl : Proc VarDecl
  | varRest (name : String) (ty : Ty) (start : Span) : Proc VarDecl
  | block : Proc Block
  | stmt : Proc Stmt
  | expr : Proc Expr
  | binary (least : Nat) : Proc Expr
  | unary : Proc Expr
  | primary : Proc Expr
  | callOrLocation : Proc Expr

section Procedures

variable (lines : Lines) (limit : Nat) (call : {α : Type} → Proc α → Stepping α)

/-- The place of a node with a given span. -/
def place (span : Span) : Place :=
  ⟨span, lines.lineOf span.start⟩

/-- Reads a global variable or a function. -/
def topLevel : Stepping Parser.TopLevel := do
  let first ← current
  let _ ← optional (.word .defWord)
  let (ty, _) ← type
  let (name, _) ← identifier
  let t ← current
  if t.kind = .sign .openParen then
    let f ← call (.functionRest name ty first.span)
    return .function f
  else
    let d ← call (.varRest name ty first.span)
    return .global d

/-- Reads a parameter. -/
def param : Stepping Param := do
  let (ty, start) ← type
  let (name, stop) ← identifier
  return ⟨name, ty, place lines (start.merge stop)⟩

/-- Reads parameters, none if the parenthesis closes at once. -/
def params : Stepping (List Param) := do
  let t ← current
  if t.kind = .sign .closeParen then return []
  else separated (param lines) limit

/-- Reads the parameters and the body of a function. -/
def functionRest (name : String) (returnType : Ty) (start : Span) : Stepping Function := do
  let _ ← expect (.sign .openParen)
  let params ← params lines limit
  let _ ← expect (.sign .closeParen)
  let body ← call .block
  return ⟨name, returnType, params, body,
    ⟨start.merge body.place.span, lines.lineOf start.start⟩, none⟩

/-- Reads the declaration of a variable. -/
def varDecl : Stepping VarDecl := do
  let (ty, start) ← type
  let (name, _) ← identifier
  call (.varRest name ty start)

/-- Reads the length of a variable, if it has one, and the semicolon. -/
def varRest (name : String) (ty : Ty) (start : Span) : Stepping VarDecl := do
  let isArray ← optional (.sign .openBracket)
  if isArray then
    let length ← arrayLength
    let _ ← expect (.sign .closeBracket)
    let close ← expect (.sign .semicolon)
    return ⟨name, ty, some length, place lines (start.merge close.span)⟩
  else
    let close ← expect (.sign .semicolon)
    return ⟨name, ty, none, place lines (start.merge close.span)⟩

/-- Reads a block. -/
def block : Stepping Block := do
  let first ← expect (.sign .openBrace)
  let locals ← repeatWhile (·.type?.isSome) (call .varDecl) limit
  let statements ←
    repeatWhile (fun k => k ≠ .sign .closeBrace ∧ k ≠ .endOfFile) (call .stmt) limit
  let last ← expect (.sign .closeBrace)
  return ⟨locals, statements, place lines (first.span.merge last.span), none⟩

/-- Reads a condition in parentheses. -/
def condition : Stepping Expr := do
  let _ ← expect (.sign .openParen)
  let value ← call .expr
  let _ ← expect (.sign .closeParen)
  return value

/-- Reads what a statement gives back, nothing if a semicolon comes first. -/
def returnValue : Stepping (Option Expr) := do
  let t ← current
  if t.kind = .sign .semicolon then return none
  else
    let value ← call .expr
    return some value

/-- Reads the semicolon that ends a statement. -/
def finish (start : Span) (make : Place → Stmt) : Stepping Stmt := do
  let close ← expect (.sign .semicolon)
  return make (place lines (start.merge close.span))

/-- Reads a statement. -/
def stmt : Stepping Stmt := do
  let t ← current
  match t.kind with
  | .word .ifWord =>
    let _ ← advance
    let test ← condition call
    let thenBlock ← call .block
    let hasElse ← optional (.word .elseWord)
    if hasElse then
      let elseBlock ← call .block
      return .conditional (place lines (t.span.merge elseBlock.place.span)) test thenBlock
        (some elseBlock)
    else
      return .conditional (place lines (t.span.merge thenBlock.place.span)) test thenBlock none
  | .word .whileWord =>
    let _ ← advance
    let test ← condition call
    let body ← call .block
    return .loop (place lines (t.span.merge body.place.span)) test body
  | .sign .openBrace =>
    let inner ← call .block
    return .block (place lines inner.place.span) inner
  | .word .returnWord =>
    let _ ← advance
    let value ← returnValue call
    finish lines t.span (.ret · value)
  | .word .breakWord =>
    let _ ← advance
    finish lines t.span .break
  | .word .continueWord =>
    let _ ← advance
    finish lines t.span .continue
  | .identifier _ =>
    let next ← look
    if next.kind = .sign .openParen then
      let target ← call .callOrLocation
      finish lines t.span (.call · target)
    else
      let target ← call .callOrLocation
      let _ ← expect (.sign .equal)
      let value ← call .expr
      finish lines t.span (.assign · target value)
  | _ => throw (.unexpected .statement t)

/-- Takes operators that bind at least as tightly as `least`, each with its right operand, for
fewer rounds than a limit. -/
def operators (least : Nat) : Nat → Expr → Stepping Expr
  | 0, _ => stuck
  | limit + 1, left => do
    let t ← current
    match t.kind.precedence? with
    | none => return left
    | some n =>
      if n < least then return left
      else
        let t ← advance
        let op ← Attempt.need t.kind.binaryOp?
        let next ← Attempt.need (nextByte? n)
        let right ← call (.binary next)
        operators least limit
          (.binary (place lines (left.span.merge right.span)) none op left right)

/-- Reads an expression whose operators bind at least as tightly as `least`. -/
def binary (least : Nat) : Stepping Expr := do
  let left ← call .unary
  operators lines call least limit left

/-- Reads an operand. -/
def unary : Stepping Expr := do
  let t ← current
  match t.kind.unaryOp? with
  | none => call .primary
  | some op =>
    let _ ← advance
    let inner ← call .unary
    return .unary (place lines (t.span.merge inner.span)) none op inner

/-- Takes the current token `t` if it is a literal. -/
def literal (t : Token) : Stepping Expr :=
  match Parser.literal? t with
  | none => throw (.unexpected .expression t)
  | some value => do
    let value ← Attempt.outcome value
    let _ ← advance
    return .literal (place lines t.span) none value

/-- Reads a primary expression. -/
def primary : Stepping Expr := do
  let t ← current
  match t.kind with
  | .sign .openParen =>
    let _ ← advance
    let inner ← call .expr
    let _ ← expect (.sign .closeParen)
    return inner
  | .identifier _ => call .callOrLocation
  | _ => literal lines t

/-- Reads arguments, none if the parenthesis closes at once. -/
def arguments : Stepping (List Expr) := do
  let t ← current
  if t.kind = .sign .closeParen then return []
  else separated (call .expr) limit

/-- Reads a name and what it is applied to. -/
def callOrLocation : Stepping Expr := do
  let (name, span) ← identifier
  let called ← optional (.sign .openParen)
  if called then
    let args ← arguments limit call
    let close ← expect (.sign .closeParen)
    return .call (place lines (span.merge close.span)) none name args
  else
    let indexed ← optional (.sign .openBracket)
    if indexed then
      let index ← call .expr
      let close ← expect (.sign .closeBracket)
      return .location (place lines (span.merge close.span)) none name (some index)
    else return .location (place lines span) none name none

/-- What a procedure does. -/
def body : {α : Type} → Proc α → Stepping α
  | _, .topLevel => topLevel call
  | _, .functionRest name returnType start => functionRest lines limit call name returnType start
  | _, .varDecl => varDecl call
  | _, .varRest name ty start => varRest lines name ty start
  | _, .block => block lines limit call
  | _, .stmt => stmt lines call
  | _, .expr => call (.binary 1)
  | _, .binary least => binary lines limit call least
  | _, .unary => unary lines call
  | _, .primary => primary lines call
  | _, .callOrLocation => callOrLocation lines limit call

end Procedures

/-- Runs a procedure with fuel for its calls and for the rounds of its loops. -/
def run (lines : Lines) : Nat → {α : Type} → Proc α → Stepping α
  | 0, _, _ => stuck
  | fuel + 1, _, p => body lines fuel (run lines fuel) p

/-- Reads the program that a text holds. -/
def parse (fuel : Nat) (source : String) : Attempt Program := do
  let lines := Lines.ofChars source.toList
  let c ← start source
  let (items, _) ← repeatWhile (· ≠ .endOfFile) (run lines fuel .topLevel) fuel c
  return {
    globals := items.filterMap Parser.TopLevel.global?
    functions := items.filterMap Parser.TopLevel.function?
    place := ⟨⟨0, source.utf8ByteSize⟩, 1⟩
    scope := none }

end Descent

end Decaf
