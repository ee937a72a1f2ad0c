import Decaf.Syntax.Chain
import Decaf.Syntax.Reader

/-!
# Reading programs

The grammar, as readers that call one another. An expression is a chain of
operands with operators between them. An operand is a primary expression behind
any number of unary operators; a primary expression is a literal, a call, a
location, or an expression in parentheses, which leave no trace in the tree. A
block holds declarations of variables and then statements; statements nest blocks.
A program is a sequence of global variables and functions, in any order, each
behind an optional `def`. `parse` reads a whole text.

Every reader either takes a token before it calls another on what is left, or
hands the same tokens on to a reader of lower rank. The measure of a recursion is
therefore a multiple of the number of tokens plus the rank of the reader.
-/

namespace Decaf

namespace Parser

variable (r : Reading)

/-! ## Expressions -/

/-- An operator between two expressions, which it spans. -/
def joined (op : BinaryOp) (left right : Expr) : Expr :=
  .binary (r.place (left.span.merge right.span)) none op left right

/-- The literal that a token denotes, if it is one. -/
def literal? (t : Token) : Option (Except ParseError Literal) :=
  match t.kind with
  | .decLiteral text =>
    match intOfDecimal? text with
    | some value => some (.ok (.int value))
    | none => some (.error (.integerTooLarge text t.span))
  | .hexLiteral text =>
    match intOfHex? text with
    | some value => some (.ok (.int value))
    | none => some (.error (.integerTooLarge text t.span))
  | .stringLiteral text =>
    match stringValue text with
    | .ok value => some (.ok (.str value))
    | .error e => some (.error (.badEscape e t.span))
  | .word .trueWord => some (.ok (.bool true))
  | .word .falseWord => some (.ok (.bool false))
  | _ => none

mutual

/-- Reads an expression. -/
def expr (tokens : List Token) : Except ParseError (Parsed Expr tokens.length) := do
  let ⟨first, rest₁, h₁⟩ ← operand tokens
  let ⟨chain, rest₂, h₂⟩ ← operators rest₁
  return ⟨Chain.assemble (joined r) first chain, rest₂, by omega⟩
termination_by 6 * tokens.length + 3

/-- Reads the operators of a chain, each with the operand on its right. -/
def operators (tokens : List Token) :
    Except ParseError (Parsed Chain.Tail (tokens.length + 1)) :=
  match tokens with
  | [] => .ok ⟨[], [], Parsed.nil_lt⟩
  | t :: rest =>
    match t.kind.binaryOp? with
    | none => .ok ⟨[], t :: rest, Parsed.cons_lt t rest⟩
    | some op => do
      r.reach rest
      let ⟨right, rest₁, h₁⟩ ← operand rest
      let ⟨chain, rest₂, h₂⟩ ← operators rest₁
      return ⟨(op, right) :: chain, rest₂, by simp only [List.length_cons]; omega⟩
termination_by 6 * tokens.length

/-- Reads an operand: a primary expression behind unary operators. -/
def operand (tokens : List Token) : Except ParseError (Parsed Expr tokens.length) :=
  match tokens with
  | [] => primary []
  | t :: rest =>
    match t.kind.unaryOp? with
    | none => primary (t :: rest)
    | some op => do
      r.reach rest
      let ⟨inner, rest₁, h₁⟩ ← operand rest
      let node := Expr.unary (r.place (t.span.merge inner.span)) none op inner
      return ⟨node, rest₁, by simp only [List.length_cons]; omega⟩
termination_by 6 * tokens.length + 2

/-- Reads a primary expression. -/
def primary (tokens : List Token) : Except ParseError (Parsed Expr tokens.length) :=
  match tokens with
  | [] => .error (.unexpected .expression r.ending)
  | t :: rest =>
    match t.kind with
    | .sign .openParen => do
      r.reach rest
      let ⟨inner, rest₁, h₁⟩ ← expr rest
      let ⟨_, rest₂, h₂⟩ ← expect r (.sign .closeParen) rest₁
      return ⟨inner, rest₂, by simp only [List.length_cons]; omega⟩
    | .identifier _ => callOrLocation (t :: rest)
    | _ => do
      match literal? t with
      | none => throw (.unexpected .expression t)
      | some value =>
        let value ← value
        r.reach rest
        return ⟨.literal (r.place t.span) none value, rest, Parsed.tail_lt t rest⟩
termination_by 6 * tokens.length + 1

/-- Reads a name and what it is applied to: arguments in parentheses, an index
in brackets, or nothing. -/
def callOrLocation (tokens : List Token) : Except ParseError (Parsed Expr tokens.length) := do
  let ⟨(name, span), rest₁, h₁⟩ ← identifier r tokens
  let ⟨called, rest₂, h₂⟩ ← optional r (.sign .openParen) rest₁
  if called then
    let ⟨args, rest₃, h₃⟩ ← arguments rest₂
    let ⟨close, rest₄, h₄⟩ ← expect r (.sign .closeParen) rest₃
    return ⟨.call (r.place (span.merge close.span)) none name args, rest₄, by omega⟩
  let ⟨indexed, rest₃, h₃⟩ ← optional r (.sign .openBracket) rest₂
  if indexed then
    let ⟨index, rest₄, h₄⟩ ← expr rest₃
    let ⟨close, rest₅, h₅⟩ ← expect r (.sign .closeBracket) rest₄
    return ⟨.location (r.place (span.merge close.span)) none name (some index), rest₅, by omega⟩
  return ⟨.location (r.place span) none name none, rest₃, by omega⟩
termination_by 6 * tokens.length

/-- Reads the arguments of a call, none if the parenthesis closes at once. -/
def arguments (tokens : List Token) :
    Except ParseError (Parsed (List Expr) (tokens.length + 1)) := do
  if (r.current tokens).kind = .sign .closeParen then
    return ⟨[], tokens, Parsed.self_lt tokens⟩
  let ⟨args, rest, h⟩ ← argumentList tokens
  return ⟨args, rest, by omega⟩
termination_by 6 * tokens.length + 5

/-- Reads one or more arguments with commas between them. -/
def argumentList (tokens : List Token) :
    Except ParseError (Parsed (List Expr) tokens.length) := do
  let ⟨first, rest₁, h₁⟩ ← expr tokens
  let ⟨more, rest₂, h₂⟩ ← optional r (.sign .comma) rest₁
  if more then
    let ⟨others, rest₃, h₃⟩ ← argumentList rest₂
    return ⟨first :: others, rest₃, by omega⟩
  return ⟨[first], rest₂, by omega⟩
termination_by 6 * tokens.length + 4

end

/-! ## Declarations and statements -/

/-- Reads what follows the name of a variable, an optional array length and the
semicolon. The declaration began at `start`. -/
def varRest (name : String) (ty : Ty) (start : Span) : Reader VarDecl := fun tokens => do
  let ⟨isArray, rest₁, h₁⟩ ← optional r (.sign .openBracket) tokens
  if isArray then
    let ⟨length, rest₂, h₂⟩ ← arrayLength r rest₁
    let ⟨_, rest₃, h₃⟩ ← expect r (.sign .closeBracket) rest₂
    let ⟨close, rest₄, h₄⟩ ← expect r (.sign .semicolon) rest₃
    return ⟨⟨name, ty, some length, r.place (start.merge close.span)⟩, rest₄, by omega⟩
  let ⟨close, rest₂, h₂⟩ ← expect r (.sign .semicolon) rest₁
  return ⟨⟨name, ty, none, r.place (start.merge close.span)⟩, rest₂, by omega⟩

/-- Reads the declaration of a variable. -/
def varDecl : Reader VarDecl := fun tokens => do
  let ⟨(ty, start), rest₁, h₁⟩ ← type r tokens
  let ⟨(name, _), rest₂, h₂⟩ ← identifier r rest₁
  let ⟨decl, rest₃, h₃⟩ ← varRest r name ty start rest₂
  return ⟨decl, rest₃, by omega⟩

/-- Reads declarations of variables for as long as a type comes first. -/
def varDecls (tokens : List Token) :
    Except ParseError (Parsed (List VarDecl) (tokens.length + 1)) := do
  if (r.current tokens).kind.type?.isSome then
    let ⟨first, rest₁, h₁⟩ ← varDecl r tokens
    let ⟨others, rest₂, h₂⟩ ← varDecls rest₁
    return ⟨first :: others, rest₂, by omega⟩
  return ⟨[], tokens, Parsed.self_lt tokens⟩
termination_by tokens.length

/-- Reads a condition in parentheses. -/
def condition : Reader Expr := fun tokens => do
  let ⟨_, rest₁, h₁⟩ ← expect r (.sign .openParen) tokens
  let ⟨value, rest₂, h₂⟩ ← expr r rest₁
  let ⟨_, rest₃, h₃⟩ ← expect r (.sign .closeParen) rest₂
  return ⟨value, rest₃, by omega⟩

/-- Reads the semicolon that ends a statement. The statement began at `start`;
`make` builds it once its place is known. -/
def finish (start : Span) (make : Place → Stmt) : Reader Stmt := fun tokens => do
  let ⟨close, rest, h⟩ ← expect r (.sign .semicolon) tokens
  return ⟨make (r.place (start.merge close.span)), rest, h⟩

/-- Reads what a `return` gives back, nothing if a semicolon comes first. -/
def returnValue : LazyReader (Option Expr) := fun tokens => do
  if (r.current tokens).kind = .sign .semicolon then
    return ⟨none, tokens, Parsed.self_lt tokens⟩
  let ⟨value, rest, h⟩ ← expr r tokens
  return ⟨some value, rest, by omega⟩

/-- Reads a statement that begins with a name: a call if a parenthesis follows
the name, else an assignment. -/
def simpleStmt (start : Span) (called : Bool) : Reader Stmt := fun tokens => do
  let ⟨target, rest₁, h₁⟩ ← callOrLocation r tokens
  if called then
    let ⟨stmt, rest₂, h₂⟩ ← finish r start (.call · target) rest₁
    return ⟨stmt, rest₂, by omega⟩
  let ⟨_, rest₂, h₂⟩ ← expect r (.sign .equal) rest₁
  let ⟨value, rest₃, h₃⟩ ← expr r rest₂
  let ⟨stmt, rest₄, h₄⟩ ← finish r start (.assign · target value) rest₃
  return ⟨stmt, rest₄, by omega⟩

mutual

/-- Reads a block. -/
def block (tokens : List Token) : Except ParseError (Parsed Block tokens.length) := do
  let ⟨first, rest₁, h₁⟩ ← expect r (.sign .openBrace) tokens
  let ⟨locals, rest₂, h₂⟩ ← varDecls r rest₁
  let ⟨statements, rest₃, h₃⟩ ← stmts rest₂
  let ⟨last, rest₄, h₄⟩ ← expect r (.sign .closeBrace) rest₃
  let place := r.place (first.span.merge last.span)
  return ⟨⟨locals, statements, place, none⟩, rest₄, by omega⟩
termination_by 3 * tokens.length

/-- Reads statements up to a closing brace or the end of the file. -/
def stmts (tokens : List Token) :
    Except ParseError (Parsed (List Stmt) (tokens.length + 1)) := do
  let kind := (r.current tokens).kind
  if kind = .sign .closeBrace ∨ kind = .endOfFile then
    return ⟨[], tokens, Parsed.self_lt tokens⟩
  let ⟨first, rest₁, h₁⟩ ← stmt tokens
  let ⟨others, rest₂, h₂⟩ ← stmts rest₁
  return ⟨first :: others, rest₂, by omega⟩
termination_by 3 * tokens.length + 2

/-- Reads a statement. -/
def stmt (tokens : List Token) : Except ParseError (Parsed Stmt tokens.length) :=
  match tokens with
  | [] => .error (.unexpected .statement r.ending)
  | t :: rest =>
    match t.kind with
    | .word .ifWord => do
      r.reach rest
      let ⟨test, rest₁, h₁⟩ ← condition r rest
      let ⟨thenBlock, rest₂, h₂⟩ ← block rest₁
      let ⟨hasElse, rest₃, h₃⟩ ← optional r (.word .elseWord) rest₂
      if hasElse then
        let ⟨elseBlock, rest₄, h₄⟩ ← block rest₃
        let place := r.place (t.span.merge elseBlock.place.span)
        return ⟨.conditional place test thenBlock (some elseBlock), rest₄,
          by simp only [List.length_cons]; omega⟩
      let place := r.place (t.span.merge thenBlock.place.span)
      return ⟨.conditional place test thenBlock none, rest₃,
        by simp only [List.length_cons]; omega⟩
    | .word .whileWord => do
      r.reach rest
      let ⟨test, rest₁, h₁⟩ ← condition r rest
      let ⟨body, rest₂, h₂⟩ ← block rest₁
      let place := r.place (t.span.merge body.place.span)
      return ⟨.loop place test body, rest₂, by simp only [List.length_cons]; omega⟩
    | .sign .openBrace => do
      let ⟨inner, rest₁, h₁⟩ ← block (t :: rest)
      return ⟨.block (r.place inner.place.span) inner, rest₁, h₁⟩
    | .word .returnWord => do
      r.reach rest
      let ⟨value, rest₁, h₁⟩ ← returnValue r rest
      let ⟨node, rest₂, h₂⟩ ← finish r t.span (.ret · value) rest₁
      return ⟨node, rest₂, by simp only [List.length_cons]; omega⟩
    | .word .breakWord => do
      r.reach rest
      let ⟨node, rest₁, h₁⟩ ← finish r t.span .break rest
      return ⟨node, rest₁, by simp only [List.length_cons]; omega⟩
    | .word .continueWord => do
      r.reach rest
      let ⟨node, rest₁, h₁⟩ ← finish r t.span .continue rest
      return ⟨node, rest₁, by simp only [List.length_cons]; omega⟩
    | .identifier _ => do
      r.reach rest
      simpleStmt r t.span ((r.current rest).kind = .sign .openParen) (t :: rest)
    | _ => throw (.unexpected .statement t)
termination_by 3 * tokens.length + 1

end

/-! ## Programs -/

/-- What stands at the top level of a program. -/
inductive TopLevel where
  | global (decl : VarDecl)
  | function (decl : Function)

/-- Reads one or more parameters with commas between them. -/
def paramList (tokens : List Token) :
    Except ParseError (Parsed (List Param) tokens.length) := do
  let ⟨(ty, start), rest₁, h₁⟩ ← type r tokens
  let ⟨(name, stop), rest₂, h₂⟩ ← identifier r rest₁
  let first : Param := ⟨name, ty, r.place (start.merge stop)⟩
  let ⟨more, rest₃, h₃⟩ ← optional r (.sign .comma) rest₂
  if more then
    let ⟨others, rest₄, h₄⟩ ← paramList rest₃
    return ⟨first :: others, rest₄, by omega⟩
  return ⟨[first], rest₃, by omega⟩
termination_by tokens.length

/-- Reads the parameters of a function, none if the parenthesis closes at once. -/
def params : LazyReader (List Param) := fun tokens => do
  if (r.current tokens).kind = .sign .closeParen then
    return ⟨[], tokens, Parsed.self_lt tokens⟩
  let ⟨params, rest, h⟩ ← paramList r tokens
  return ⟨params, rest, by omega⟩

/-- Reads what follows the name of a function, its parameters and its body. The
declaration began at `start`. -/
def functionRest (name : String) (returnType : Ty) (start : Span) : Reader Function :=
  fun tokens => do
    let ⟨_, rest₁, h₁⟩ ← expect r (.sign .openParen) tokens
    let ⟨params, rest₂, h₂⟩ ← params r rest₁
    let ⟨_, rest₃, h₃⟩ ← expect r (.sign .closeParen) rest₂
    let ⟨body, rest₄, h₄⟩ ← block r rest₃
    let place : Place := ⟨start.merge body.place.span, r.lines.lineOf start.start⟩
    return ⟨⟨name, returnType, params, body, place, none⟩, rest₄, by omega⟩

/-- Reads a global variable or a function. -/
def topLevel : Reader TopLevel := fun tokens => do
  let start := (r.current tokens).span
  let ⟨_, rest₁, h₁⟩ ← optional r (.word .defWord) tokens
  let ⟨(ty, _), rest₂, h₂⟩ ← type r rest₁
  let ⟨(name, _), rest₃, h₃⟩ ← identifier r rest₂
  if (r.current rest₃).kind = .sign .openParen then
    let ⟨f, rest₄, h₄⟩ ← functionRest r name ty start rest₃
    return ⟨.function f, rest₄, by omega⟩
  let ⟨v, rest₄, h₄⟩ ← varRest r name ty start rest₃
  return ⟨.global v, rest₄, by omega⟩

/-- Reads global variables and functions up to the end of the file. -/
def topLevels (tokens : List Token) : Except ParseError (List TopLevel) := do
  if (r.current tokens).kind = .endOfFile then
    return []
  let ⟨first, rest, _h⟩ ← topLevel r tokens
  let others ← topLevels rest
  return first :: others
termination_by tokens.length

/-- The variable that stands at the top level, if it is one. -/
def TopLevel.global? : TopLevel → Option VarDecl
  | .global decl => some decl
  | .function _ => none

/-- The function that stands at the top level, if it is one. -/
def TopLevel.function? : TopLevel → Option Function
  | .global _ => none
  | .function decl => some decl

/-- Reads a program of `size` bytes. -/
def program (size : Nat) (tokens : List Token) : Except ParseError Program := do
  r.reach tokens
  let items ← topLevels r tokens
  return {
    globals := items.filterMap TopLevel.global?
    functions := items.filterMap TopLevel.function?
    place := ⟨⟨0, size⟩, 1⟩
    scope := none }

end Parser

/-- What stays fixed while the tokens of a text are read. -/
def Reading.ofSource (source : String) : Reading :=
  let stream := Stream.ofSource source
  ⟨.ofChars source.toList, stream.ending, stream.fault⟩

/-- Reads the program that a text holds. -/
def parse (source : String) : Except ParseError Program :=
  Parser.program (.ofSource source) source.utf8ByteSize (Stream.ofSource source).tokens

end Decaf
