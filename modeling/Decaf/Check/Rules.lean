import Decaf.Scope.Basic
import Decaf.Check.Diagnostic

/-!
# The static rules

One function for each construct says what is wrong with it, given the symbols
that its names stand for and the types of the expressions in it; `exprType` says
which type an expression has. The rules look at one node only: how the
nodes of a program are gone through is the business of the analysis.

Nothing is ever said about a type that is not known, so that a single mistake is
reported once.
-/

namespace Decaf

namespace Rules

/-- Whether a type is known and is not the expected one. -/
def differs (expected found : Ty) : Bool :=
  found.isKnown && found != expected

/-- The complaint about a type that is known and is not the expected one. -/
def expectType (expected found : Ty) (line : Nat) (span : Span) : List Diagnostic :=
  if differs expected found then [(Mistake.operand expected found).onLine line span] else []

/-! ## Declarations -/

/-- A duplicate is complained about where its scope is entered. -/
def duplicates (scope : Scope) : List Diagnostic :=
  scope.duplicates.toList.map fun d =>
    (Mistake.duplicate d.name scope.line).onLine d.line d.span

/-- A parameter must not be void. -/
def param (p : Param) : List Diagnostic :=
  if p.type.isVoid then [(Mistake.voidParameter p.name).atNode p.place] else []

/-- A variable must not be void, and an array must have room. -/
def varDecl (d : VarDecl) : List Diagnostic :=
  (if d.type.isVoid then [(Mistake.voidVariable d.name).atNode d.place] else []) ++
  (if d.length = some 0 then [(Mistake.emptyArray d.name).atNode d.place] else [])

/-- A program must have a function `main` that takes nothing and gives an
integer. The complaint is about the very beginning of the program. -/
def entryPoint (symbol : Option Symbol) (place : Place) : List Diagnostic :=
  let start := Span.point place.span.start
  match symbol with
  | none => [Mistake.noMain.onLine place.line start]
  | some s =>
    if s.type = .int ∧ s.kind.params? = some [] then []
    else [Mistake.badMain.onLine place.line start]

/-! ## Statements -/

/-- Both sides of an assignment must have one type. -/
def assignment (place : Place) (target value : Expr) : List Diagnostic :=
  if target.type.isKnown && value.type.isKnown && target.type != value.type then
    [(Mistake.assignment (target.locationName?.getD "")).atNode place]
  else []

/-- A condition must be a truth value. -/
def condition (place : Place) (test : Expr) : List Diagnostic :=
  if differs .bool test.type then [Mistake.condition.onLine place.line test.span] else []

/-- What a `return` gives back must have the function's type, and a bare one
gives back nothing. Outside of functions nothing is asked. -/
def returned (expected : Option Ty) (place : Place) (value : Option Expr) : List Diagnostic :=
  match expected with
  | none => []
  | some expected =>
    let found := match value with
      | some e => e.type
      | none => .void
    if differs expected found then [Mistake.returnType.atNode place] else []

/-- A loop is left or continued only from inside it. -/
def insideLoop (inLoop : Bool) (place : Place) : List Diagnostic :=
  if inLoop then [] else [Mistake.outsideLoop.atNode place]

/-! ## Expressions -/

/-- A location refers to a scalar without an index or to an array with an
integer index. -/
def location (symbol : Option Symbol) (place : Place) (name : String) (index : Option Expr) :
    List Diagnostic :=
  match symbol with
  | none => [(Mistake.undefined name).atNode place]
  | some s =>
    match s.kind, index with
    | .scalar, none => []
    | .scalar, some _ => [(Mistake.indexedScalar name).atNode place]
    | .array _, none => [(Mistake.bareArray name).atNode place]
    | .array _, some index =>
      if differs .int index.type then [Mistake.indexType.onLine place.line index.span] else []
    | .function _, _ => [(Mistake.functionAsVariable name).atNode place]

/-- The type of a location is that of its variable. -/
def locationType (symbol : Option Symbol) : Ty :=
  match symbol with
  | none => .unknown
  | some s =>
    match s.kind with
    | .function _ => .unknown
    | _ => s.type

/-- The operands of an operator must have the type it asks for. Those of an
equality must agree and must not be void. -/
def binary (place : Place) (op : BinaryOp) (left right : Expr) : List Diagnostic :=
  match op.operandType? with
  | some expected =>
    expectType expected left.type place.line left.span ++
    expectType expected right.type place.line right.span
  | none =>
    let void (e : Expr) : List Diagnostic :=
      if e.type.isVoid then [Mistake.voidOperand.onLine place.line e.span] else []
    if left.type.isVoid || right.type.isVoid then void left ++ void right
    else if left.type.isKnown then expectType left.type right.type place.line right.span
    else []

/-- The operand of an operator must have the type it asks for. -/
def unary (place : Place) (op : UnaryOp) (operand : Expr) : List Diagnostic :=
  expectType op.type operand.type place.line operand.span

/-- Complaints about arguments whose types differ from those of the parameters.
The first argument has the number `index`. -/
def arguments (place : Place) (name : String) : Nat → List Ty → List Expr → List Diagnostic
  | index, param :: params, arg :: args =>
    (if differs param arg.type then
      [(Mistake.argument index name param arg.type).onLine place.line arg.span]
    else []) ++ arguments place name (index + 1) params args
  | _, _, _ => []

/-- A call must name a function and give it as many arguments as it has
parameters, of their types. -/
def call (symbol : Option Symbol) (place : Place) (name : String) (args : List Expr) :
    List Diagnostic :=
  match symbol with
  | none => [(Mistake.undefined name).atNode place]
  | some s =>
    match s.kind.params? with
    | none => [(Mistake.notAFunction name).atNode place]
    | some params =>
      if params.length ≠ args.length then [Mistake.argumentCount.atNode place]
      else arguments place name 0 params args

/-- The type of a call is what the function gives back. -/
def callType (symbol : Option Symbol) : Ty :=
  match symbol with
  | none => .unknown
  | some s =>
    match s.kind with
    | .function _ => s.type
    | _ => .unknown

/-- What is wrong with an expression, apart from what is wrong inside it. -/
def expr (lookup : String → Option Symbol) : Expr → List Diagnostic
  | .literal .. => []
  | .location place _ name index => location (lookup name) place name index
  | .binary place _ op left right => binary place op left right
  | .unary place _ op operand => unary place op operand
  | .call place _ name args => call (lookup name) place name args

/-- The type of an expression. -/
def exprType (lookup : String → Option Symbol) : Expr → Ty
  | .literal _ _ value => value.type
  | .location _ _ name _ => locationType (lookup name)
  | .binary _ _ op _ _ => op.resultType
  | .unary _ _ op _ => op.type
  | .call _ _ name _ => callType (lookup name)

/-- What is wrong with a statement, apart from what is wrong inside it. -/
def stmt (expected : Option Ty) (inLoop : Bool) : Stmt → List Diagnostic
  | .assign place target value => assignment place target value
  | .conditional place test _ _ => condition place test
  | .loop place test _ => condition place test
  | .ret place value => returned expected place value
  | .break place => insideLoop inLoop place
  | .continue place => insideLoop inLoop place
  | .call _ _ => []
  | .block _ _ => []

end Rules

end Decaf
