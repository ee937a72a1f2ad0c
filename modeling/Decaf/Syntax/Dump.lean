import Decaf.Text.Outline
import Decaf.Text.Characters
import Decaf.Syntax.Basic

/-!
# Dumps of tokens and programs

Tokens are dumped one on a line, programs with a line for each part. The names
of records and fields are those of the dump format.
-/

namespace Decaf

open Text (Outline)
open Text.Outline

/-- A record with the given fields. -/
def dumpRecord (name : String) (fields : List (String × Outline)) : Outline :=
  record name (fields.map fun (label, value) => .mk label value)

/-- A text in quotes. -/
def dumpText (text : String) : Outline :=
  word (Text.quoted text)

/-- The outline of a span. -/
def Span.outline (s : Span) : Outline :=
  dumpRecord "Span" [("start", number s.start), ("end", number s.stop)]

/-- The outline of a kind of token, with the text it carries. -/
def Token.Kind.outline (k : Token.Kind) : Outline :=
  match k.payload? with
  | some text => .tuple k.label [dumpText text]
  | none => .word k.label

/-- The outline of a token. -/
def Token.outline (t : Token) : Outline :=
  dumpRecord "Token" [("kind", t.kind.outline), ("span", t.span.outline)]

/-- The tokens, one on a line. -/
def dumpTokens (tokens : List Token) : String :=
  String.join (tokens.map fun t => t.outline.compact ++ "\n")

/-- The outline of a type. -/
def Ty.outline (t : Ty) : Outline :=
  word t.label

/-- The scope that a node opens. -/
def dumpScope (scope : Option ScopeId) : Outline :=
  option (scope.map fun id => tuple "ScopeId" [number id.index])

/-- The type of an expression, which is written once. -/
def dumpType (type? : Option Ty) : Outline :=
  tuple "OnceCell" [match type? with
    | some t => t.outline
    | none => word "<uninit>"]

/-- The outline of a literal. -/
def Literal.outline : Literal → Outline
  | int value => tuple "Int" [word (toString value)]
  | bool value => tuple "Bool" [word (if value then "true" else "false")]
  | str value => tuple "Str" [dumpText value]

/-- An expression of a given kind. -/
def dumpExpr (kind : Outline) (place : Place) (type? : Option Ty) : Outline :=
  dumpRecord "Expr" [("kind", kind), ("span", place.span.outline), ("line", number place.line),
    ("ty", dumpType type?)]

mutual

/-- The outline of an expression. -/
def Expr.outline : Expr → Outline
  | .literal place type? value => dumpExpr (tuple "Literal" [value.outline]) place type?
  | .location place type? name none =>
    dumpExpr (dumpRecord "Location" [("name", dumpText name), ("index", option none)]) place type?
  | .location place type? name (some index) =>
    dumpExpr (dumpRecord "Location"
      [("name", dumpText name), ("index", option (some index.outline))]) place type?
  | .binary place type? op left right =>
    dumpExpr (dumpRecord "Binary"
      [("op", word op.label), ("left", left.outline), ("right", right.outline)]) place type?
  | .unary place type? op operand =>
    dumpExpr (dumpRecord "Unary" [("op", word op.label), ("operand", operand.outline)]) place type?
  | .call place type? name args =>
    dumpExpr (dumpRecord "Call" [("name", dumpText name), ("args", list (exprOutlines args))])
      place type?

/-- The outlines of expressions. -/
def exprOutlines : List Expr → List Outline
  | [] => []
  | e :: rest => e.outline :: exprOutlines rest

end

/-- The outline of a variable. -/
def VarDecl.outline (d : VarDecl) : Outline :=
  dumpRecord "VarDecl" [("name", dumpText d.name), ("ty", d.type.outline),
    ("array_length", option (d.length.map number)), ("span", d.place.span.outline),
    ("line", number d.place.line)]

/-- The outline of a parameter. -/
def Param.outline (p : Param) : Outline :=
  dumpRecord "Param" [("name", dumpText p.name), ("ty", p.type.outline),
    ("span", p.place.span.outline), ("line", number p.place.line)]

/-- A statement of a given kind. -/
def dumpStmt (kind : Outline) (place : Place) : Outline :=
  dumpRecord "Stmt" [("kind", kind), ("span", place.span.outline), ("line", number place.line)]

mutual

/-- The outline of a statement. -/
def Stmt.outline : Stmt → Outline
  | .assign place target value =>
    dumpStmt (dumpRecord "Assign" [("target", target.outline), ("value", value.outline)]) place
  | .call place call => dumpStmt (tuple "Call" [call.outline]) place
  | .conditional place test thenBlock none =>
    dumpStmt (dumpRecord "Conditional" [("condition", test.outline),
      ("then_block", thenBlock.outline), ("else_block", option none)]) place
  | .conditional place test thenBlock (some elseBlock) =>
    dumpStmt (dumpRecord "Conditional" [("condition", test.outline),
      ("then_block", thenBlock.outline), ("else_block", option (some elseBlock.outline))]) place
  | .loop place test body =>
    dumpStmt (dumpRecord "While" [("condition", test.outline), ("body", body.outline)]) place
  | .ret place value =>
    dumpStmt (tuple "Return" [option (value.map Expr.outline)]) place
  | .break place => dumpStmt (word "Break") place
  | .continue place => dumpStmt (word "Continue") place
  | .block place block => dumpStmt (tuple "Block" [block.outline]) place

/-- The outline of a block. -/
def Block.outline : Block → Outline
  | ⟨locals, statements, place, scope⟩ =>
    dumpRecord "Block" [("variables", list (locals.map VarDecl.outline)),
      ("statements", list (stmtOutlines statements)), ("span", place.span.outline),
      ("line", number place.line), ("scope", dumpScope scope)]

/-- The outlines of statements. -/
def stmtOutlines : List Stmt → List Outline
  | [] => []
  | s :: rest => s.outline :: stmtOutlines rest

end

/-- The outline of a function. -/
def Function.outline (f : Function) : Outline :=
  dumpRecord "FuncDecl" [("name", dumpText f.name), ("return_type", f.returnType.outline),
    ("params", list (f.params.map Param.outline)), ("body", f.body.outline),
    ("span", f.place.span.outline), ("line", number f.place.line), ("scope", dumpScope f.scope)]

/-- The outline of a program. -/
def Program.outline (p : Program) : Outline :=
  dumpRecord "Program" [("variables", list (p.globals.map VarDecl.outline)),
    ("functions", list (p.functions.map Function.outline)), ("span", p.place.span.outline),
    ("line", number p.place.line), ("scope", dumpScope p.scope)]

/-- The program, a line for each part. -/
def dumpProgram (p : Program) : String :=
  p.outline.pretty 0

end Decaf
