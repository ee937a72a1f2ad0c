import Decaf.Scope.Basic

/-!
# The scopes of a program

`Program.withScopes` builds the tables of a program. Three kinds of construct open a
scope: the program declares the built-in functions, its variables and its
functions; a function declares its parameters; a block declares its variables.
Each is told which scope it opened. All functions are declared before any body
is entered, so that calls may refer to functions further down.
-/

namespace Decaf

/-! ## Declarations -/

/-- What a variable declares. -/
def VarDecl.declaration (v : VarDecl) : Declaration :=
  let kind := match v.length with
    | some length => Symbol.Kind.array length
    | none => .scalar
  ⟨⟨v.name, kind, v.type, 0, v.place.line⟩, v.place.span⟩

/-- What a parameter declares. -/
def Param.declaration (p : Param) : Declaration :=
  ⟨⟨p.name, .scalar, p.type, 0, p.place.line⟩, p.place.span⟩

/-- What a function declares. -/
def Function.declaration (f : Function) : Declaration :=
  ⟨⟨f.name, .function f.paramTypes, f.returnType, 0, f.place.line⟩, f.place.span⟩

/-- The functions that every program can call without declaring them. -/
def builtins : List Declaration :=
  [("print_int", Ty.int), ("print_bool", Ty.bool), ("print_str", Ty.str)].map fun (name, param) =>
    ⟨⟨name, .function [param], .void, 0, 0⟩, .point 0⟩

/-- What a program declares in its outermost scope. -/
def Program.declarations (p : Program) : List Declaration :=
  builtins ++ p.globals.map (·.declaration) ++ p.functions.map (·.declaration)

/-- What a function declares in its own scope. -/
def Function.declarations (f : Function) : List Declaration :=
  f.params.map (·.declaration)

/-! ## Building -/

namespace Tables

/-- Adds declarations to a scope, one after the other. -/
def defineAll (tables : Tables) (id : ScopeId) (ds : List Declaration) : Tables :=
  ds.foldl (fun tables d => (tables.define id d).2) tables

/-- Opens a scope and fills it. -/
def openScope (tables : Tables) (parent : Option ScopeId) (line : Nat) (ds : List Declaration) :
    ScopeId × Tables :=
  let opened := tables.push parent line
  (opened.1, opened.2.defineAll opened.1 ds)

end Tables

mutual

/-- Opens the scope of a block inside `parent`, and those of the blocks in it. -/
def Block.withScopes (parent : ScopeId) : Block → Tables → Block × Tables
  | ⟨locals, statements, place, _⟩, tables =>
    let opened := tables.openScope (some parent) place.line (locals.map (·.declaration))
    let inner := stmtsWithScopes opened.1 statements opened.2
    (⟨locals, inner.1, place, some opened.1⟩, inner.2)

/-- Opens the scopes of the blocks in a statement that stands in `scope`. -/
def Stmt.withScopes (scope : ScopeId) : Stmt → Tables → Stmt × Tables
  | .conditional place test thenBlock none, tables =>
    let a := thenBlock.withScopes scope tables
    (.conditional place test a.1 none, a.2)
  | .conditional place test thenBlock (some elseBlock), tables =>
    let a := thenBlock.withScopes scope tables
    let b := elseBlock.withScopes scope a.2
    (.conditional place test a.1 (some b.1), b.2)
  | .loop place test body, tables =>
    let a := body.withScopes scope tables
    (.loop place test a.1, a.2)
  | .block place block, tables =>
    let a := block.withScopes scope tables
    (.block place a.1, a.2)
  | .assign place target value, tables => (.assign place target value, tables)
  | .call place call, tables => (.call place call, tables)
  | .ret place value, tables => (.ret place value, tables)
  | .break place, tables => (.break place, tables)
  | .continue place, tables => (.continue place, tables)

/-- Opens the scopes of the blocks in a list of statements. -/
def stmtsWithScopes (scope : ScopeId) : List Stmt → Tables → List Stmt × Tables
  | [], tables => ([], tables)
  | s :: rest, tables =>
    let a := s.withScopes scope tables
    let b := stmtsWithScopes scope rest a.2
    (a.1 :: b.1, b.2)

end

/-- Opens the scope of a function inside `parent`, and those of its blocks. -/
def Function.withScopes (parent : ScopeId) (f : Function) (tables : Tables) : Function × Tables :=
  let opened := tables.openScope (some parent) f.place.line f.declarations
  let body := f.body.withScopes opened.1 opened.2
  ({ f with body := body.1, scope := some opened.1 }, body.2)

/-- Opens the scopes of the functions of a program. -/
def functionsWithScopes (parent : ScopeId) : List Function → Tables → List Function × Tables
  | [], tables => ([], tables)
  | f :: rest, tables =>
    let a := f.withScopes parent tables
    let b := functionsWithScopes parent rest a.2
    (a.1 :: b.1, b.2)

/-- The tables of a program, and the program with its scopes marked. -/
def Program.withScopes (p : Program) : Program × Tables :=
  let opened := Tables.empty.openScope none p.place.line p.declarations
  let functions := functionsWithScopes opened.1 p.functions opened.2
  ({ p with functions := functions.1, scope := some opened.1 }, functions.2)

end Decaf
