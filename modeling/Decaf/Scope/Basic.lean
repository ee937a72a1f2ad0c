import Std.Data.TreeMap
import Decaf.Syntax.Basic

/-!
# Scopes and symbol tables

A scope holds the symbols that one construct declares. The first declaration of
a name is kept; any later one in the same scope is only recorded as a
duplicate. The tables of a program hold its scopes in order of creation, each
linked to the scope around it, and a name is looked up along that chain, from
the inside out.

A scope is opened inside one that exists, so a parent always comes earlier in
the tables. `Tables.chain` follows the links only as far as that holds, and
therefore ends.
-/

namespace Decaf

namespace Symbol

/-- What a name stands for. -/
inductive Kind where
  | scalar
  | array (length : Nat)
  | function (params : List Ty)
deriving DecidableEq

namespace Kind

/-- How tables and dumps describe what a name stands for. -/
def describe : Kind → String
  | scalar => "scalar"
  | array length => "array[" ++ toString length ++ "]"
  | function params => "function(" ++ ", ".intercalate (params.map Ty.spelling) ++ ")"

/-- The types of the parameters of a function. -/
def params? : Kind → Option (List Ty)
  | function params => some params
  | _ => none

end Kind

end Symbol

/-- A declared name: what it stands for, its type (what it returns, for a
function), the nesting level of its scope and the line of its declaration. -/
structure Symbol where
  name : String
  kind : Symbol.Kind
  type : Ty
  level : Nat
  line : Nat
deriving DecidableEq

/-- A declaration of a name that its scope already holds. -/
structure Duplicate where
  name : String
  line : Nat
  span : Span
deriving DecidableEq

/-- A declaration: the symbol to be defined, and where it is declared. -/
structure Declaration where
  symbol : Symbol
  span : Span
deriving DecidableEq

/-- The refusal to define a name a second time. -/
structure Clash where
  name : String
deriving DecidableEq

namespace Clash

/-- The wording of the refusal. -/
def message (clash : Clash) : String :=
  "symbol '" ++ clash.name ++ "' already defined in this scope"

end Clash

/-- A scope: its symbols in order of declaration, the position of each name
among them, the duplicates, the scope around it, its nesting level, and the
line of the construct that opened it. -/
structure Scope where
  symbols : Array Symbol
  positions : Std.TreeMap String Nat
  duplicates : Array Duplicate
  parent : Option ScopeId
  level : Nat
  line : Nat

namespace Scope

/-- A scope without symbols. -/
def empty (parent : Option ScopeId) (level line : Nat) : Scope :=
  ⟨#[], ∅, #[], parent, level, line⟩

/-- The symbol of a name in this scope. -/
def find? (scope : Scope) (name : String) : Option Symbol :=
  scope.positions[name]?.bind (scope.symbols[·]?)

/-- Adds a declaration: a new name becomes a symbol of the scope's level, a name
that is there already becomes a duplicate. -/
def define (scope : Scope) (d : Declaration) : Scope :=
  if scope.positions.contains d.symbol.name then
    { scope with
      duplicates := scope.duplicates.push ⟨d.symbol.name, d.symbol.line, d.span⟩ }
  else
    { scope with
      symbols := scope.symbols.push { d.symbol with level := scope.level }
      positions := scope.positions.insert d.symbol.name scope.symbols.size }

end Scope

/-- All scopes of a program, in order of creation. -/
structure Tables where
  scopes : Array Scope

namespace Tables

/-- Tables without scopes. -/
def empty : Tables :=
  ⟨#[]⟩

/-- The number of scopes. -/
def size (tables : Tables) : Nat :=
  tables.scopes.size

/-- The scope at a position. -/
def scope? (tables : Tables) (id : ScopeId) : Option Scope :=
  tables.scopes[id.index]?

/-- Opens a scope inside `parent`, one level deeper, or at the outermost
level. -/
def push (tables : Tables) (parent : Option ScopeId) (line : Nat) : ScopeId × Tables :=
  let level := match parent.bind tables.scope? with
    | some outer => outer.level + 1
    | none => 0
  (⟨tables.size⟩, ⟨tables.scopes.push (.empty parent level line)⟩)

/-- Adds a declaration to a scope. The answer is a clash if the scope holds the
name already. -/
def define (tables : Tables) (id : ScopeId) (d : Declaration) : Option Clash × Tables :=
  let clash := match tables.scope? id with
    | some scope => if scope.positions.contains d.symbol.name then some ⟨d.symbol.name⟩ else none
    | none => none
  (clash, ⟨tables.scopes.modify id.index (·.define d)⟩)

/-- A scope and the scopes around it, from the inside out. -/
def chain (tables : Tables) (id : ScopeId) : List ScopeId :=
  match tables.scope? id with
  | none => []
  | some scope =>
    match scope.parent with
    | none => [id]
    | some parent => if parent.index < id.index then id :: chain tables parent else [id]
termination_by id.index

/-- The symbol of a name in one scope. -/
def findIn? (tables : Tables) (id : ScopeId) (name : String) : Option Symbol :=
  (tables.scope? id).bind (·.find? name)

/-- The symbol of a name as seen from a scope: that of the innermost scope that
declares it. -/
def lookup (tables : Tables) (id : ScopeId) (name : String) : Option Symbol :=
  (tables.chain id).findSome? (tables.findIn? · name)

/-- How the tables are written, one line for each scope and each symbol,
indented by level. -/
def text (tables : Tables) : String :=
  let line (scope : Scope) (index : Nat) : String :=
    let indent := "".pushn ' ' (2 * scope.level)
    let parent := match scope.parent with
      | some parent => ", parent " ++ toString parent.index
      | none => ""
    let heading := indent ++ "scope " ++ toString index ++
      " (line " ++ toString scope.line ++ parent ++ "):\n"
    let symbols := scope.symbols.toList.map fun s =>
      indent ++ "  " ++ s.name ++ " : " ++ s.type.spelling ++ " " ++ s.kind.describe ++ "\n"
    heading ++ String.join symbols
  String.join (tables.scopes.toList.zipIdx.map fun (scope, index) => line scope index)

end Tables

end Decaf
