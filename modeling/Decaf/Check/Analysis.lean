import Decaf.Syntax.Walk
import Decaf.Scope.Basic
import Decaf.Check.Rules

/-!
# The analysis of a program

A walk through a program that applies the rules to every node it leaves and
writes its type into every expression. On the way it keeps the scopes that were
entered and not yet left, innermost first, and for each function that was
entered its return type and the number of loops around the current statement.
Names are looked up from the innermost scope.
-/

namespace Decaf

/-- What the analysis knows about a function it is inside of. -/
structure FunctionContext where
  returnType : Ty
  loopDepth : Nat
deriving DecidableEq

/-- The state of an analysis: the scopes entered and not yet left, the functions
entered and not yet left, both innermost first, and what was found so far. -/
structure Analysis where
  scopes : List ScopeId
  functions : List FunctionContext
  errors : ErrorList
deriving DecidableEq

namespace Analysis

/-- The state at the beginning. -/
def start : Analysis :=
  ⟨[], [], .empty⟩

/-- The symbol that a name stands for in the innermost scope. -/
def lookup (a : Analysis) (tables : Tables) (name : String) : Option Symbol :=
  a.scopes.head?.bind (tables.lookup · name)

/-- Adds what was found. -/
def report (a : Analysis) (ds : List Diagnostic) : Analysis :=
  { a with errors := a.errors.reportAll ds }

/-- Enters the scope of a construct, if it has one, and reports its duplicates. -/
def enterScope (a : Analysis) (tables : Tables) (scope : Option ScopeId) : Analysis :=
  match scope with
  | none => a
  | some id =>
    let found := match tables.scope? id with
      | some s => Rules.duplicates s
      | none => []
    { a with scopes := id :: a.scopes }.report found

/-- Leaves the scope of a construct, if it has one. -/
def leaveScope (a : Analysis) (scope : Option ScopeId) : Analysis :=
  if scope.isSome then { a with scopes := a.scopes.tail } else a

/-- Changes the loop depth of the innermost function. -/
def mapDepth (a : Analysis) (f : Nat → Nat) : Analysis :=
  match a.functions with
  | [] => a
  | c :: rest => { a with functions := { c with loopDepth := f c.loopDepth } :: rest }

/-- The return type of the innermost function. -/
def returnType? (a : Analysis) : Option Ty :=
  a.functions.head?.map (·.returnType)

/-- Whether the innermost function has a loop around the current statement. -/
def inLoop (a : Analysis) : Bool :=
  a.functions.head?.any (0 < ·.loopDepth)

/-- What entering a node does. -/
def enter (tables : Tables) : Node → Analysis → Analysis
  | .program p, a => a.enterScope tables p.scope
  | .function f, a =>
    let a := a.enterScope tables f.scope
    { a with functions := ⟨f.returnType, 0⟩ :: a.functions }
  | .block b, a => a.enterScope tables b.scope
  | .stmt (.loop ..), a => a.mapDepth (· + 1)
  | _, a => a

/-- What leaving a node does. -/
def leave (tables : Tables) : Node → Analysis → Analysis
  | .program p, a =>
    (a.report (Rules.entryPoint (a.lookup tables "main") p.place)).leaveScope p.scope
  | .function f, a => { a with functions := a.functions.tail }.leaveScope f.scope
  | .param p, a => a.report (Rules.param p)
  | .varDecl d, a => a.report (Rules.varDecl d)
  | .block b, a => a.leaveScope b.scope
  | .stmt s, a =>
    let a := match s with
      | .loop .. => a.mapDepth (· - 1)
      | _ => a
    a.report (Rules.stmt a.returnType? a.inLoop s)
  | .expr e, a => a.report (Rules.expr (a.lookup tables) e)

/-- The analysis as a walk. -/
def visitor (tables : Tables) : Visitor Analysis where
  enter := enter tables
  leave := leave tables
  infer e a := some (Rules.exprType (a.lookup tables) e)

end Analysis

/-- Applies the rules to a program with the tables built for it: the program
with its types filled in, and what was found. -/
def analyze (tables : Tables) (p : Program) : Program × ErrorList :=
  let result := (Analysis.visitor tables).program p .start
  (result.1, result.2.errors)

end Decaf
