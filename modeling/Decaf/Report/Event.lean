import Decaf.Text.Characters
import Decaf.Syntax.Walk
import Decaf.Scope.Basic
import Decaf.Check.Diagnostic

/-!
# The log of a check

What a check notes on its way. An event has a level and a text: a message, then
fields as `name=value`. The events of the two inner phases can be told from what
they leave behind: those of the construction of scopes from the tables, those of
the analysis from the expressions of the program.
-/

namespace Decaf

/-- How important an event is. -/
inductive Level where
  | trace | debug | info
deriving DecidableEq

namespace Level

/-- How a level is written. -/
def text : Level → String
  | trace => "TRACE"
  | debug => "DEBUG"
  | info => "INFO"

/-- The rank of a level, higher for more important ones. -/
def rank : Level → Nat
  | trace => 0
  | debug => 1
  | info => 2

end Level

/-- What a check notes on its way. -/
inductive Event where
  | parsing (file : String)
  | failed (file : String) (span : Option Span)
  | buildingTables (file : String)
  | alreadyDefined (clash : Clash) (scope : ScopeId)
  | enteringFunction (name : String) (scope : ScopeId)
  | tablesBuilt (scopes : Nat)
  | analyzing (file : String)
  | binary (op : BinaryOp) (line : Nat)
  | unary (op : UnaryOp) (line : Nat)
  | analysisFinished (errors : Nat)
  | checkFinished (file : String) (errors : Nat)
deriving DecidableEq

namespace Event

/-- How important an event is. -/
def level : Event → Level
  | alreadyDefined .. => .trace
  | enteringFunction .. => .trace
  | binary .. => .trace
  | unary .. => .trace
  | checkFinished .. => .info
  | _ => .debug

/-- The message of an event and its fields. -/
def text : Event → String
  | parsing file => "parsing file=" ++ file
  | failed file span =>
    let span := match span with
      | some s => "Some(" ++ s.text ++ ")"
      | none => "None"
    "frontend failed file=" ++ file ++ " span=" ++ span
  | buildingTables file => "building symbol tables file=" ++ file
  | alreadyDefined clash scope => clash.message ++ " scope=" ++ toString scope.index
  | enteringFunction name scope =>
    "entering function scope function=" ++ name ++ " scope=" ++ toString scope.index
  | tablesBuilt scopes => "symbol tables built scopes=" ++ toString scopes
  | analyzing file => "analyzing file=" ++ file
  | binary op line =>
    "binary expression op=" ++ Text.quoted op.spelling ++ " line=" ++ toString line
  | unary op line =>
    "unary expression op=" ++ Text.quoted op.spelling ++ " line=" ++ toString line
  | analysisFinished errors => "semantic analysis finished errors=" ++ toString errors
  | checkFinished file errors =>
    "check finished file=" ++ Text.quoted file ++ " errors=" ++ toString errors

/-- Whether an event is at least as important as a level. -/
def reaches (threshold : Level) (e : Event) : Bool :=
  threshold.rank ≤ e.level.rank

/-- An event on a line of its own, without a time. -/
def line (e : Event) : String :=
  e.level.text ++ " " ++ e.text

end Event

/-- What the construction of the tables notes, given the program with its scopes
marked. Each scope is filled before another is opened. -/
def buildEvents (p : Program) (tables : Tables) : List Event :=
  let ofScope (scope : Scope) (id : ScopeId) : List Event :=
    (p.functions.filter (·.scope == some id)).map (fun f => .enteringFunction f.name id) ++
    scope.duplicates.toList.map fun d => .alreadyDefined ⟨d.name⟩ id
  tables.scopes.toList.zipIdx.flatMap (fun (scope, index) => ofScope scope ⟨index⟩) ++
    [.tablesBuilt tables.size]

/-- What the analysis notes about an expression. -/
def Expr.event? : Expr → Option Event
  | .binary place _ op _ _ => some (.binary op place.line)
  | .unary place _ op _ => some (.unary op place.line)
  | _ => none

/-- What the analysis of a program notes. -/
def analysisEvents (p : Program) (errors : ErrorList) : List Event :=
  p.exprs.filterMap Expr.event? ++ [.analysisFinished errors.size]

end Decaf
