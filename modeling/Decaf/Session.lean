import Decaf.Syntax.Dump
import Decaf.Syntax.Parser
import Decaf.Scope.Build
import Decaf.Check.Analysis
import Decaf.Report.Event
import Decaf.Report.Snippet

/-!
# Checking a text

`checkText` takes a text through all phases: tokens, program, scopes, analysis.
What it prints and notes on the way is collected in order; the verdict is either
the checked program or the fault that ended the check. `run` also shows the
diagnostics, in one of two styles.
-/

namespace Decaf

/-- What a check prints and notes, in order. -/
inductive Output where
  | out (text : String)
  | err (text : String)
  | event (event : Event)
deriving DecidableEq

/-- How a check is presented: what is dumped, and how diagnostics are shown. -/
structure Presentation where
  dumpTokens : Bool
  dumpTree : Bool
  dumpSymbols : Bool
  /-- One message a line on the standard output, instead of snippets. -/
  plain : Bool
  color : Bool
deriving DecidableEq

/-- Snippets without colours and no dumps. -/
def Presentation.default : Presentation :=
  ⟨false, false, false, false, false⟩

/-- The palette of a presentation. -/
def Presentation.palette (how : Presentation) : Snippet.Palette :=
  if how.color then .ansi else .plain

/-- A program that went through all phases: its types are filled in, its tables
are built, and its mistakes are found. -/
structure Checked where
  program : Program
  tables : Tables
  errors : ErrorList

/-- The verdict of a check, and what it printed and noted. -/
structure Session (α : Type) where
  verdict : Except Fault α
  output : List Output

/-- The text that goes to the standard output. -/
def printed (output : List Output) : String :=
  String.join <| output.map fun
    | .out text => text
    | _ => ""

namespace Session

/-- The text that went to the standard output. -/
def stdout {α : Type} (s : Session α) : String :=
  printed s.output

/-- The text that went to the standard error output, the log left out. -/
def stderr {α : Type} (s : Session α) : String :=
  String.join <| s.output.map fun
    | .err text => text
    | _ => ""

/-- The log, down to a level. -/
def log {α : Type} (s : Session α) (threshold : Level) : List String :=
  s.output.filterMap fun
    | .event e => if e.reaches threshold then some e.line else none
    | _ => none

end Session

/-- Scopes and analysis: all that follows once a program is read. -/
def checkProgram (p : Program) : Checked :=
  let built := p.withScopes
  let analyzed := analyze built.2 built.1
  ⟨analyzed.1, built.2, analyzed.2⟩

/-- The dump of the tokens of a text. -/
def tokenDump (tokens : List Token) : Output :=
  .err ("=== Decaf Tokens ===\n" ++ dumpTokens tokens ++ "=== End Tokens ===\n\n")

/-- The dump of a program. -/
def treeDump (p : Program) : Output :=
  .err ("=== Decaf AST ===\n" ++ dumpProgram p ++ "\n=== End AST ===\n\n")

/-- The dump of symbol tables. -/
def symbolDump (tables : Tables) : Output :=
  .err ("=== Symbol Tables ===\n" ++ tables.text ++ "=== End Symbol Tables ===\n\n")

/-- What is printed and noted about a fault that ends a check. -/
def failure (how : Presentation) (file source : String) (fault : Fault) : List Output :=
  [.event (.failed file fault.span?),
    .err (Snippet.render how.palette (.ofString file source) fault)]

/-- The program that a text holds. If the tokens are dumped, all of them must be
readable before anything else is looked at. -/
def readProgram (how : Presentation) (source : String) : Except Fault Program :=
  match how.dumpTokens, tokenize source with
  | true, .error e => .error e.fault
  | _, _ => (parse source).mapError ParseError.fault

/-- What is printed and noted while a program is read. -/
def readingOutput (how : Presentation) (file source : String) : List Output :=
  match how.dumpTokens, tokenize source with
  | true, .error _ => []
  | true, .ok tokens => [tokenDump tokens, .event (.parsing file)]
  | false, _ => [.event (.parsing file)]

/-- What is printed and noted after a program was read. -/
def checkingOutput (how : Presentation) (file : String) (p : Program) : List Output :=
  let built := p.withScopes
  let analyzed := analyze built.2 built.1
  (if how.dumpTree then [treeDump p] else []) ++
  [.event (.buildingTables file)] ++
  (buildEvents built.1 built.2).map .event ++
  (if how.dumpSymbols then [symbolDump built.2] else []) ++
  [.event (.analyzing file)] ++
  (analysisEvents analyzed.1 analyzed.2).map .event

/-- Checks a text. -/
def checkText (how : Presentation) (file source : String) : Session Checked :=
  let before := readingOutput how file source
  match readProgram how source with
  | .error fault => ⟨.error fault, before ++ failure how file source fault⟩
  | .ok program => ⟨.ok (checkProgram program), before ++ checkingOutput how file program⟩

/-- How a diagnostic is shown. -/
def showDiagnostic (how : Presentation) (source : Snippet.Source) (d : Diagnostic) : Output :=
  if how.plain then .out (d.message ++ "\n")
  else .err (Snippet.render how.palette source (.semantic d.message d.span))

/-- Checks a text and shows its diagnostics. -/
def run (how : Presentation) (file source : String) : Session ErrorList :=
  let session := checkText how file source
  match session.verdict with
  | .error fault => ⟨.error fault, session.output⟩
  | .ok checked =>
    let snippets := Snippet.Source.ofString file source
    ⟨.ok checked.errors, session.output ++
      checked.errors.toList.map (showDiagnostic how snippets) ++
      [.event (.checkFinished file checked.errors.size)]⟩

end Decaf
