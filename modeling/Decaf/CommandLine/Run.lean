import Decaf.Session
import Decaf.CommandLine.Texts

/-!
# Running the command

What the command prints and the status it exits with, as a function of its
arguments and of what the file to check turned out to hold. `plan` says whether a
file is needed at all; `check` takes it from there.
-/

namespace Decaf.CommandLine

/-- What the command printed, in order, and the status it exits with. -/
structure Outcome where
  code : Nat
  output : List Output

/-- An event as a line of the log; `stamp` is the time. -/
def logLine (stamp : String) (e : Event) : String :=
  let level := e.level.text
  stamp ++ " " ++ "".pushn ' ' (5 - level.length) ++ level ++ " " ++ e.text ++ "\n"

namespace Outcome

/-- The text that went to the standard output. -/
def stdout (o : Outcome) : String :=
  printed o.output

/-- The text that went to the standard error output, the log included. -/
def stderr (stamp : String) (o : Outcome) : String :=
  String.join <| o.output.map fun
    | .out _ => ""
    | .err text => text
    | .event e => logLine stamp e

end Outcome

/-- What the command does first: it ends at once, or it needs a file. -/
inductive Plan where
  | done (outcome : Outcome)
  | check (options : Options)

/-- What the arguments lead to. -/
def plan (args : List String) : Plan :=
  match request args with
  | .error e => .done ⟨2, [.err e.text]⟩
  | .ok (.help true) => .done ⟨0, [.out longHelp]⟩
  | .ok (.help false) => .done ⟨0, [.out shortHelp]⟩
  | .ok .version => .done ⟨0, [.out versionText]⟩
  | .ok (.check options) => .check options

/-- How the options ask for a check to be presented. The choice `auto` colours
what goes to a terminal, as `terminal` tells. -/
def Options.presentation (o : Options) (terminal : Bool) : Presentation where
  dumpTokens := o.dumpTokens
  dumpTree := o.dumpTree
  dumpSymbols := o.dumpSymbols
  plain := o.plain
  color := match o.color with
    | .auto => terminal
    | .always => true
    | .never => false

/-- What is logged: nothing, unless it is asked for. -/
def shown (verbose : Bool) : Output → Bool
  | .event e => verbose && e.reaches .debug
  | _ => true

/-- How the command reports that a file could not be checked. Where the file
could not be read, the reason is given once more. -/
def failureText (input : String) (fault : Fault) : String :=
  let cause := match fault with
    | .io message => ": " ++ message
    | _ => ""
  "error: failed to check " ++ input ++ ": " ++ fault.text ++ cause ++ "\n"

/-- How the command counts the mistakes in a file, if there are any. -/
def countText (input : String) (count : Nat) : String :=
  input ++ ": " ++ toString count ++ " semantic error" ++ (if count = 1 then "" else "s") ++ "\n"

/-- The text that a file holds, or why it could not be had. -/
def decode (contents : Except String ByteArray) : Except Fault String :=
  match contents with
  | .error message => .error (.io message)
  | .ok bytes =>
    match String.fromUTF8? bytes with
    | some text => .ok text
    | none => .error (.io "stream did not contain valid UTF-8")

/-- Checks a file, given its name and what it holds. -/
def checkFile (how : Presentation) (file : String) (contents : Except String ByteArray) :
    Session ErrorList :=
  match decode contents with
  | .error fault => ⟨.error fault, []⟩
  | .ok source => run how file source

/-- Checks the file that the options name, given what it holds. -/
def check (o : Options) (terminal : Bool) (contents : Except String ByteArray) : Outcome :=
  let session := checkFile (o.presentation terminal) o.input contents
  let output := session.output.filter (shown o.verbose)
  match session.verdict with
  | .error fault => ⟨1, output ++ [.err (failureText o.input fault)]⟩
  | .ok errors =>
    if errors.isEmpty then ⟨0, output⟩
    else ⟨1, output ++ [.err (countText o.input errors.size)]⟩

end Decaf.CommandLine
