import Decaf.Syntax.Basic

/-!
# Diagnostics

The mistakes that the static rules find, their wording, and the list they are
collected in. Almost every message names the line of the diagnostic; the one
about duplicates names the line on which their scope starts.
-/

namespace Decaf

/-- The mistakes that a program can contain. -/
inductive Mistake where
  | duplicate (name : String) (scopeLine : Nat)
  | noMain
  | badMain
  | voidParameter (name : String)
  | voidVariable (name : String)
  | emptyArray (name : String)
  | assignment (name : String)
  | condition
  | returnType
  | outsideLoop
  | undefined (name : String)
  | indexedScalar (name : String)
  | bareArray (name : String)
  | indexType
  | functionAsVariable (name : String)
  | operand (expected found : Ty)
  | voidOperand
  | notAFunction (name : String)
  | argumentCount
  | argument (index : Nat) (name : String) (expected found : Ty)
deriving DecidableEq

namespace Mistake

/-- The wording of a mistake on a line. -/
def message (line : Nat) : Mistake → String
  | duplicate name scopeLine =>
    "Duplicate symbols named '" ++ name ++ "' in scope started on line " ++ toString scopeLine
  | noMain => "Main function undefined on line " ++ toString line
  | badMain => "Main function defined incorrect on line " ++ toString line
  | voidParameter name => "Void parameter '" ++ name ++ "' on line " ++ toString line
  | voidVariable name => "Void variable '" ++ name ++ "' on line " ++ toString line
  | emptyArray name =>
    "Array '" ++ name ++ "' on line " ++ toString line ++ " must have positive non-zero length"
  | assignment name => "Variable '" ++ name ++ "' type mismatch on line " ++ toString line
  | condition => "Condition must be a boolean type on line " ++ toString line
  | returnType =>
    "Return type on line " ++ toString line ++ " does not match function return type"
  | outsideLoop => "Break on line " ++ toString line ++ " can not exist outside of a loop"
  | undefined name => "Symbol '" ++ name ++ "' undefined on line " ++ toString line
  | indexedScalar name =>
    "Scalar '" ++ name ++ "' accessed with an index on line " ++ toString line
  | bareArray name => "Array '" ++ name ++ "' accesses without an index on line " ++ toString line
  | indexType => "Array index must be an int on line " ++ toString line
  | functionAsVariable name => "Invalid use of function '" ++ name ++ "' on line " ++ toString line
  | operand expected found =>
    "Type mismatch: " ++ expected.spelling ++ " expected but " ++ found.spelling ++
      " found on line " ++ toString line
  | voidOperand => "Type mismatch: non-void expected but void found on line " ++ toString line
  | notAFunction name =>
    "Invalid call to non-function '" ++ name ++ "' on line " ++ toString line
  | argumentCount => "Invalid number of function arguments on line " ++ toString line
  | argument index name expected found =>
    "Type mismatch in parameter " ++ toString index ++ " of call to '" ++ name ++ "': expected " ++
      expected.spelling ++ " but found " ++ found.spelling ++ " on line " ++ toString line

end Mistake

/-- A mistake that was found: its wording, its line, and what it is about. -/
structure Diagnostic where
  message : String
  line : Nat
  span : Span
deriving DecidableEq

/-- The diagnostic of a mistake on a line. -/
def Mistake.onLine (mistake : Mistake) (line : Nat) (span : Span) : Diagnostic :=
  ⟨mistake.message line, line, span⟩

/-- The diagnostic of a mistake in a node. -/
def Mistake.atNode (mistake : Mistake) (place : Place) : Diagnostic :=
  mistake.onLine place.line place.span

/-- Diagnostics in the order in which they were found. -/
structure ErrorList where
  errors : Array Diagnostic
deriving DecidableEq

namespace ErrorList

/-- The list before anything was found. -/
def empty : ErrorList :=
  ⟨#[]⟩

/-- Adds a diagnostic at the end. -/
def report (list : ErrorList) (d : Diagnostic) : ErrorList :=
  ⟨list.errors.push d⟩

/-- Adds diagnostics at the end. -/
def reportAll (list : ErrorList) (ds : List Diagnostic) : ErrorList :=
  ds.foldl report list

/-- The diagnostics, first found first. -/
def toList (list : ErrorList) : List Diagnostic :=
  list.errors.toList

/-- The number of diagnostics. -/
def size (list : ErrorList) : Nat :=
  list.errors.size

/-- Whether nothing was found. -/
def isEmpty (list : ErrorList) : Bool :=
  list.errors.isEmpty

/-- The wordings, first found first. -/
def messages (list : ErrorList) : List String :=
  list.toList.map (·.message)

@[simp] theorem toList_empty : empty.toList = [] := rfl

@[simp] theorem toList_report (list : ErrorList) (d : Diagnostic) :
    (list.report d).toList = list.toList ++ [d] := by
  simp [report, toList]

@[simp] theorem toList_reportAll (list : ErrorList) (ds : List Diagnostic) :
    (list.reportAll ds).toList = list.toList ++ ds := by
  induction ds generalizing list with
  | nil => simp [reportAll]
  | cons d ds ih =>
    have h : list.reportAll (d :: ds) = (list.report d).reportAll ds := rfl
    rw [h, ih, toList_report, List.append_assoc, List.singleton_append]

end ErrorList

end Decaf
