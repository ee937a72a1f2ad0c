import Decaf.Check.Diagnostic
import Decaf.Proofs.Scope.Frames

/-!
# The static rules over lists of frames

What the static rules say about a program, as functions of the tree alone. Names are
looked up in a list of frames, one for each construct around a node, innermost first;
in a frame the first declaration of a name counts. The other two things a rule can
depend on, the return type of the function and whether there is a loop around the
statement, are arguments too.

`typeOf` is the type of an expression, `annotate` and its companions write it into
every expression of a tree, and `findings` and its companions list what is wrong, in
the order of the text, what is wrong inside a node before what is wrong with it.
-/

namespace Decaf

namespace Reference

/-! ## Types -/

/-- The type that both operands must have, for operators that ask for one. -/
def operandType : BinaryOp → Option Ty
  | .add | .sub | .mul | .div | .mod => some .int
  | .lt | .le | .gt | .ge => some .int
  | .and | .or => some .bool
  | .eq | .ne => none

/-- The type of an expression. -/
def typeOf (frames : Frames) : Expr → Ty
  | .literal _ _ (.int _) => .int
  | .literal _ _ (.bool _) => .bool
  | .literal _ _ (.str _) => .str
  | .location _ _ x _ =>
    match meaningOf frames x with
    | some (.scalar type) => type
    | some (.array type) => type
    | some (.function _ _) => .unknown
    | none => .unknown
  | .binary _ _ op _ _ =>
    match op with
    | .add | .sub | .mul | .div | .mod => .int
    | _ => .bool
  | .unary _ _ .neg _ => .int
  | .unary _ _ .not _ => .bool
  | .call _ _ f _ =>
    match meaningOf frames f with
    | some (.function _ result) => result
    | some (.scalar _) => .unknown
    | some (.array _) => .unknown
    | none => .unknown

mutual

/-- Writes the types into an expression. -/
def annotate (frames : Frames) : Expr → Expr
  | .literal p t v => .literal p (some (typeOf frames (.literal p t v))) v
  | .location p t x none => .location p (some (typeOf frames (.location p t x none))) x none
  | .location p t x (some i) =>
    .location p (some (typeOf frames (.location p t x (some i)))) x (some (annotate frames i))
  | .binary p t op l r =>
    .binary p (some (typeOf frames (.binary p t op l r))) op (annotate frames l) (annotate frames r)
  | .unary p t op e => .unary p (some (typeOf frames (.unary p t op e))) op (annotate frames e)
  | .call p t f args =>
    .call p (some (typeOf frames (.call p t f args))) f (annotateAll frames args)

/-- Writes the types into expressions. -/
def annotateAll (frames : Frames) : List Expr → List Expr
  | [] => []
  | e :: es => annotate frames e :: annotateAll frames es

end

mutual

/-- Writes the types into a block, and takes out its scope. -/
def annotateBlock (frames : Frames) : Block → Block
  | ⟨locals, statements, place, _⟩ =>
    ⟨locals, annotateStmts (locals.map (·.binding) :: frames) statements, place, none⟩

/-- Writes the types into a statement. -/
def annotateStmt (frames : Frames) : Stmt → Stmt
  | .assign p target value => .assign p (annotate frames target) (annotate frames value)
  | .call p e => .call p (annotate frames e)
  | .conditional p test b none =>
    .conditional p (annotate frames test) (annotateBlock frames b) none
  | .conditional p test b (some c) =>
    .conditional p (annotate frames test) (annotateBlock frames b) (some (annotateBlock frames c))
  | .loop p test b => .loop p (annotate frames test) (annotateBlock frames b)
  | .ret p value => .ret p (value.map (annotate frames ·))
  | .break p => .break p
  | .continue p => .continue p
  | .block p b => .block p (annotateBlock frames b)

/-- Writes the types into statements. -/
def annotateStmts (frames : Frames) : List Stmt → List Stmt
  | [] => []
  | s :: ss => annotateStmt frames s :: annotateStmts frames ss

end

/-- Writes the types into a function, and takes out its scope. -/
def annotateFunction (frames : Frames) (f : Function) : Function :=
  { f with body := annotateBlock (f.frame :: frames) f.body, scope := none }

/-- Writes the types into a program, and takes out its scope. -/
def annotateProgram (p : Program) : Program :=
  { p with functions := p.functions.map (annotateFunction [p.frame]), scope := none }

/-! ## Findings -/

/-- The types that are found where another is expected are complained about, as far
as they are known. -/
def mismatch (expected found : Ty) : Bool :=
  found ≠ .unknown ∧ found ≠ expected

/-- What is wrong with an operand of which a type is expected. -/
def operand (expected found : Ty) (line : Nat) (span : Span) : List Diagnostic :=
  if mismatch expected found then [(Mistake.operand expected found).onLine line span] else []

/-- What is wrong with arguments, counted from `index`. -/
def arguments (frames : Frames) (place : Place) (f : String) :
    Nat → List Ty → List Expr → List Diagnostic
  | index, param :: params, arg :: args =>
    (if mismatch param (typeOf frames arg) then
      [(Mistake.argument index f param (typeOf frames arg)).onLine place.line arg.span]
    else []) ++ arguments frames place f (index + 1) params args
  | _, _, _ => []

/-- What is wrong with a use of a name as a location. -/
def location (frames : Frames) (place : Place) (x : String) (index : Option Expr) :
    List Diagnostic :=
  match meaningOf frames x, index with
  | none, _ => [(Mistake.undefined x).atNode place]
  | some (.scalar _), none => []
  | some (.scalar _), some _ => [(Mistake.indexedScalar x).atNode place]
  | some (.array _), none => [(Mistake.bareArray x).atNode place]
  | some (.array _), some i =>
    if mismatch .int (typeOf frames i) then [Mistake.indexType.onLine place.line i.span] else []
  | some (.function _ _), _ => [(Mistake.functionAsVariable x).atNode place]

/-- What is wrong with a call. -/
def call (frames : Frames) (place : Place) (f : String) (args : List Expr) : List Diagnostic :=
  match meaningOf frames f with
  | none => [(Mistake.undefined f).atNode place]
  | some (.scalar _) => [(Mistake.notAFunction f).atNode place]
  | some (.array _) => [(Mistake.notAFunction f).atNode place]
  | some (.function params _) =>
    if params.length = args.length then arguments frames place f 0 params args
    else [Mistake.argumentCount.atNode place]

/-- What is wrong with the operands of an operator. -/
def binary (frames : Frames) (place : Place) (op : BinaryOp) (l r : Expr) : List Diagnostic :=
  match operandType op with
  | some expected =>
    operand expected (typeOf frames l) place.line l.span ++
      operand expected (typeOf frames r) place.line r.span
  | none =>
    if typeOf frames l = .void ∨ typeOf frames r = .void then
      (if typeOf frames l = .void then [Mistake.voidOperand.onLine place.line l.span] else []) ++
        (if typeOf frames r = .void then [Mistake.voidOperand.onLine place.line r.span] else [])
    else if typeOf frames l = .unknown then []
    else operand (typeOf frames l) (typeOf frames r) place.line r.span

mutual

/-- What is wrong in an expression. -/
def expr (frames : Frames) : Expr → List Diagnostic
  | .literal .. => []
  | .location p _ x none => location frames p x none
  | .location p _ x (some i) => expr frames i ++ location frames p x (some i)
  | .binary p _ op l r => expr frames l ++ (expr frames r ++ binary frames p op l r)
  | .unary p _ .neg e => expr frames e ++ operand .int (typeOf frames e) p.line e.span
  | .unary p _ .not e => expr frames e ++ operand .bool (typeOf frames e) p.line e.span
  | .call p _ f args => exprs frames args ++ call frames p f args

/-- What is wrong in expressions. -/
def exprs (frames : Frames) : List Expr → List Diagnostic
  | [] => []
  | e :: es => expr frames e ++ exprs frames es

end

/-- The complaints about the repeated names of a frame, which belongs to a construct
that starts on a line. -/
def duplicates (line : Nat) (frame : Frame) : List Diagnostic :=
  (repeated (·.name) [] frame).map fun b => (Mistake.duplicate b.name line).onLine b.line b.span

/-- What is wrong with a variable. -/
def varDecl (d : VarDecl) : List Diagnostic :=
  (if d.type = .void then [(Mistake.voidVariable d.name).atNode d.place] else []) ++
    (if d.length = some 0 then [(Mistake.emptyArray d.name).atNode d.place] else [])

/-- What is wrong with a parameter. -/
def param (p : Param) : List Diagnostic :=
  if p.type = .void then [(Mistake.voidParameter p.name).atNode p.place] else []

/-- What is wrong with a condition. -/
def condition (frames : Frames) (place : Place) (test : Expr) : List Diagnostic :=
  if mismatch .bool (typeOf frames test) then [Mistake.condition.onLine place.line test.span]
  else []

/-- What is wrong with giving back a type from a function. -/
def returned (result found : Ty) (place : Place) : List Diagnostic :=
  if mismatch result found then [Mistake.returnType.atNode place] else []

/-- What is wrong with an assignment. -/
def assignment (frames : Frames) (place : Place) (target value : Expr) : List Diagnostic :=
  if typeOf frames target ≠ .unknown ∧ mismatch (typeOf frames target) (typeOf frames value) then
    [(Mistake.assignment (target.locationName?.getD "")).atNode place]
  else []

mutual

/-- What is wrong in a block. -/
def block (frames : Frames) (result : Ty) (inLoop : Bool) : Block → List Diagnostic
  | ⟨locals, statements, place, _⟩ =>
    duplicates place.line (locals.map (·.binding)) ++ (locals.flatMap varDecl ++
      stmts (locals.map (·.binding) :: frames) result inLoop statements)

/-- What is wrong in a statement. -/
def stmt (frames : Frames) (result : Ty) (inLoop : Bool) : Stmt → List Diagnostic
  | .assign p target value =>
    expr frames target ++ (expr frames value ++ assignment frames p target value)
  | .call _ e => expr frames e
  | .conditional p test b none =>
    expr frames test ++ (block frames result inLoop b ++ condition frames p test)
  | .conditional p test b (some c) =>
    expr frames test ++ (block frames result inLoop b ++ (block frames result inLoop c ++
      condition frames p test))
  | .loop p test b => expr frames test ++ (block frames result true b ++ condition frames p test)
  | .ret p none => returned result .void p
  | .ret p (some e) => expr frames e ++ returned result (typeOf frames e) p
  | .break p => if inLoop then [] else [Mistake.outsideLoop.atNode p]
  | .continue p => if inLoop then [] else [Mistake.outsideLoop.atNode p]
  | .block _ b => block frames result inLoop b

/-- What is wrong in statements. -/
def stmts (frames : Frames) (result : Ty) (inLoop : Bool) : List Stmt → List Diagnostic
  | [] => []
  | s :: ss => stmt frames result inLoop s ++ stmts frames result inLoop ss

end

/-- What is wrong in a function. -/
def function (frames : Frames) (f : Function) : List Diagnostic :=
  duplicates f.place.line f.frame ++ (f.params.flatMap param ++
    block (f.frame :: frames) f.returnType false f.body)

/-- What is wrong with the entry point of a program. -/
def entryPoint (p : Program) : List Diagnostic :=
  match meaningOf [p.frame] "main" with
  | none => [Mistake.noMain.onLine p.place.line (.point p.place.span.start)]
  | some m =>
    if m = .function [] .int then []
    else [Mistake.badMain.onLine p.place.line (.point p.place.span.start)]

/-- What is wrong in a program. -/
def findings (p : Program) : List Diagnostic :=
  duplicates p.place.line p.frame ++ (p.globals.flatMap varDecl ++
    (p.functions.flatMap (function [p.frame]) ++ entryPoint p))

end Reference

end Decaf
