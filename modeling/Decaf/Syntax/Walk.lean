import Decaf.Syntax.Basic

/-!
# Walking a program

A walk goes through a tree depth first, in source order. On the way down it
enters each node, on the way up it leaves it, and a visitor says what either
does to its state. On the way up an expression also gets the type that the
visitor infers for it, unless it has one; the expressions inside it have theirs
by then, so a visitor that leaves a node sees the types below it.

A statement that is only a call, or only a block, is not a node of its own: the
walk goes straight to the expression or the block.
-/

namespace Decaf

/-- The nodes that a walk enters and leaves. -/
inductive Node where
  | program (p : Program)
  | function (f : Function)
  | param (p : Param)
  | varDecl (d : VarDecl)
  | block (b : Block)
  | stmt (s : Stmt)
  | expr (e : Expr)

/-- What to do on a walk: how entering and leaving a node changes the state, and
the type to write into an expression that is left. -/
structure Visitor (σ : Type) where
  enter : Node → σ → σ
  leave : Node → σ → σ
  infer : Expr → σ → Option Ty

namespace Visitor

variable {σ : Type} (v : Visitor σ)

/-- Leaves an expression whose parts have been walked. -/
def close (e : Expr) (s : σ) : Expr × σ :=
  (e.fillType (v.infer e s), v.leave (.expr e) s)

mutual

/-- Walks an expression. -/
def expr : Expr → σ → Expr × σ
  | .literal p t value, s =>
    v.close (.literal p t value) (v.enter (.expr (.literal p t value)) s)
  | .location p t name none, s =>
    v.close (.location p t name none) (v.enter (.expr (.location p t name none)) s)
  | .location p t name (some index), s =>
    let a := expr index (v.enter (.expr (.location p t name (some index))) s)
    v.close (.location p t name (some a.1)) a.2
  | .binary p t op left right, s =>
    let a := expr left (v.enter (.expr (.binary p t op left right)) s)
    let b := expr right a.2
    v.close (.binary p t op a.1 b.1) b.2
  | .unary p t op operand, s =>
    let a := expr operand (v.enter (.expr (.unary p t op operand)) s)
    v.close (.unary p t op a.1) a.2
  | .call p t name args, s =>
    let a := exprs args (v.enter (.expr (.call p t name args)) s)
    v.close (.call p t name a.1) a.2

/-- Walks expressions one after the other. -/
def exprs : List Expr → σ → List Expr × σ
  | [], s => ([], s)
  | e :: rest, s =>
    let a := expr e s
    let b := exprs rest a.2
    (a.1 :: b.1, b.2)

end

/-- Walks the declaration of a variable. -/
def varDecl (d : VarDecl) (s : σ) : σ :=
  v.leave (.varDecl d) (v.enter (.varDecl d) s)

/-- Walks a parameter. -/
def param (p : Param) (s : σ) : σ :=
  v.leave (.param p) (v.enter (.param p) s)

/-- Walks declarations of variables one after the other. -/
def varDecls (ds : List VarDecl) (s : σ) : σ :=
  ds.foldl (fun s d => v.varDecl d s) s

/-- Walks parameters one after the other. -/
def params (ps : List Param) (s : σ) : σ :=
  ps.foldl (fun s p => v.param p s) s

mutual

/-- Walks a block: its variables, then its statements. -/
def block : Block → σ → Block × σ
  | ⟨locals, statements, place, scope⟩, s =>
    let s := v.varDecls locals (v.enter (.block ⟨locals, statements, place, scope⟩) s)
    let a := stmts statements s
    (⟨locals, a.1, place, scope⟩, v.leave (.block ⟨locals, a.1, place, scope⟩) a.2)

/-- Walks a statement. -/
def stmt : Stmt → σ → Stmt × σ
  | .assign p target value, s =>
    let a := v.expr target (v.enter (.stmt (.assign p target value)) s)
    let b := v.expr value a.2
    (.assign p a.1 b.1, v.leave (.stmt (.assign p a.1 b.1)) b.2)
  | .call p call, s =>
    let a := v.expr call s
    (.call p a.1, a.2)
  | .conditional p test thenBlock none, s =>
    let a := v.expr test (v.enter (.stmt (.conditional p test thenBlock none)) s)
    let b := block thenBlock a.2
    (.conditional p a.1 b.1 none, v.leave (.stmt (.conditional p a.1 b.1 none)) b.2)
  | .conditional p test thenBlock (some elseBlock), s =>
    let a := v.expr test (v.enter (.stmt (.conditional p test thenBlock (some elseBlock))) s)
    let b := block thenBlock a.2
    let c := block elseBlock b.2
    (.conditional p a.1 b.1 (some c.1),
      v.leave (.stmt (.conditional p a.1 b.1 (some c.1))) c.2)
  | .loop p test body, s =>
    let a := v.expr test (v.enter (.stmt (.loop p test body)) s)
    let b := block body a.2
    (.loop p a.1 b.1, v.leave (.stmt (.loop p a.1 b.1)) b.2)
  | .ret p none, s =>
    (.ret p none, v.leave (.stmt (.ret p none)) (v.enter (.stmt (.ret p none)) s))
  | .ret p (some value), s =>
    let a := v.expr value (v.enter (.stmt (.ret p (some value))) s)
    (.ret p (some a.1), v.leave (.stmt (.ret p (some a.1))) a.2)
  | .break p, s => (.break p, v.leave (.stmt (.break p)) (v.enter (.stmt (.break p)) s))
  | .continue p, s =>
    (.continue p, v.leave (.stmt (.continue p)) (v.enter (.stmt (.continue p)) s))
  | .block p inner, s =>
    let a := block inner s
    (.block p a.1, a.2)

/-- Walks statements one after the other. -/
def stmts : List Stmt → σ → List Stmt × σ
  | [], s => ([], s)
  | x :: rest, s =>
    let a := stmt x s
    let b := stmts rest a.2
    (a.1 :: b.1, b.2)

end

/-- Walks a function: its parameters, then its body. -/
def function (f : Function) (s : σ) : Function × σ :=
  let a := v.block f.body (v.params f.params (v.enter (.function f) s))
  let g := { f with body := a.1 }
  (g, v.leave (.function g) a.2)

/-- Walks functions one after the other. -/
def functions : List Function → σ → List Function × σ
  | [], s => ([], s)
  | f :: rest, s =>
    let a := v.function f s
    let b := functions rest a.2
    (a.1 :: b.1, b.2)

/-- Walks a program: its variables, then its functions. -/
def program (p : Program) (s : σ) : Program × σ :=
  let a := v.functions p.functions (v.varDecls p.globals (v.enter (.program p) s))
  let q := { p with functions := a.1 }
  (q, v.leave (.program q) a.2)

end Visitor

/-! ## Walking a part -/

/-- The parts of a program that can be walked on their own: all of it, a global
variable, a function, the body of one, a statement of such a body, or the
expression that this statement stores or gives back. -/
inductive Part where
  | whole
  | global (index : Nat)
  | function (index : Nat)
  | body (function : Nat)
  | statement (function index : Nat)
  | value (function index : Nat)

namespace Visitor

variable {σ : Type} (v : Visitor σ)

/-- Walks the value of a statement. -/
def value (x : Stmt) (s : σ) : Option (Stmt × σ) :=
  x.value?.map fun e =>
    let a := v.expr e s
    (x.withValue a.1, a.2)

/-- Replaces the member at a position by what `f` makes of it. -/
def replaceAt {α : Type} (f : α → Option (α × σ)) : List α → Nat → Option (List α × σ)
  | [], _ => none
  | a :: rest, 0 => (f a).map fun r => (r.1 :: rest, r.2)
  | a :: rest, i + 1 => (replaceAt f rest i).map fun r => (a :: r.1, r.2)

/-- Replaces a function of a program by what `f` makes of it. -/
def replaceFunction (p : Program) (index : Nat) (f : Function → Option (Function × σ)) :
    Option (Program × σ) :=
  (replaceAt f p.functions index).map fun r => ({ p with functions := r.1 }, r.2)

/-- Replaces a statement of the body of a function by what `f` makes of it. -/
def replaceStmt (g : Function) (index : Nat) (f : Stmt → Option (Stmt × σ)) :
    Option (Function × σ) :=
  (replaceAt f g.body.statements index).map fun r =>
    ({ g with body := { g.body with statements := r.1 } }, r.2)

/-- Walks a part of a program, if the program has it. -/
def part (p : Program) (s : σ) : Part → Option (Program × σ)
  | .whole => some (v.program p s)
  | .global i => p.globals[i]?.map fun d => (p, v.varDecl d s)
  | .function i => replaceFunction p i fun f => some (v.function f s)
  | .body i => replaceFunction p i fun f =>
    let a := v.block f.body s
    some ({ f with body := a.1 }, a.2)
  | .statement i j => replaceFunction p i fun f => replaceStmt f j fun x => some (v.stmt x s)
  | .value i j => replaceFunction p i fun f => replaceStmt f j fun x => v.value x s

end Visitor

/-! ## Recording a walk -/

/-- A step of a walk. -/
inductive Visit where
  | enter (node : Node)
  | leave (node : Node)

namespace Visitor

/-- Records every step of a walk. -/
def recorder : Visitor (Array Visit) where
  enter node visits := visits.push (.enter node)
  leave node visits := visits.push (.leave node)
  infer _ _ := none

end Visitor

/-- The steps of a walk through a program. -/
def Program.visits (p : Program) : List Visit :=
  (Visitor.recorder.program p #[]).2.toList

/-- The expression that a step of a walk leaves, if it leaves one. -/
def Visit.leftExpr? : Visit → Option Expr
  | .leave (.expr e) => some e
  | _ => none

/-- All expressions of a program, each after the expressions inside it. -/
def Program.exprs (p : Program) : List Expr :=
  p.visits.filterMap Visit.leftExpr?

end Decaf
