import Decaf.Syntax.Walk
import Decaf.Proofs.Syntax.Tree

/-!
# Walks side by side

Two visitors walk in step if one map of states carries everything that the first does to
its state over to the second, and both infer the same types. Then the walks give the same
tree, and the map carries one result to the other (`Maps.program`). One visitor may
remember more than the other: `traced` adds a record of all steps to a visitor, and the
walk is the same without it.
-/

namespace Decaf.Visitor

/-- Walks a node of any kind, with all that is in it. -/
def walk {σ : Type} (v : Visitor σ) : Node → σ → σ
  | .program p, s => (v.program p s).2
  | .function f, s => (v.function f s).2
  | .param p, s => v.param p s
  | .varDecl d, s => v.varDecl d s
  | .block b, s => (v.block b s).2
  | .stmt x, s => (v.stmt x s).2
  | .expr e, s => (v.expr e s).2

variable {σ τ : Type} {v : Visitor σ} {w : Visitor τ} {f : σ → τ}

/-- Whatever `v` does to a state, `w` does to what `f` makes of it. -/
structure Maps (v : Visitor σ) (w : Visitor τ) (f : σ → τ) : Prop where
  enter : ∀ node s, w.enter node (f s) = f (v.enter node s)
  leave : ∀ node s, w.leave node (f s) = f (v.leave node s)
  infer : ∀ e s, w.infer e (f s) = v.infer e s

/-- Visitors in step with a common one are in step. -/
theorem Maps.trans {ρ : Type} {u : Visitor ρ} {g : τ → ρ} (h : Maps v w f) (h' : Maps w u g) :
    Maps v u (g ∘ f) where
  enter node s := (h'.enter node (f s)).trans (congrArg g (h.enter node s))
  leave node s := (h'.leave node (f s)).trans (congrArg g (h.leave node s))
  infer e s := (h'.infer e (f s)).trans (h.infer e s)

/-! ## Expressions -/

/-- The type of an expression is inferred on leaving it, by both visitors alike. -/
theorem Maps.close (h : Maps v w f) (e : Expr) (s : σ) :
    w.close e (f s) = ((v.close e s).1, f (v.close e s).2) := by
  rw [Visitor.close, Visitor.close, h.infer, h.leave]

/-- Expressions in a row, if each is walked in step. -/
theorem exprs_maps_of {es : List Expr}
    (hes : ∀ e ∈ es, ∀ s, w.expr e (f s) = ((v.expr e s).1, f (v.expr e s).2)) (s : σ) :
    w.exprs es (f s) = ((v.exprs es s).1, f (v.exprs es s).2) := by
  induction es generalizing s with
  | nil => rfl
  | cons e es ih =>
    rw [Visitor.exprs, Visitor.exprs, hes e List.mem_cons_self,
      ih fun e' he => hes e' (List.mem_cons_of_mem e he)]

/-- Expressions are walked in step, by induction over them. -/
theorem Maps.expr (h : Maps v w f) (e : Expr) (s : σ) :
    w.expr e (f s) = ((v.expr e s).1, f (v.expr e s).2) := by
  induction e using Expr.induction generalizing s with
  | literal p t c => rw [Visitor.expr, Visitor.expr, h.enter, h.close]
  | scalar p t x => rw [Visitor.expr, Visitor.expr, h.enter, h.close]
  | element p t x i ih => rw [Visitor.expr, Visitor.expr, h.enter, ih, h.close]
  | binary p t op l r ihl ihr => rw [Visitor.expr, Visitor.expr, h.enter, ihl, ihr, h.close]
  | unary p t op e ih => rw [Visitor.expr, Visitor.expr, h.enter, ih, h.close]
  | call p t g args ih => rw [Visitor.expr, Visitor.expr, h.enter, exprs_maps_of ih, h.close]

/-! ## Blocks and statements -/

/-- Declarations are walked in step; they only change the state. -/
theorem Maps.varDecls (h : Maps v w f) (ds : List VarDecl) (s : σ) :
    w.varDecls ds (f s) = f (v.varDecls ds s) := by
  induction ds generalizing s with
  | nil => rfl
  | cons d ds ih =>
    have hd : w.varDecl d (f s) = f (v.varDecl d s) := by
      rw [Visitor.varDecl, Visitor.varDecl, h.enter, h.leave]
    have hcons : w.varDecls (d :: ds) (f s) = w.varDecls ds (w.varDecl d (f s)) := rfl
    rw [hcons, hd, ih]
    rfl

theorem Maps.params (h : Maps v w f) (ps : List Param) (s : σ) :
    w.params ps (f s) = f (v.params ps s) := by
  induction ps generalizing s with
  | nil => rfl
  | cons p ps ih =>
    have hp : w.param p (f s) = f (v.param p s) := by
      rw [Visitor.param, Visitor.param, h.enter, h.leave]
    have hcons : w.params (p :: ps) (f s) = w.params ps (w.param p (f s)) := rfl
    rw [hcons, hp, ih]
    rfl

theorem stmts_maps_of {ss : List Stmt}
    (hss : ∀ x ∈ ss, ∀ s, w.stmt x (f s) = ((v.stmt x s).1, f (v.stmt x s).2)) (s : σ) :
    w.stmts ss (f s) = ((v.stmts ss s).1, f (v.stmts ss s).2) := by
  induction ss generalizing s with
  | nil => rfl
  | cons x ss ih =>
    rw [Visitor.stmts, Visitor.stmts, hss x List.mem_cons_self,
      ih fun y hy => hss y (List.mem_cons_of_mem x hy)]

/-- Blocks and statements are walked in step. -/
theorem Maps.block_stmt (h : Maps v w f) :
    (∀ (b : Block) (s : σ), w.block b (f s) = ((v.block b s).1, f (v.block b s).2)) ∧
    ∀ (x : Stmt) (s : σ), w.stmt x (f s) = ((v.stmt x s).1, f (v.stmt x s).2) := by
  refine Block.induction ?mk ?assign ?call ?ifThen ?ifElse ?loop ?ret ?brk ?cont ?inner
  case mk =>
    intro locals statements p scope ih s
    rw [Visitor.block, Visitor.block, h.enter, h.varDecls, stmts_maps_of ih, h.leave]
  case assign =>
    intro p target value s
    rw [Visitor.stmt, Visitor.stmt, h.enter, h.expr, h.expr, h.leave]
  case call =>
    intro p e s
    rw [Visitor.stmt, Visitor.stmt, h.expr]
  case ifThen =>
    intro p test b ihb s
    rw [Visitor.stmt, Visitor.stmt, h.enter, h.expr, ihb, h.leave]
  case ifElse =>
    intro p test b c ihb ihc s
    rw [Visitor.stmt, Visitor.stmt, h.enter, h.expr, ihb, ihc, h.leave]
  case loop =>
    intro p test b ihb s
    rw [Visitor.stmt, Visitor.stmt, h.enter, h.expr, ihb, h.leave]
  case ret =>
    intro p value s
    cases value with
    | none => rw [Visitor.stmt, Visitor.stmt, h.enter, h.leave]
    | some e => rw [Visitor.stmt, Visitor.stmt, h.enter, h.expr, h.leave]
  case brk =>
    intro p s
    rw [Visitor.stmt, Visitor.stmt, h.enter, h.leave]
  case cont =>
    intro p s
    rw [Visitor.stmt, Visitor.stmt, h.enter, h.leave]
  case inner =>
    intro p b ihb s
    rw [Visitor.stmt, Visitor.stmt, ihb]

/-! ## Functions and programs -/

/-- A function is walked in step. -/
theorem Maps.function (h : Maps v w f) (g : Function) (s : σ) :
    w.function g (f s) = ((v.function g s).1, f (v.function g s).2) := by
  rw [Visitor.function, Visitor.function, h.enter, h.params, h.block_stmt.1, h.leave]

theorem Maps.functions (h : Maps v w f) (fs : List Function) (s : σ) :
    w.functions fs (f s) = ((v.functions fs s).1, f (v.functions fs s).2) := by
  induction fs generalizing s with
  | nil => rfl
  | cons g fs ih => rw [Visitor.functions, Visitor.functions, h.function, ih]

/-- Visitors that walk in step give the same program, and states that correspond. -/
theorem Maps.program (h : Maps v w f) (p : Program) (s : σ) :
    w.program p (f s) = ((v.program p s).1, f (v.program p s).2) := by
  rw [Visitor.program, Visitor.program, h.enter, h.varDecls, h.functions, h.leave]

/-- Whatever node the walk starts from. -/
theorem Maps.walk (h : Maps v w f) (n : Node) (s : σ) : w.walk n (f s) = f (v.walk n s) := by
  cases n with
  | program p => exact congrArg Prod.snd (h.program p s)
  | function g => exact congrArg Prod.snd (h.function g s)
  | param p => exact h.params [p] s
  | varDecl d => exact h.varDecls [d] s
  | block b => exact congrArg Prod.snd (h.block_stmt.1 b s)
  | stmt x => exact congrArg Prod.snd (h.block_stmt.2 x s)
  | expr e => exact congrArg Prod.snd (h.expr e s)

end Decaf.Visitor

/-! ## Recording the steps of a walk -/

namespace Decaf

/-- A step of a walk, with the state before and after it. -/
structure Step (σ : Type) where
  visit : Visit
  before : σ
  after : σ

namespace Visitor

variable {σ : Type} (v : Visitor σ)

/-- The same walk, with a record of its steps. -/
def traced : Visitor (σ × List (Step σ)) where
  enter node x := (v.enter node x.1, x.2 ++ [⟨.enter node, x.1, v.enter node x.1⟩])
  leave node x := (v.leave node x.1, x.2 ++ [⟨.leave node, x.1, v.leave node x.1⟩])
  infer e x := v.infer e x.1

/-- Without the record it is the same walk. -/
theorem traced_maps : v.traced.Maps v Prod.fst :=
  ⟨fun _ _ => rfl, fun _ _ => rfl, fun _ _ => rfl⟩

end Visitor

end Decaf
