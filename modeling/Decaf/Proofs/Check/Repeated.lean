import Decaf.Proofs.Check.Compositional
import Decaf.Proofs.Syntax.Occurrences
import Mathlib.Data.List.Forall2

/-!
# Analyzing a program again

The analysis writes a type into every expression that has none and leaves the others
alone. What it wrote it reads again when the same tree is analyzed a second time, and the
types that were there beforehand need not be those that the rules would give. Still a
second analysis gives the same tree and finds the same as the first (`analyze_analyze`):
a rule looks at the types of the operands after they were filled in, which the second
analysis finds as they are.
-/

namespace Decaf

variable {look : String → Option Symbol}

/-! ## Expressions -/

namespace Expr

/-- A literal is settled by its value, unless it has a type already. -/
theorem settle_literal (p : Place) (t : Option Ty) (v : Literal) :
    (literal p t v).settle look = .literal p (t.or (some v.type)) v := rfl

theorem settle_location (p : Place) (t : Option Ty) (x : String) (i : Option Expr) :
    (location p t x i).settle look = .location p (t.or (some (Rules.locationType (look x)))) x i :=
  rfl

theorem settle_binary (p : Place) (t : Option Ty) (op : BinaryOp) (l r : Expr) :
    (binary p t op l r).settle look = .binary p (t.or (some op.resultType)) op l r := rfl

theorem settle_unary (p : Place) (t : Option Ty) (op : UnaryOp) (e : Expr) :
    (unary p t op e).settle look = .unary p (t.or (some op.type)) op e := rfl

theorem settle_call (p : Place) (t : Option Ty) (f : String) (args : List Expr) :
    (call p t f args).settle look = .call p (t.or (some (Rules.callType (look f)))) f args := rfl

theorem typedExprs_typedExprs_of {es : List Expr}
    (h : ∀ e ∈ es, (e.typed look).typed look = e.typed look) :
    typedExprs look (typedExprs look es) = typedExprs look es := by
  rw [typedExprs_eq_map, typedExprs_eq_map, List.map_map]
  exact List.map_congr_left h

/-- Types that are filled in stay. -/
theorem typed_typed (e : Expr) : (e.typed look).typed look = e.typed look := by
  -- whatever is written, it is the same the second time, and the first wins
  induction e using Expr.induction with
  | literal p t v =>
    rw [typed, settle_literal, typed, settle_literal, Option.or_assoc, Option.or_self]
  | scalar p t x =>
    rw [typed, settle_location, typed, settle_location, Option.or_assoc, Option.or_self]
  | element p t x i ih =>
    rw [typed, settle_location, typed, settle_location, Option.or_assoc, Option.or_self, ih]
  | binary p t op l r ihl ihr =>
    rw [typed, settle_binary, typed, settle_binary, Option.or_assoc, Option.or_self, ihl, ihr]
  | unary p t op e ih =>
    rw [typed, settle_unary, typed, settle_unary, Option.or_assoc, Option.or_self, ih]
  | call p t f args ih =>
    rw [typed, settle_call, typed, settle_call, Option.or_assoc, Option.or_self,
      typedExprs_typedExprs_of ih]

/-- With the types filled in the same is found: the rule for an expression does not ask for
its own type. -/
theorem mistakes_typed (e : Expr) : (e.typed look).mistakes look = e.mistakes look := by
  induction e using Expr.induction with
  | literal p t v => rfl
  | scalar p t x => rfl
  | element p t x i ih =>
    rw [typed, settle_location, mistakes, mistakes, ih, typed_typed]
    rfl
  | binary p t op l r ihl ihr =>
    rw [typed, settle_binary, mistakes, mistakes, ihl, ihr, typed_typed, typed_typed]
    rfl
  | unary p t op e ih =>
    rw [typed, settle_unary, mistakes, mistakes, ih, typed_typed]
    rfl
  | call p t f args ih =>
    have hinside : exprsMistakes look (typedExprs look args) = exprsMistakes look args := by
      rw [typedExprs_eq_map, exprsMistakes_eq_flatMap, exprsMistakes_eq_flatMap, List.flatMap_map]
      exact List.flatMap_congr ih
    rw [typed, settle_call, mistakes, mistakes, hinside,
      typedExprs_typedExprs_of fun e _ => e.typed_typed]
    rfl

/-- Nothing but the types is changed. -/
theorem typed_relabel_untyped (e : Expr) :
    (e.typed look).relabel .untyped = e.relabel .untyped := by
  induction e using Expr.induction with
  | literal p t v => rfl
  | scalar p t x => rfl
  | element p t x i ih => rw [typed, settle_location, relabel, relabel, ih]; rfl
  | binary p t op l r ihl ihr => rw [typed, settle_binary, relabel, relabel, ihl, ihr]; rfl
  | unary p t op e ih => rw [typed, settle_unary, relabel, relabel, ih]; rfl
  | call p t f args ih =>
    have hargs : relabelExprs .untyped (typedExprs look args) = relabelExprs .untyped args := by
      rw [typedExprs_eq_map, relabelExprs_eq_map, relabelExprs_eq_map, List.map_map]
      exact List.map_congr_left ih
    rw [typed, settle_call, relabel, relabel, hargs]
    rfl

/-- The type that was written beforehand counts; the rules are asked only where there was none. -/
theorem type?_typed (e : Expr) :
    (e.typed look).type? = e.type?.or (some (Rules.exprType look e)) := by
  cases e with
  | location p t x index => cases index <;> rfl
  | _ => rfl

/-- `after` is the expression `before`, in which a type is written now, and the one that was
there already if there was one. -/
structure Filled (before after : Expr) : Prop where
  same : after.relabel .untyped = before.relabel .untyped
  typed : after.type?.isSome
  kept : ∀ ty, before.type? = some ty → after.type? = some ty

/-- Analysis only fills in: a type that was there is still the same. -/
theorem filled_typed (e : Expr) : Filled e (e.typed look) := by
  refine ⟨e.typed_relabel_untyped, ?_, fun ty hty => ?_⟩
  · rw [type?_typed]
    cases e.type? <;> rfl
  · rw [type?_typed, hty, Option.some_or]

theorem filled_exprs_of {es : List Expr}
    (h : ∀ e ∈ es, List.Forall₂ Filled e.parts (e.typed look).parts) :
    List.Forall₂ Filled (exprsParts es) (exprsParts (typedExprs look es)) := by
  induction es with
  | nil => exact .nil
  | cons e es ih =>
    exact List.rel_append (h e List.mem_cons_self) (ih fun x hx => h x (List.mem_cons_of_mem e hx))

/-- Part by part, an expression is filled. -/
theorem filled_parts (e : Expr) : List.Forall₂ Filled e.parts (e.typed look).parts := by
  have one : ∀ x : Expr, List.Forall₂ Filled [x] [x.typed look] :=
    fun x => .cons x.filled_typed .nil
  induction e using Expr.induction with
  | literal p t v => exact one (.literal p t v)
  | scalar p t x => exact one (.location p t x none)
  | element p t x i ih => exact List.rel_append ih (one (.location p t x (some i)))
  | binary p t op l r ihl ihr =>
    exact List.rel_append ihl (List.rel_append ihr (one (.binary p t op l r)))
  | unary p t op e ih => exact List.rel_append ih (one (.unary p t op e))
  | call p t f args ih => exact List.rel_append (filled_exprs_of ih) (one (.call p t f args))

end Expr

/-! ## Blocks and statements -/

variable {tables : Tables}

/-- Typing a statement a second time in the same context changes nothing. -/
theorem block_stmt_typed_typed :
    (∀ (b : Block) (c : Context), (b.typed tables c).typed tables c = b.typed tables c) ∧
    ∀ (s : Stmt) (c : Context), (s.typed tables c).typed tables c = s.typed tables c := by
  refine Block.induction ?mk ?assign ?call ?ifThen ?ifElse ?loop ?ret ?brk ?cont ?inner
  case mk =>
    intro locals statements p scope ih c
    rw [Block.typed, Block.typed, typedStmts_eq_map, typedStmts_eq_map, List.map_map]
    refine congrArg (fun ss => Block.mk locals ss p scope) ?_
    exact List.map_congr_left fun s hs => ih s hs _
  case assign =>
    intro p target value c
    rw [Stmt.typed, Stmt.typed, Expr.typed_typed, Expr.typed_typed]
  case call =>
    intro p e c
    rw [Stmt.typed, Stmt.typed, Expr.typed_typed]
  case ifThen =>
    intro p test b ihb c
    rw [Stmt.typed, Stmt.typed, Expr.typed_typed, ihb]
  case ifElse =>
    intro p test b d ihb ihd c
    rw [Stmt.typed, Stmt.typed, Expr.typed_typed, ihb, ihd]
  case loop =>
    intro p test b ihb c
    rw [Stmt.typed, Stmt.typed, Expr.typed_typed, ihb]
  case ret =>
    intro p value c
    cases value with
    | none => rfl
    | some e => exact congrArg (fun x => Stmt.ret p (some x)) e.typed_typed
  case brk => exact fun p c => rfl
  case cont => exact fun p c => rfl
  case inner =>
    intro p b ihb c
    rw [Stmt.typed, Stmt.typed, ihb]

/-- A statement with its types filled in has the mistakes it had before: a rule looks at the
operands only once they have been typed. -/
theorem block_stmt_mistakes_typed :
    (∀ (b : Block) (c : Context), (b.typed tables c).mistakes tables c = b.mistakes tables c) ∧
    ∀ (s : Stmt) (c : Context), (s.typed tables c).mistakes tables c = s.mistakes tables c := by
  refine Block.induction ?mk ?assign ?call ?ifThen ?ifElse ?loop ?ret ?brk ?cont ?inner
  case mk =>
    intro locals statements p scope ih c
    have hinside : stmtsMistakes tables (c.within scope)
        (typedStmts tables (c.within scope) statements) =
        stmtsMistakes tables (c.within scope) statements := by
      rw [typedStmts_eq_map, stmtsMistakes_eq_flatMap, stmtsMistakes_eq_flatMap, List.flatMap_map]
      exact List.flatMap_congr fun s hs => ih s hs _
    rw [Block.typed, Block.mistakes, Block.mistakes, hinside]
  case assign =>
    intro p target value c
    rw [Stmt.typed, Stmt.mistakes, Stmt.mistakes, Expr.mistakes_typed, Expr.mistakes_typed,
      Expr.typed_typed, Expr.typed_typed]
  case call =>
    intro p e c
    rw [Stmt.typed, Stmt.mistakes, Stmt.mistakes, Expr.mistakes_typed]
  case ifThen =>
    intro p test b ihb c
    rw [Stmt.typed, Stmt.mistakes, Stmt.mistakes, Expr.mistakes_typed, Expr.typed_typed, ihb]
  case ifElse =>
    intro p test b d ihb ihd c
    rw [Stmt.typed, Stmt.mistakes, Stmt.mistakes, Expr.mistakes_typed, Expr.typed_typed, ihb, ihd]
  case loop =>
    intro p test b ihb c
    rw [Stmt.typed, Stmt.mistakes, Stmt.mistakes, Expr.mistakes_typed, Expr.typed_typed, ihb]
  case ret =>
    intro p value c
    cases value with
    | none => rfl
    | some e =>
      rw [Stmt.typed, Option.map_some, Stmt.mistakes, Stmt.mistakes, Expr.mistakes_typed,
        Expr.typed_typed]
  case brk => exact fun p c => rfl
  case cont => exact fun p c => rfl
  case inner =>
    intro p b ihb c
    rw [Stmt.typed, Stmt.mistakes, Stmt.mistakes, ihb]

/-- Without the types, a typed statement is the one that was analyzed. -/
theorem block_stmt_typed_relabel_untyped :
    (∀ (b : Block) (c : Context), (b.typed tables c).relabel .untyped = b.relabel .untyped) ∧
    ∀ (s : Stmt) (c : Context), (s.typed tables c).relabel .untyped = s.relabel .untyped := by
  refine Block.induction ?mk ?assign ?call ?ifThen ?ifElse ?loop ?ret ?brk ?cont ?inner
  case mk =>
    intro locals statements p scope ih c
    rw [Block.typed, Block.relabel, Block.relabel, typedStmts_eq_map, relabelStmts_eq_map,
      relabelStmts_eq_map, List.map_map]
    refine congrArg (fun ss => Block.mk _ ss _ _) ?_
    exact List.map_congr_left fun s hs => ih s hs _
  case assign =>
    intro p target value c
    rw [Stmt.typed, Stmt.relabel, Stmt.relabel, Expr.typed_relabel_untyped,
      Expr.typed_relabel_untyped]
  case call =>
    intro p e c
    rw [Stmt.typed, Stmt.relabel, Stmt.relabel, Expr.typed_relabel_untyped]
  case ifThen =>
    intro p test b ihb c
    rw [Stmt.typed, Stmt.relabel, Stmt.relabel, Expr.typed_relabel_untyped, ihb]
  case ifElse =>
    intro p test b d ihb ihd c
    rw [Stmt.typed, Stmt.relabel, Stmt.relabel, Expr.typed_relabel_untyped, ihb, ihd]
  case loop =>
    intro p test b ihb c
    rw [Stmt.typed, Stmt.relabel, Stmt.relabel, Expr.typed_relabel_untyped, ihb]
  case ret =>
    intro p value c
    cases value with
    | none => rfl
    | some e => exact congrArg (fun x => Stmt.ret p (some x)) e.typed_relabel_untyped
  case brk => exact fun p c => rfl
  case cont => exact fun p c => rfl
  case inner =>
    intro p b ihb c
    rw [Stmt.typed, Stmt.relabel, Stmt.relabel, ihb]

theorem stmts_filled_of {ss : List Stmt} (c : Context)
    (h : ∀ s ∈ ss, ∀ c, List.Forall₂ Expr.Filled s.exprs (s.typed tables c).exprs) :
    List.Forall₂ Expr.Filled (stmtsExprs ss) (stmtsExprs (typedStmts tables c ss)) := by
  induction ss with
  | nil => exact .nil
  | cons s ss ih =>
    exact List.rel_append (h s List.mem_cons_self c)
      (ih fun x hx => h x (List.mem_cons_of_mem s hx))

/-- Going through the expressions of a statement in order, each one was only filled in. -/
theorem block_stmt_filled :
    (∀ (b : Block) (c : Context), List.Forall₂ Expr.Filled b.exprs (b.typed tables c).exprs) ∧
    ∀ (s : Stmt) (c : Context), List.Forall₂ Expr.Filled s.exprs (s.typed tables c).exprs := by
  refine Block.induction ?mk ?assign ?call ?ifThen ?ifElse ?loop ?ret ?brk ?cont ?inner
  case mk =>
    intro locals statements p scope ih c
    exact stmts_filled_of _ ih
  case assign =>
    intro p target value c
    exact List.rel_append target.filled_parts value.filled_parts
  case call =>
    intro p e c
    exact e.filled_parts
  case ifThen =>
    intro p test b ihb c
    exact List.rel_append test.filled_parts (ihb c)
  case ifElse =>
    intro p test b d ihb ihd c
    exact List.rel_append test.filled_parts (List.rel_append (ihb c) (ihd c))
  case loop =>
    intro p test b ihb c
    exact List.rel_append test.filled_parts (ihb c.inLoopBody)
  case ret =>
    intro p value c
    cases value with
    | none => exact .nil
    | some e => exact e.filled_parts
  case brk => exact fun p c => .nil
  case cont => exact fun p c => .nil
  case inner =>
    intro p b ihb c
    exact ihb c

/-! ## Programs -/

/-- Typing a function a second time changes nothing. -/
theorem Function.typed_typed (f : Function) (c : Context) :
    (f.typed tables c).typed tables c = f.typed tables c := by
  have hbody : (f.body.typed tables (f.context c)).typed tables (f.context c) =
      f.body.typed tables (f.context c) := block_stmt_typed_typed.1 f.body _
  exact congrArg (fun b => { f with body := b }) hbody

/-- A typed function has the mistakes it had before. -/
theorem Function.mistakes_typed (f : Function) (c : Context) :
    (f.typed tables c).mistakes tables c = f.mistakes tables c := by
  have hbody : (f.body.typed tables (f.context c)).mistakes tables (f.context c) =
      f.body.mistakes tables (f.context c) := block_stmt_mistakes_typed.1 f.body _
  exact congrArg (fun ds => scopeMistakes tables f.scope ++ (f.params.flatMap Rules.param ++ ds))
    hbody

/-- Typing a program a second time changes nothing. -/
theorem Program.typed_typed (p : Program) (c : Context) :
    (p.typed tables c).typed tables c = p.typed tables c := by
  rw [Program.typed, Program.typed, List.map_map]
  refine congrArg (fun fs => { p with functions := fs }) ?_
  exact List.map_congr_left fun f _ => f.typed_typed _

/-- A typed program has the mistakes it had before. -/
theorem Program.mistakes_typed (p : Program) (c : Context) :
    (p.typed tables c).mistakes tables c = p.mistakes tables c := by
  rw [Program.typed, Program.mistakes, Program.mistakes, List.flatMap_map]
  have hinside : p.functions.flatMap
        (fun f => (f.typed tables (c.within p.scope)).mistakes tables (c.within p.scope)) =
      p.functions.flatMap (·.mistakes tables (c.within p.scope)) :=
    List.flatMap_congr fun f _ => f.mistakes_typed _
  rw [hinside]

theorem Function.typed_relabel_untyped (f : Function) (c : Context) :
    (f.typed tables c).relabel .untyped = f.relabel .untyped := by
  rw [Function.typed, Function.relabel, Function.relabel, block_stmt_typed_relabel_untyped.1]

/-- Analysis writes types into a program and nothing else. -/
theorem Program.typed_relabel_untyped (p : Program) (c : Context) :
    (p.typed tables c).relabel .untyped = p.relabel .untyped := by
  rw [Program.typed, Program.relabel, Program.relabel, List.map_map]
  refine congrArg (fun fs => Program.mk _ fs _ _) ?_
  exact List.map_congr_left fun f _ => f.typed_relabel_untyped _

/-- Every expression of the program was only filled in. -/
theorem Program.filled_exprs (p : Program) (c : Context) :
    List.Forall₂ Expr.Filled p.exprs (p.typed tables c).exprs := by
  rw [Program.exprs_eq, Program.exprs_eq, Program.typed]
  induction p.functions with
  | nil => exact .nil
  | cons f fs ih => exact List.rel_append (block_stmt_filled.1 f.body _) ih

/-- A second analysis of a program changes nothing and finds the same as the first. The first
one changes nothing but types: after it every expression has one, and one that was there
beforehand is still there. The tree may be any, with any types written into it and any scopes
missing, and the tables may be any. -/
theorem analyze_analyze (tables : Tables) (p : Program) :
    analyze tables (analyze tables p).1 = analyze tables p ∧
    (analyze tables p).1.relabel .untyped = p.relabel .untyped ∧
    List.Forall₂ Expr.Filled p.exprs (analyze tables p).1.exprs := by
  rw [analyze_eq, analyze_eq, Program.typed_typed, Program.mistakes_typed]
  exact ⟨rfl, p.typed_relabel_untyped _, p.filled_exprs _⟩

end Decaf
