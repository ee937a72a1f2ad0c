import Decaf.Syntax.Basic

/-!
# Trees of programs

Two things that every theorem about trees needs. `Expr.induction` and
`Block.induction` are induction over expressions and over statements with the
blocks inside them: the lists and options that the types nest through show up as
hypotheses about their members.

The nodes of a tree carry labels that are not part of the program itself: where
they stand, the type that was inferred, the scope they open. A `Relabel` says
what becomes of each kind of label, and `Program.relabel` carries it through a
tree. Two trees are the same program up to spans and lines if they agree once
every place is forgotten (`Relabel.unplaced`); a tree that nothing was written
into yet is one that `Relabel.cleared` leaves alone.
-/

namespace Decaf

/-! ## Induction -/

/-- Induction over expressions. -/
theorem Expr.induction {motive : Expr → Prop}
    (literal : ∀ p t v, motive (.literal p t v))
    (scalar : ∀ p t x, motive (.location p t x none))
    (element : ∀ p t x i, motive i → motive (.location p t x (some i)))
    (binary : ∀ p t op l r, motive l → motive r → motive (.binary p t op l r))
    (unary : ∀ p t op e, motive e → motive (.unary p t op e))
    (call : ∀ p t f args, (∀ a ∈ args, motive a) → motive (.call p t f args))
    (e : Expr) : motive e := by
  refine @Expr.rec motive (fun i => ∀ e, i = some e → motive e) (fun es => ∀ e ∈ es, motive e)
    literal ?_ binary unary call ?_ ?_ ?_ ?_ e
  · intro p t x i hi
    cases i with
    | none => exact scalar p t x
    | some i => exact element p t x i (hi i rfl)
  · intro e he
    cases he
  · intro i hi e he
    cases he
    exact hi
  · intro e he
    cases he
  · intro e es he hes a ha
    rcases List.mem_cons.mp ha with rfl | ha
    · exact he
    · exact hes a ha

/-- Induction over statements and the blocks inside them. -/
theorem Block.induction {block : Block → Prop} {stmt : Stmt → Prop}
    (mk : ∀ locals statements p scope, (∀ s ∈ statements, stmt s) →
      block ⟨locals, statements, p, scope⟩)
    (assign : ∀ p target value, stmt (.assign p target value))
    (call : ∀ p e, stmt (.call p e))
    (ifThen : ∀ p test b, block b → stmt (.conditional p test b none))
    (ifElse : ∀ p test b c, block b → block c → stmt (.conditional p test b (some c)))
    (loop : ∀ p test b, block b → stmt (.loop p test b))
    (ret : ∀ p value, stmt (.ret p value))
    (brk : ∀ p, stmt (.break p))
    (cont : ∀ p, stmt (.continue p))
    (inner : ∀ p b, block b → stmt (.block p b)) :
    (∀ b, block b) ∧ ∀ s, stmt s := by
  have conditional : ∀ p test b c, block b → (∀ d, c = some d → block d) →
      stmt (.conditional p test b c) := by
    intro p test b c hb hc
    cases c with
    | none => exact ifThen p test b hb
    | some c => exact ifElse p test b c hb (hc c rfl)
  have none_case : ∀ d : Block, none = some d → block d := by
    intro d hd
    cases hd
  have some_case : ∀ c : Block, block c → ∀ d, some c = some d → block d := by
    intro c hc d hd
    cases hd
    exact hc
  have nil_case : ∀ s ∈ ([] : List Stmt), stmt s := by
    intro s hs
    cases hs
  have cons_case : ∀ (s : Stmt) (ss : List Stmt), stmt s → (∀ x ∈ ss, stmt x) →
      ∀ x ∈ s :: ss, stmt x := by
    intro s ss hs hss x hx
    rcases List.mem_cons.mp hx with rfl | hx
    · exact hs
    · exact hss x hx
  constructor
  · intro b
    exact @Block.rec stmt block (fun c => ∀ d, c = some d → block d) (fun ss => ∀ s ∈ ss, stmt s)
      assign call conditional loop ret brk cont inner mk none_case some_case nil_case cons_case b
  · intro s
    exact @Stmt.rec stmt block (fun c => ∀ d, c = some d → block d) (fun ss => ∀ s ∈ ss, stmt s)
      assign call conditional loop ret brk cont inner mk none_case some_case nil_case cons_case s

/-! ## Labels -/

/-- Nowhere: the place of nodes that were not read from a text. -/
def Place.nowhere : Place :=
  ⟨.point 0, 0⟩

/-- What becomes of the labels of a tree. -/
structure Relabel where
  place : Place → Place
  type : Option Ty → Option Ty
  scope : Option ScopeId → Option ScopeId

namespace Relabel

/-- Forgets where the nodes stand. -/
def unplaced : Relabel :=
  ⟨fun _ => .nowhere, id, id⟩

/-- Takes out what is written into a tree after it was read. -/
def cleared : Relabel :=
  ⟨id, fun _ => none, fun _ => none⟩

/-- Takes out the inferred types. -/
def untyped : Relabel :=
  ⟨id, fun _ => none, id⟩

/-- Forgets which scopes were opened. -/
def unscoped : Relabel :=
  ⟨id, id, fun _ => none⟩

/-- Leaves nothing but the program itself. -/
def bare : Relabel :=
  ⟨fun _ => .nowhere, fun _ => none, fun _ => none⟩

/-- One after the other, `g` first. -/
def comp (f g : Relabel) : Relabel :=
  ⟨f.place ∘ g.place, f.type ∘ g.type, f.scope ∘ g.scope⟩

end Relabel

mutual

/-- Relabels an expression and those inside it. -/
def Expr.relabel (f : Relabel) : Expr → Expr
  | .literal p t v => .literal (f.place p) (f.type t) v
  | .location p t x none => .location (f.place p) (f.type t) x none
  | .location p t x (some i) => .location (f.place p) (f.type t) x (some (i.relabel f))
  | .binary p t op l r => .binary (f.place p) (f.type t) op (l.relabel f) (r.relabel f)
  | .unary p t op e => .unary (f.place p) (f.type t) op (e.relabel f)
  | .call p t g args => .call (f.place p) (f.type t) g (relabelExprs f args)

/-- Relabels expressions. -/
def relabelExprs (f : Relabel) : List Expr → List Expr
  | [] => []
  | e :: es => e.relabel f :: relabelExprs f es

end

/-- Relabels the declaration of a variable. -/
def VarDecl.relabel (f : Relabel) (d : VarDecl) : VarDecl :=
  { d with place := f.place d.place }

/-- Relabels a parameter. -/
def Param.relabel (f : Relabel) (p : Param) : Param :=
  { p with place := f.place p.place }

mutual

/-- Relabels a block and all that is in it. -/
def Block.relabel (f : Relabel) : Block → Block
  | ⟨locals, statements, p, scope⟩ =>
    ⟨locals.map (·.relabel f), relabelStmts f statements, f.place p, f.scope scope⟩

/-- Relabels a statement and all that is in it. -/
def Stmt.relabel (f : Relabel) : Stmt → Stmt
  | .assign p target value => .assign (f.place p) (target.relabel f) (value.relabel f)
  | .call p e => .call (f.place p) (e.relabel f)
  | .conditional p test b none => .conditional (f.place p) (test.relabel f) (b.relabel f) none
  | .conditional p test b (some c) =>
    .conditional (f.place p) (test.relabel f) (b.relabel f) (some (c.relabel f))
  | .loop p test b => .loop (f.place p) (test.relabel f) (b.relabel f)
  | .ret p value => .ret (f.place p) (value.map (·.relabel f))
  | .break p => .break (f.place p)
  | .continue p => .continue (f.place p)
  | .block p b => .block (f.place p) (b.relabel f)

/-- Relabels statements. -/
def relabelStmts (f : Relabel) : List Stmt → List Stmt
  | [] => []
  | s :: ss => s.relabel f :: relabelStmts f ss

end

/-- Relabels a function and all that is in it. -/
def Function.relabel (f : Relabel) (g : Function) : Function :=
  ⟨g.name, g.returnType, g.params.map (·.relabel f), g.body.relabel f, f.place g.place,
    f.scope g.scope⟩

/-- Relabels a program and all that is in it. -/
def Program.relabel (f : Relabel) (p : Program) : Program :=
  ⟨p.globals.map (·.relabel f), p.functions.map (·.relabel f), f.place p.place, f.scope p.scope⟩

theorem relabelExprs_eq_map (f : Relabel) (es : List Expr) :
    relabelExprs f es = es.map (·.relabel f) := by
  induction es with
  | nil => rfl
  | cons e es ih => rw [relabelExprs, ih, List.map_cons]

theorem relabelStmts_eq_map (f : Relabel) (ss : List Stmt) :
    relabelStmts f ss = ss.map (·.relabel f) := by
  induction ss with
  | nil => rfl
  | cons s ss ih => rw [relabelStmts, ih, List.map_cons]

/-- Expressions open no scopes. -/
theorem Expr.relabel_unscoped (e : Expr) : e.relabel .unscoped = e := by
  induction e using Expr.induction with
  | literal p t v => rfl
  | scalar p t x => rfl
  | element p t x i ih => rw [relabel, ih]; rfl
  | binary p t op l r ihl ihr => rw [relabel, ihl, ihr]; rfl
  | unary p t op e ih => rw [relabel, ih]; rfl
  | call p t f args ih =>
    rw [relabel, relabelExprs_eq_map, List.map_congr_left ih, List.map_id']
    rfl

/-- Relabelling twice is relabelling once. -/
theorem Expr.relabel_relabel (f g : Relabel) (e : Expr) :
    (e.relabel g).relabel f = e.relabel (f.comp g) := by
  induction e using Expr.induction with
  | literal p t v => rfl
  | scalar p t x => rfl
  | element p t x i ih => rw [relabel, relabel, relabel, ih]; rfl
  | binary p t op l r ihl ihr => rw [relabel, relabel, relabel, ihl, ihr]; rfl
  | unary p t op e ih => rw [relabel, relabel, relabel, ih]; rfl
  | call p t h args ih =>
    have hargs : (args.map (·.relabel g)).map (·.relabel f) = args.map (·.relabel (f.comp g)) := by
      rw [List.map_map]
      exact List.map_congr_left ih
    rw [relabel, relabel, relabel, relabelExprs_eq_map, relabelExprs_eq_map, relabelExprs_eq_map,
      hargs]
    rfl

/-- The same for blocks and statements, together. -/
theorem block_stmt_relabel_relabel (f g : Relabel) :
    (∀ b : Block, (b.relabel g).relabel f = b.relabel (f.comp g)) ∧
    ∀ s : Stmt, (s.relabel g).relabel f = s.relabel (f.comp g) := by
  refine Block.induction ?mk ?assign ?call ?ifThen ?ifElse ?loop ?ret ?brk ?cont ?inner
  case mk =>
    intro locals statements p scope ih
    have hstatements : (statements.map (·.relabel g)).map (·.relabel f) =
        statements.map (·.relabel (f.comp g)) := by
      rw [List.map_map]
      exact List.map_congr_left ih
    rw [Block.relabel, Block.relabel, Block.relabel, relabelStmts_eq_map, relabelStmts_eq_map,
      relabelStmts_eq_map, hstatements, List.map_map]
    rfl
  case assign =>
    intro p target value
    rw [Stmt.relabel, Stmt.relabel, Stmt.relabel, Expr.relabel_relabel, Expr.relabel_relabel]
    rfl
  case call =>
    intro p e
    rw [Stmt.relabel, Stmt.relabel, Stmt.relabel, Expr.relabel_relabel]
    rfl
  case ifThen =>
    intro p test b ihb
    rw [Stmt.relabel, Stmt.relabel, Stmt.relabel, Expr.relabel_relabel, ihb]
    rfl
  case ifElse =>
    intro p test b c ihb ihc
    rw [Stmt.relabel, Stmt.relabel, Stmt.relabel, Expr.relabel_relabel, ihb, ihc]
    rfl
  case loop =>
    intro p test b ihb
    rw [Stmt.relabel, Stmt.relabel, Stmt.relabel, Expr.relabel_relabel, ihb]
    rfl
  case ret =>
    intro p value
    cases value with
    | none => rfl
    | some e =>
      rw [Stmt.relabel, Option.map_some, Stmt.relabel, Option.map_some, Stmt.relabel,
        Option.map_some, Expr.relabel_relabel]
      rfl
  case brk => exact fun p => rfl
  case cont => exact fun p => rfl
  case inner =>
    intro p b ihb
    rw [Stmt.relabel, Stmt.relabel, Stmt.relabel, ihb]
    rfl

theorem Function.relabel_relabel (h : Function) (f g : Relabel) :
    (h.relabel g).relabel f = h.relabel (f.comp g) := by
  rw [Function.relabel, Function.relabel, Function.relabel, List.map_map,
    (block_stmt_relabel_relabel f g).1]
  rfl

/-- Relabelling a program twice is relabelling it once. -/
theorem Program.relabel_relabel (p : Program) (f g : Relabel) :
    (p.relabel g).relabel f = p.relabel (f.comp g) := by
  have hfunctions : (p.functions.map (·.relabel g)).map (·.relabel f) =
      p.functions.map (·.relabel (f.comp g)) := by
    rw [List.map_map]
    exact List.map_congr_left fun h _ => h.relabel_relabel f g
  rw [Program.relabel, Program.relabel, Program.relabel, hfunctions, List.map_map]
  rfl

end Decaf
