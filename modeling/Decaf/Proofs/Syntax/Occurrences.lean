import Decaf.Proofs.Syntax.SideBySide

/-!
# Where the expressions of a program stand

`Program.exprs` lists the expressions of a program in the order in which a walk leaves
them. Here the same list is read off the tree (`Program.exprs_eq`), so that a statement
about all expressions of a program can be proved by induction over it.

The same expression can stand at several places of a program, so what is done to one
occurrence is said with a hole: a program from which one expression is cut out, with
`fill` to put one back. The expressions of a program are exactly those that fill one of
its holes (`Program.mem_exprs_iff`).
-/

namespace Decaf

/-! ## All expressions -/

mutual

/-- An expression with all those inside it, each after the ones inside it. -/
def Expr.parts : Expr → List Expr
  | .literal p t v => [.literal p t v]
  | .location p t x none => [.location p t x none]
  | .location p t x (some i) => i.parts ++ [.location p t x (some i)]
  | .binary p t op l r => l.parts ++ (r.parts ++ [.binary p t op l r])
  | .unary p t op e => e.parts ++ [.unary p t op e]
  | .call p t f args => exprsParts args ++ [.call p t f args]

/-- Expressions with all those inside them. -/
def exprsParts : List Expr → List Expr
  | [] => []
  | e :: es => e.parts ++ exprsParts es

end

mutual

/-- All expressions of a block. -/
def Block.exprs : Block → List Expr
  | ⟨_, statements, _, _⟩ => stmtsExprs statements

/-- All expressions of a statement. -/
def Stmt.exprs : Stmt → List Expr
  | .assign _ target value => target.parts ++ value.parts
  | .call _ e => e.parts
  | .conditional _ test b none => test.parts ++ b.exprs
  | .conditional _ test b (some c) => test.parts ++ (b.exprs ++ c.exprs)
  | .loop _ test b => test.parts ++ b.exprs
  | .ret _ none => []
  | .ret _ (some e) => e.parts
  | .break _ => []
  | .continue _ => []
  | .block _ b => b.exprs

/-- All expressions of statements. -/
def stmtsExprs : List Stmt → List Expr
  | [] => []
  | s :: ss => s.exprs ++ stmtsExprs ss

end

/-- Lists are listed element by element. -/
theorem exprsParts_eq_flatMap (es : List Expr) : exprsParts es = es.flatMap Expr.parts := by
  induction es with
  | nil => rfl
  | cons e es ih => rw [exprsParts, ih, List.flatMap_cons]

theorem stmtsExprs_eq_flatMap (ss : List Stmt) : stmtsExprs ss = ss.flatMap Stmt.exprs := by
  induction ss with
  | nil => rfl
  | cons s ss ih => rw [stmtsExprs, ih, List.flatMap_cons]

/-! ## The walk that collects them -/

namespace Visitor

/-- Collects the expressions that a walk leaves. -/
def collector : Visitor (List Expr) where
  enter _ es := es
  leave node es := match node with
    | .expr e => es ++ [e]
    | _ => es
  infer _ _ := none

/-- Records every step of a walk, in a list. -/
def logger : Visitor (List Visit) where
  enter node visits := visits ++ [.enter node]
  leave node visits := visits ++ [.leave node]
  infer _ _ := none

/-- What is recorded as an array is recorded as a list. -/
theorem recorder_maps_logger : recorder.Maps logger Array.toList :=
  ⟨fun _ _ => (Array.toList_push ..).symm, fun _ _ => (Array.toList_push ..).symm, fun _ _ => rfl⟩

/-- The log holds more than the expressions that are left; those can be picked out of it
afterwards or collected right away. -/
theorem logger_maps_collector : logger.Maps collector (·.filterMap Visit.leftExpr?) := by
  refine ⟨fun node visits => ?_, fun node visits => ?_, fun _ _ => rfl⟩
  · exact (List.filterMap_append.trans (List.append_nil _)).symm
  · refine Eq.trans ?_ List.filterMap_append.symm
    cases node with
    | expr e => rfl
    | _ => exact (List.append_nil _).symm

/-- What was recorded of a walk, down to the expressions that were left. -/
theorem recorder_maps :
    recorder.Maps collector (fun visits => visits.toList.filterMap Visit.leftExpr?) :=
  recorder_maps_logger.trans logger_maps_collector

/-- Leaving an expression is what lists it, behind those inside it. -/
theorem collector_close (e : Expr) (s : List Expr) : collector.close e s = (e, s ++ [e]) := by
  cases e <;> simp [close, collector, Expr.fillType, Expr.withType?, Expr.type?]

/-- Expressions in a row list theirs in a row. Stated with the hypothesis that the induction over
trees will have. -/
theorem collector_exprs_of {es : List Expr}
    (h : ∀ e ∈ es, ∀ s, collector.expr e s = (e, s ++ e.parts)) (s : List Expr) :
    collector.exprs es s = (es, s ++ exprsParts es) := by
  induction es generalizing s with
  | nil => rw [Visitor.exprs, exprsParts, List.append_nil]
  | cons e es ih =>
    rw [Visitor.exprs, h e List.mem_cons_self, ih fun e' he => h e' (List.mem_cons_of_mem e he),
      exprsParts, List.append_assoc]

/-- To collect from an expression is to list its parts. -/
theorem collector_expr (e : Expr) (s : List Expr) : collector.expr e s = (e, s ++ e.parts) := by
  have henter : ∀ x (s : List Expr), collector.enter (.expr x) s = s := fun _ _ => rfl
  induction e using Expr.induction generalizing s with
  | literal p t v => rw [Visitor.expr, henter, collector_close, Expr.parts]
  | scalar p t x => rw [Visitor.expr, henter, collector_close, Expr.parts]
  | element p t x i ih =>
    rw [Visitor.expr, henter, ih, collector_close, Expr.parts, List.append_assoc]
  | binary p t op l r ihl ihr =>
    rw [Visitor.expr, henter, ihl, ihr, collector_close, Expr.parts]
    simp only [List.append_assoc]
  | unary p t op e ih =>
    rw [Visitor.expr, henter, ih, collector_close, Expr.parts, List.append_assoc]
  | call p t f args ih =>
    rw [Visitor.expr, henter, collector_exprs_of ih, collector_close, Expr.parts, List.append_assoc]

/-- Declarations have no expressions in them, nor have parameters. -/
theorem collector_varDecls (ds : List VarDecl) (s : List Expr) : collector.varDecls ds s = s := by
  induction ds with
  | nil => rfl
  | cons d ds ih => exact ih

theorem collector_params (ps : List Param) (s : List Expr) : collector.params ps s = s := by
  induction ps with
  | nil => rfl
  | cons p ps ih => exact ih

theorem collector_stmts_of {ss : List Stmt}
    (h : ∀ x ∈ ss, ∀ s, collector.stmt x s = (x, s ++ x.exprs)) (s : List Expr) :
    collector.stmts ss s = (ss, s ++ stmtsExprs ss) := by
  induction ss generalizing s with
  | nil => rw [Visitor.stmts, stmtsExprs, List.append_nil]
  | cons x ss ih =>
    rw [Visitor.stmts, h x List.mem_cons_self, ih fun y hy => h y (List.mem_cons_of_mem x hy),
      stmtsExprs, List.append_assoc]

/-- To collect from blocks and statements is to list their expressions. -/
theorem collector_block_stmt :
    (∀ (b : Block) (s : List Expr), collector.block b s = (b, s ++ b.exprs)) ∧
    ∀ (x : Stmt) (s : List Expr), collector.stmt x s = (x, s ++ x.exprs) := by
  -- nothing but an expression is collected
  have henter : ∀ node (s : List Expr), collector.enter node s = s := fun _ _ => rfl
  have hstmt : ∀ x (s : List Expr), collector.leave (.stmt x) s = s := fun _ _ => rfl
  have hblock : ∀ b (s : List Expr), collector.leave (.block b) s = s := fun _ _ => rfl
  refine Block.induction ?mk ?assign ?call ?ifThen ?ifElse ?loop ?ret ?brk ?cont ?inner
  case mk =>
    intro locals statements p scope ih s
    rw [Visitor.block, henter, collector_varDecls, collector_stmts_of ih, hblock, Block.exprs]
  case assign =>
    intro p target value s
    rw [Visitor.stmt, henter, collector_expr, collector_expr, hstmt, Stmt.exprs, List.append_assoc]
  case call =>
    intro p e s
    rw [Visitor.stmt, collector_expr, Stmt.exprs]
  case ifThen =>
    intro p test b ihb s
    rw [Visitor.stmt, henter, collector_expr, ihb, hstmt, Stmt.exprs, List.append_assoc]
  case ifElse =>
    intro p test b c ihb ihc s
    rw [Visitor.stmt, henter, collector_expr, ihb, ihc, hstmt, Stmt.exprs]
    simp only [List.append_assoc]
  case loop =>
    intro p test b ihb s
    rw [Visitor.stmt, henter, collector_expr, ihb, hstmt, Stmt.exprs, List.append_assoc]
  case ret =>
    intro p value s
    cases value with
    | none => rw [Visitor.stmt, henter, hstmt, Stmt.exprs, List.append_nil]
    | some e => rw [Visitor.stmt, henter, collector_expr, hstmt, Stmt.exprs]
  case brk =>
    intro p s
    rw [Visitor.stmt, henter, hstmt, Stmt.exprs, List.append_nil]
  case cont =>
    intro p s
    rw [Visitor.stmt, henter, hstmt, Stmt.exprs, List.append_nil]
  case inner =>
    intro p b ihb s
    rw [Visitor.stmt, ihb, Stmt.exprs]

theorem collector_functions (fs : List Function) (s : List Expr) :
    collector.functions fs s = (fs, s ++ fs.flatMap (·.body.exprs)) := by
  induction fs generalizing s with
  | nil => rw [Visitor.functions, List.flatMap_nil, List.append_nil]
  | cons f fs ih =>
    have hf : collector.function f s = (f, s ++ f.body.exprs) := by
      have henter : collector.enter (.function f) s = s := rfl
      rw [Visitor.function, henter, collector_params, collector_block_stmt.1]
      rfl
    rw [Visitor.functions, hf, ih, List.flatMap_cons, List.append_assoc]

end Visitor

/-- The expressions of a program are those of the bodies of its functions. -/
theorem Program.exprs_eq (p : Program) : p.exprs = p.functions.flatMap (·.body.exprs) := by
  have hmap := Visitor.recorder_maps.program p #[]
  have hcollect : Visitor.collector.program p [] = (p, p.functions.flatMap (·.body.exprs)) := by
    have henter : Visitor.collector.enter (.program p) [] = [] := rfl
    rw [Visitor.program, henter, Visitor.collector_varDecls, Visitor.collector_functions,
      List.nil_append]
    rfl
  exact congrArg Prod.snd (hmap.symm.trans hcollect)

/-! ## Holes -/

/-- An expression from which one, it or one inside it, is cut out. -/
inductive Expr.Hole where
  | here
  | index (place : Place) (type? : Option Ty) (name : String) (hole : Expr.Hole)
  | left (place : Place) (type? : Option Ty) (op : BinaryOp) (hole : Expr.Hole) (right : Expr)
  | right (place : Place) (type? : Option Ty) (op : BinaryOp) (left : Expr) (hole : Expr.Hole)
  | operand (place : Place) (type? : Option Ty) (op : UnaryOp) (hole : Expr.Hole)
  | argument (place : Place) (type? : Option Ty) (name : String) (before : List Expr)
      (hole : Expr.Hole) (after : List Expr)

/-- Puts an expression into a hole. -/
def Expr.Hole.fill : Expr.Hole → Expr → Expr
  | .here, e => e
  | .index p t x hole, e => .location p t x (some (hole.fill e))
  | .left p t op hole r, e => .binary p t op (hole.fill e) r
  | .right p t op l hole, e => .binary p t op l (hole.fill e)
  | .operand p t op hole, e => .unary p t op (hole.fill e)
  | .argument p t f before hole after, e => .call p t f (before ++ hole.fill e :: after)

/-- A block from which one statement is cut out. -/
structure Block.Hole where
  locals : List VarDecl
  before : List Stmt
  after : List Stmt
  place : Place
  scope : Option ScopeId

/-- Puts a statement into a block. -/
def Block.Hole.fill (hole : Block.Hole) (s : Stmt) : Block :=
  ⟨hole.locals, hole.before ++ s :: hole.after, hole.place, hole.scope⟩

/-- A statement from which one expression is cut out: one of its own, or one of a
statement in one of its blocks. -/
inductive Stmt.Hole where
  | target (place : Place) (hole : Expr.Hole) (value : Expr)
  | value (place : Place) (target : Expr) (hole : Expr.Hole)
  | call (place : Place) (hole : Expr.Hole)
  | ifTest (place : Place) (hole : Expr.Hole) (thenBlock : Block) (elseBlock : Option Block)
  | loopTest (place : Place) (hole : Expr.Hole) (body : Block)
  | ret (place : Place) (hole : Expr.Hole)
  | thenBlock (place : Place) (test : Expr) (around : Block.Hole) (hole : Stmt.Hole)
      (elseBlock : Option Block)
  | elseBlock (place : Place) (test : Expr) (thenBlock : Block) (around : Block.Hole)
      (hole : Stmt.Hole)
  | body (place : Place) (test : Expr) (around : Block.Hole) (hole : Stmt.Hole)
  | inner (place : Place) (around : Block.Hole) (hole : Stmt.Hole)

/-- Puts an expression into a statement. -/
def Stmt.Hole.fill : Stmt.Hole → Expr → Stmt
  | .target p hole v, e => .assign p (hole.fill e) v
  | .value p x hole, e => .assign p x (hole.fill e)
  | .call p hole, e => .call p (hole.fill e)
  | .ifTest p hole b c, e => .conditional p (hole.fill e) b c
  | .loopTest p hole b, e => .loop p (hole.fill e) b
  | .ret p hole, e => .ret p (some (hole.fill e))
  | .thenBlock p test around hole c, e => .conditional p test (around.fill (hole.fill e)) c
  | .elseBlock p test b around hole, e => .conditional p test b (some (around.fill (hole.fill e)))
  | .body p test around hole, e => .loop p test (around.fill (hole.fill e))
  | .inner p around hole, e => .block p (around.fill (hole.fill e))

/-- A program from which one expression is cut out: it belongs in a statement of the body
of `function`. The functions of `program` and the body of `function` do not count, they are
given by the other fields. -/
structure Program.Hole where
  program : Program
  before : List Function
  function : Function
  around : Block.Hole
  hole : Stmt.Hole
  after : List Function

/-- Puts an expression into a program. -/
def Program.Hole.fill (h : Program.Hole) (e : Expr) : Program :=
  { h.program with
    functions := h.before ++ { h.function with body := h.around.fill (h.hole.fill e) } :: h.after }

/-! ## Every occurrence fills a hole -/

/-- An expression is a part of itself. -/
theorem Expr.mem_parts_self (e : Expr) : e ∈ e.parts := by
  cases e with
  | location p t x index => cases index <;> simp [parts]
  | _ => simp [parts]

/-- What fills a hole is a part of the whole. -/
theorem Expr.Hole.mem_parts_fill (hole : Expr.Hole) (e : Expr) : e ∈ (hole.fill e).parts := by
  induction hole with
  | here => exact e.mem_parts_self
  | index p t x hole ih => exact List.mem_append_left _ ih
  | left p t op hole r ih => exact List.mem_append_left _ ih
  | right p t op l hole ih => exact List.mem_append_right _ (List.mem_append_left _ ih)
  | operand p t op hole ih => exact List.mem_append_left _ ih
  | argument p t f before hole after ih =>
    rw [fill, Expr.parts, exprsParts_eq_flatMap, List.flatMap_append, List.flatMap_cons]
    exact List.mem_append_left _ (List.mem_append_right _ (List.mem_append_left _ ih))

/-- Every part fills a hole: where it stands is found by induction over the whole. -/
theorem Expr.exists_hole (e x : Expr) (h : e ∈ x.parts) : ∃ hole : Expr.Hole, hole.fill e = x := by
  induction x using Expr.induction with
  | literal p t v => exact ⟨.here, List.mem_singleton.mp h⟩
  | scalar p t x => exact ⟨.here, List.mem_singleton.mp h⟩
  | element p t x i ih =>
    rcases List.mem_append.mp h with h | h
    · obtain ⟨hole, hfill⟩ := ih h
      exact ⟨.index p t x hole, by rw [Hole.fill, hfill]⟩
    · exact ⟨.here, List.mem_singleton.mp h⟩
  | binary p t op l r ihl ihr =>
    rcases List.mem_append.mp h with h | h
    · obtain ⟨hole, hfill⟩ := ihl h
      exact ⟨.left p t op hole r, by rw [Hole.fill, hfill]⟩
    · rcases List.mem_append.mp h with h | h
      · obtain ⟨hole, hfill⟩ := ihr h
        exact ⟨.right p t op l hole, by rw [Hole.fill, hfill]⟩
      · exact ⟨.here, List.mem_singleton.mp h⟩
  | unary p t op x ih =>
    rcases List.mem_append.mp h with h | h
    · obtain ⟨hole, hfill⟩ := ih h
      exact ⟨.operand p t op hole, by rw [Hole.fill, hfill]⟩
    · exact ⟨.here, List.mem_singleton.mp h⟩
  | call p t f args ih =>
    rcases List.mem_append.mp h with h | h
    · rw [exprsParts_eq_flatMap] at h
      obtain ⟨arg, harg, h⟩ := List.mem_flatMap.mp h
      obtain ⟨hole, hfill⟩ := ih arg harg h
      obtain ⟨before, after, rfl⟩ := List.append_of_mem harg
      exact ⟨.argument p t f before hole after, by rw [Hole.fill, hfill]⟩
    · exact ⟨.here, List.mem_singleton.mp h⟩

/-- What stands in a statement stands in a block around it. -/
theorem Block.Hole.mem_exprs_fill (hole : Block.Hole) {s : Stmt} {e : Expr} (h : e ∈ s.exprs) :
    e ∈ (hole.fill s).exprs := by
  rw [fill, Block.exprs, stmtsExprs_eq_flatMap, List.flatMap_append, List.flatMap_cons]
  exact List.mem_append_right _ (List.mem_append_left _ h)

/-- What fills a hole of a statement is one of its expressions. -/
theorem Stmt.Hole.mem_exprs_fill (hole : Stmt.Hole) (e : Expr) : e ∈ (hole.fill e).exprs := by
  induction hole with
  | target p hole v => exact List.mem_append_left _ (hole.mem_parts_fill e)
  | value p x hole => exact List.mem_append_right _ (hole.mem_parts_fill e)
  | call p hole => exact hole.mem_parts_fill e
  | ifTest p hole b c =>
    cases c <;> exact List.mem_append_left _ (hole.mem_parts_fill e)
  | loopTest p hole b => exact List.mem_append_left _ (hole.mem_parts_fill e)
  | ret p hole => exact hole.mem_parts_fill e
  | thenBlock p test around hole c ih =>
    cases c with
    | none => exact List.mem_append_right _ (around.mem_exprs_fill ih)
    | some c => exact List.mem_append_right _ (List.mem_append_left _ (around.mem_exprs_fill ih))
  | elseBlock p test b around hole ih =>
    exact List.mem_append_right _ (List.mem_append_right _ (around.mem_exprs_fill ih))
  | body p test around hole ih => exact List.mem_append_right _ (around.mem_exprs_fill ih)
  | inner p around hole ih => exact around.mem_exprs_fill ih

/-- Every expression of a block or a statement fills a hole. -/
theorem block_stmt_exists_hole (e : Expr) :
    (∀ b : Block, e ∈ b.exprs →
      ∃ (around : Block.Hole) (hole : Stmt.Hole), around.fill (hole.fill e) = b) ∧
    ∀ s : Stmt, e ∈ s.exprs → ∃ hole : Stmt.Hole, hole.fill e = s := by
  refine Block.induction ?mk ?assign ?call ?ifThen ?ifElse ?loop ?ret ?brk ?cont ?inner
  case mk =>
    intro locals statements p scope ih h
    rw [Block.exprs, stmtsExprs_eq_flatMap] at h
    obtain ⟨s, hs, h⟩ := List.mem_flatMap.mp h
    obtain ⟨hole, hfill⟩ := ih s hs h
    obtain ⟨before, after, rfl⟩ := List.append_of_mem hs
    exact ⟨⟨locals, before, after, p, scope⟩, hole, by rw [hfill]; rfl⟩
  case assign =>
    intro p target value h
    rcases List.mem_append.mp h with h | h
    · obtain ⟨hole, hfill⟩ := e.exists_hole target h
      exact ⟨.target p hole value, by rw [Stmt.Hole.fill, hfill]⟩
    · obtain ⟨hole, hfill⟩ := e.exists_hole value h
      exact ⟨.value p target hole, by rw [Stmt.Hole.fill, hfill]⟩
  case call =>
    intro p x h
    obtain ⟨hole, hfill⟩ := e.exists_hole x h
    exact ⟨.call p hole, by rw [Stmt.Hole.fill, hfill]⟩
  case ifThen =>
    intro p test b ihb h
    rcases List.mem_append.mp h with h | h
    · obtain ⟨hole, hfill⟩ := e.exists_hole test h
      exact ⟨.ifTest p hole b none, by rw [Stmt.Hole.fill, hfill]⟩
    · obtain ⟨around, hole, hfill⟩ := ihb h
      exact ⟨.thenBlock p test around hole none, by rw [Stmt.Hole.fill, hfill]⟩
  case ifElse =>
    intro p test b c ihb ihc h
    rcases List.mem_append.mp h with h | h
    · obtain ⟨hole, hfill⟩ := e.exists_hole test h
      exact ⟨.ifTest p hole b (some c), by rw [Stmt.Hole.fill, hfill]⟩
    · rcases List.mem_append.mp h with h | h
      · obtain ⟨around, hole, hfill⟩ := ihb h
        exact ⟨.thenBlock p test around hole (some c), by rw [Stmt.Hole.fill, hfill]⟩
      · obtain ⟨around, hole, hfill⟩ := ihc h
        exact ⟨.elseBlock p test b around hole, by rw [Stmt.Hole.fill, hfill]⟩
  case loop =>
    intro p test b ihb h
    rcases List.mem_append.mp h with h | h
    · obtain ⟨hole, hfill⟩ := e.exists_hole test h
      exact ⟨.loopTest p hole b, by rw [Stmt.Hole.fill, hfill]⟩
    · obtain ⟨around, hole, hfill⟩ := ihb h
      exact ⟨.body p test around hole, by rw [Stmt.Hole.fill, hfill]⟩
  case ret =>
    intro p value h
    cases value with
    | none => cases h
    | some x =>
      obtain ⟨hole, hfill⟩ := e.exists_hole x h
      exact ⟨.ret p hole, by rw [Stmt.Hole.fill, hfill]⟩
  case brk =>
    intro p h
    cases h
  case cont =>
    intro p h
    cases h
  case inner =>
    intro p b ihb h
    obtain ⟨around, hole, hfill⟩ := ihb h
    exact ⟨.inner p around hole, by rw [Stmt.Hole.fill, hfill]⟩

/-- The expressions of a program are what its holes are filled with. -/
theorem Program.mem_exprs_iff (p : Program) (e : Expr) :
    e ∈ p.exprs ↔ ∃ hole : Program.Hole, hole.fill e = p := by
  rw [Program.exprs_eq]
  constructor
  · intro h
    obtain ⟨f, hf, h⟩ := List.mem_flatMap.mp h
    obtain ⟨around, hole, hfill⟩ := (block_stmt_exists_hole e).1 f.body h
    obtain ⟨before, after, hsplit⟩ := List.append_of_mem hf
    exact ⟨⟨p, before, f, around, hole, after⟩, by rw [Hole.fill, hfill, ← hsplit]⟩
  · rintro ⟨h, rfl⟩
    refine List.mem_flatMap.mpr ⟨_, List.mem_append_right _ List.mem_cons_self, ?_⟩
    exact h.around.mem_exprs_fill (h.hole.mem_exprs_fill e)

end Decaf
