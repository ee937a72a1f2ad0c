import Decaf.Check.Analysis
import Decaf.Proofs.Syntax.Tree

/-!
# The analysis without its state

The analysis is a walk with a state, but all it needs to know at a node is the
innermost scope and the innermost function: the `Context`. This file restates the
walk as plain functions of context and tree. `Expr.typed`, `Block.typed` and so on
are the trees with their types filled in, `Expr.mistakes`, `Block.mistakes` and so on
what is found in them, in order.

The walk does exactly this and nothing else (`visitor_expr`, `visitor_block_stmt`,
`visitor_program`): from any state it gives the typed tree, adds the mistakes to
those found before, and leaves the scopes and functions it is inside of as they
were. Nothing is assumed of the tree or the tables; types may be there beforehand
and scopes may be missing.
-/

namespace Decaf

/-! ## Contexts -/

/-- What the analysis knows at a node: the innermost scope, and the innermost
function with the number of loops around the node. -/
structure Context where
  scope : Option ScopeId
  function : Option FunctionContext

namespace Context

/-- The symbol that a name stands for. -/
def lookup (c : Context) (tables : Tables) (name : String) : Option Symbol :=
  c.scope.bind (tables.lookup · name)

/-- Inside a construct, which may have a scope of its own. -/
def within (c : Context) (scope : Option ScopeId) : Context :=
  { c with scope := scope.or c.scope }

/-- Inside the body of a loop. -/
def inLoopBody (c : Context) : Context :=
  { c with function := c.function.map fun f => { f with loopDepth := f.loopDepth + 1 } }

/-- The return type of the innermost function. -/
def returnType? (c : Context) : Option Ty :=
  c.function.map (·.returnType)

/-- Whether the innermost function has a loop around the node. -/
def inLoop (c : Context) : Bool :=
  c.function.any (0 < ·.loopDepth)

end Context

namespace Analysis

/-- The context of a state. -/
def context (s : Analysis) : Context :=
  ⟨s.scopes.head?, s.functions.head?⟩

theorem lookup_eq (s : Analysis) (tables : Tables) :
    s.lookup tables = s.context.lookup tables := rfl

/-- Reports add up. -/
theorem report_report (s : Analysis) (ds es : List Diagnostic) :
    (s.report ds).report es = s.report (ds ++ es) := by
  rw [report, report, report, ErrorList.reportAll, ErrorList.reportAll, ErrorList.reportAll,
    List.foldl_append]

theorem context_report (s : Analysis) (ds : List Diagnostic) :
    (s.report ds).context = s.context := rfl

theorem lookup_report (s : Analysis) (ds : List Diagnostic) (tables : Tables) :
    (s.report ds).lookup tables = s.lookup tables := rfl

end Analysis

/-! ## Expressions -/

/-- Writes the type that the rules give to an expression. -/
def Expr.settle (look : String → Option Symbol) (e : Expr) : Expr :=
  e.fillType (some (Rules.exprType look e))

mutual

/-- An expression with the types filled in. -/
def Expr.typed (look : String → Option Symbol) : Expr → Expr
  | .literal p t v => (Expr.literal p t v).settle look
  | .location p t x none => (Expr.location p t x none).settle look
  | .location p t x (some i) => (Expr.location p t x (some (i.typed look))).settle look
  | .binary p t op l r => (Expr.binary p t op (l.typed look) (r.typed look)).settle look
  | .unary p t op e => (Expr.unary p t op (e.typed look)).settle look
  | .call p t f args => (Expr.call p t f (typedExprs look args)).settle look

/-- Expressions with the types filled in. -/
def typedExprs (look : String → Option Symbol) : List Expr → List Expr
  | [] => []
  | e :: es => e.typed look :: typedExprs look es

end

mutual

/-- What is found in an expression: first what is wrong inside it, then what is
wrong with it. -/
def Expr.mistakes (look : String → Option Symbol) : Expr → List Diagnostic
  | .literal p t v => Rules.expr look (.literal p t v)
  | .location p t x none => Rules.expr look (.location p t x none)
  | .location p t x (some i) =>
    i.mistakes look ++ Rules.expr look (.location p t x (some (i.typed look)))
  | .binary p t op l r =>
    l.mistakes look ++ (r.mistakes look ++
      Rules.expr look (.binary p t op (l.typed look) (r.typed look)))
  | .unary p t op e => e.mistakes look ++ Rules.expr look (.unary p t op (e.typed look))
  | .call p t f args =>
    exprsMistakes look args ++ Rules.expr look (.call p t f (typedExprs look args))

/-- What is found in expressions. -/
def exprsMistakes (look : String → Option Symbol) : List Expr → List Diagnostic
  | [] => []
  | e :: es => e.mistakes look ++ exprsMistakes look es

end

theorem typedExprs_eq_map (look : String → Option Symbol) (es : List Expr) :
    typedExprs look es = es.map (·.typed look) := by
  induction es with
  | nil => rfl
  | cons e es ih => rw [typedExprs, ih, List.map_cons]

theorem exprsMistakes_eq_flatMap (look : String → Option Symbol) (es : List Expr) :
    exprsMistakes look es = es.flatMap (·.mistakes look) := by
  induction es with
  | nil => rfl
  | cons e es ih => rw [exprsMistakes, ih, List.flatMap_cons]

namespace Analysis

variable {tables : Tables}

/-- Leaving an expression is where its rule is applied and its type is settled. -/
theorem visitor_close (e : Expr) (s : Analysis) :
    (visitor tables).close e s =
      (e.settle (s.lookup tables), s.report (Rules.expr (s.lookup tables) e)) :=
  rfl

/-- Expressions in a row, if the walk does to each what is claimed. -/
theorem visitor_exprs_of {es : List Expr}
    (h : ∀ e ∈ es, ∀ s, (visitor tables).expr e s =
      (e.typed (s.lookup tables), s.report (e.mistakes (s.lookup tables)))) (s : Analysis) :
    (visitor tables).exprs es s =
      (typedExprs (s.lookup tables) es, s.report (exprsMistakes (s.lookup tables) es)) := by
  induction es generalizing s with
  | nil => rfl
  | cons e es ih =>
    rw [Visitor.exprs, h e List.mem_cons_self, ih fun e' he => h e' (List.mem_cons_of_mem e he),
      report_report]
    rfl

/-- The walk of an expression fills in its types and reports what is found in it. -/
theorem visitor_expr (e : Expr) (s : Analysis) :
    (visitor tables).expr e s =
      (e.typed (s.lookup tables), s.report (e.mistakes (s.lookup tables))) := by
  induction e using Expr.induction generalizing s with
  | literal p t v => rw [Visitor.expr, visitor_close, Expr.typed, Expr.mistakes]; rfl
  | scalar p t x => rw [Visitor.expr, visitor_close, Expr.typed, Expr.mistakes]; rfl
  | element p t x i ih =>
    rw [Visitor.expr, ih, visitor_close, Expr.typed, Expr.mistakes, lookup_report, report_report]
    rfl
  | binary p t op l r ihl ihr =>
    rw [Visitor.expr, ihl, ihr, visitor_close, Expr.typed, Expr.mistakes, lookup_report,
      lookup_report, report_report, report_report, List.append_assoc]
    rfl
  | unary p t op e ih =>
    rw [Visitor.expr, ih, visitor_close, Expr.typed, Expr.mistakes, lookup_report, report_report]
    rfl
  | call p t f args ih =>
    rw [Visitor.expr, visitor_exprs_of ih, visitor_close, Expr.typed, Expr.mistakes, lookup_report,
      report_report]
    rfl

end Analysis

/-! ## Blocks and statements -/

/-- What is found on entering a construct: the duplicates of its scope, if it has
one. -/
def scopeMistakes (tables : Tables) (scope : Option ScopeId) : List Diagnostic :=
  match scope.bind tables.scope? with
  | some s => Rules.duplicates s
  | none => []

mutual

/-- A block with the types filled in. -/
def Block.typed (tables : Tables) (c : Context) : Block → Block
  | ⟨locals, statements, place, scope⟩ =>
    ⟨locals, typedStmts tables (c.within scope) statements, place, scope⟩

/-- A statement with the types filled in. -/
def Stmt.typed (tables : Tables) (c : Context) : Stmt → Stmt
  | .assign p target value =>
    .assign p (target.typed (c.lookup tables)) (value.typed (c.lookup tables))
  | .call p e => .call p (e.typed (c.lookup tables))
  | .conditional p test b none =>
    .conditional p (test.typed (c.lookup tables)) (b.typed tables c) none
  | .conditional p test b (some d) =>
    .conditional p (test.typed (c.lookup tables)) (b.typed tables c) (some (d.typed tables c))
  | .loop p test b => .loop p (test.typed (c.lookup tables)) (b.typed tables c.inLoopBody)
  | .ret p value => .ret p (value.map (·.typed (c.lookup tables)))
  | .break p => .break p
  | .continue p => .continue p
  | .block p b => .block p (b.typed tables c)

/-- Statements with the types filled in. -/
def typedStmts (tables : Tables) (c : Context) : List Stmt → List Stmt
  | [] => []
  | s :: ss => s.typed tables c :: typedStmts tables c ss

end

mutual

/-- What is found in a block: the duplicates among its variables, what is wrong with
the variables, and what is wrong in its statements. -/
def Block.mistakes (tables : Tables) (c : Context) : Block → List Diagnostic
  | ⟨locals, statements, _, scope⟩ =>
    scopeMistakes tables scope ++ (locals.flatMap Rules.varDecl ++
      stmtsMistakes tables (c.within scope) statements)

/-- What is found in a statement: first what is wrong inside it, then what is wrong
with it. -/
def Stmt.mistakes (tables : Tables) (c : Context) : Stmt → List Diagnostic
  | .assign p target value =>
    target.mistakes (c.lookup tables) ++ (value.mistakes (c.lookup tables) ++
      Rules.assignment p (target.typed (c.lookup tables)) (value.typed (c.lookup tables)))
  | .call _ e => e.mistakes (c.lookup tables)
  | .conditional p test b none =>
    test.mistakes (c.lookup tables) ++ (b.mistakes tables c ++
      Rules.condition p (test.typed (c.lookup tables)))
  | .conditional p test b (some d) =>
    test.mistakes (c.lookup tables) ++ (b.mistakes tables c ++ (d.mistakes tables c ++
      Rules.condition p (test.typed (c.lookup tables))))
  | .loop p test b =>
    test.mistakes (c.lookup tables) ++ (b.mistakes tables c.inLoopBody ++
      Rules.condition p (test.typed (c.lookup tables)))
  | .ret p none => Rules.returned c.returnType? p none
  | .ret p (some e) =>
    e.mistakes (c.lookup tables) ++
      Rules.returned c.returnType? p (some (e.typed (c.lookup tables)))
  | .break p => Rules.insideLoop c.inLoop p
  | .continue p => Rules.insideLoop c.inLoop p
  | .block _ b => b.mistakes tables c

/-- What is found in statements. -/
def stmtsMistakes (tables : Tables) (c : Context) : List Stmt → List Diagnostic
  | [] => []
  | s :: ss => s.mistakes tables c ++ stmtsMistakes tables c ss

end

theorem typedStmts_eq_map (tables : Tables) (c : Context) (ss : List Stmt) :
    typedStmts tables c ss = ss.map (·.typed tables c) := by
  induction ss with
  | nil => rfl
  | cons s ss ih => rw [typedStmts, ih, List.map_cons]

theorem stmtsMistakes_eq_flatMap (tables : Tables) (c : Context) (ss : List Stmt) :
    stmtsMistakes tables c ss = ss.flatMap (·.mistakes tables c) := by
  induction ss with
  | nil => rfl
  | cons s ss ih => rw [stmtsMistakes, ih, List.flatMap_cons]

namespace Analysis

variable {tables : Tables}

/-- Going into a construct with a scope of its own, as far as the stack of scopes is
concerned. -/
def inside (s : Analysis) (scope : Option ScopeId) : Analysis :=
  { s with scopes := scope.toList ++ s.scopes }

/-- Entering a scope makes it the innermost one, if there is one. -/
theorem context_inside (s : Analysis) (scope : Option ScopeId) :
    (s.inside scope).context = s.context.within scope := by
  cases scope <;> rfl

/-- Entering a scope reports its duplicates, and nothing else is changed. -/
theorem enterScope_eq (s : Analysis) (scope : Option ScopeId) :
    s.enterScope tables scope = (s.inside scope).report (scopeMistakes tables scope) := by
  cases scope with
  | none => rfl
  | some id =>
    rw [enterScope, scopeMistakes, Option.bind_some]
    cases tables.scope? id <;> rfl

/-- Leaving a scope undoes entering it, whatever was reported in between. -/
theorem leaveScope_inside (s : Analysis) (scope : Option ScopeId) (ds : List Diagnostic) :
    ((s.inside scope).report ds).leaveScope scope = s.report ds := by
  cases scope <;> rfl

/-- Declarations are checked one by one; their scope was built before. -/
theorem visitor_varDecls (ds : List VarDecl) (s : Analysis) :
    (visitor tables).varDecls ds s = s.report (ds.flatMap Rules.varDecl) := by
  induction ds generalizing s with
  | nil => rfl
  | cons d ds ih =>
    have h : (visitor tables).varDecls (d :: ds) s =
        (visitor tables).varDecls ds (s.report (Rules.varDecl d)) := rfl
    rw [h, ih, report_report, List.flatMap_cons]

theorem visitor_params (ps : List Param) (s : Analysis) :
    (visitor tables).params ps s = s.report (ps.flatMap Rules.param) := by
  induction ps generalizing s with
  | nil => rfl
  | cons p ps ih =>
    have h : (visitor tables).params (p :: ps) s =
        (visitor tables).params ps (s.report (Rules.param p)) := rfl
    rw [h, ih, report_report, List.flatMap_cons]

theorem visitor_stmts_of {ss : List Stmt}
    (h : ∀ x ∈ ss, ∀ s, (visitor tables).stmt x s =
      (x.typed tables s.context, s.report (x.mistakes tables s.context))) (s : Analysis) :
    (visitor tables).stmts ss s =
      (typedStmts tables s.context ss, s.report (stmtsMistakes tables s.context ss)) := by
  induction ss generalizing s with
  | nil => rfl
  | cons x ss ih =>
    rw [Visitor.stmts, h x List.mem_cons_self, ih fun y hy => h y (List.mem_cons_of_mem x hy),
      report_report, context_report]
    rfl

/-- One loop deeper and back again, with something found in between. -/
theorem mapDepth_report_mapDepth (s : Analysis) (ds : List Diagnostic) :
    ((s.mapDepth (· + 1)).report ds).mapDepth (· - 1) = s.report ds := by
  obtain ⟨scopes, functions, errors⟩ := s
  cases functions <;> rfl

/-- To count one more loop is to be in the body of a loop. -/
theorem context_mapDepth (s : Analysis) :
    (s.mapDepth (· + 1)).context = s.context.inLoopBody := by
  obtain ⟨scopes, functions, errors⟩ := s
  cases functions <;> rfl

/-- The condition of a loop is checked on leaving it, when the loop is no longer counted. -/
theorem leave_loop (p : Place) (test : Expr) (b : Block) (s : Analysis) :
    (visitor tables).leave (.stmt (.loop p test b)) s =
      (s.mapDepth (· - 1)).report (Rules.condition p test) :=
  rfl

/-- The walk of a block or a statement fills in its types and reports what is found
in it; scopes and functions are as before. -/
theorem visitor_block_stmt :
    (∀ (b : Block) (s : Analysis), (visitor tables).block b s =
      (b.typed tables s.context, s.report (b.mistakes tables s.context))) ∧
    ∀ (x : Stmt) (s : Analysis), (visitor tables).stmt x s =
      (x.typed tables s.context, s.report (x.mistakes tables s.context)) := by
  refine Block.induction ?mk ?assign ?call ?ifThen ?ifElse ?loop ?ret ?brk ?cont ?inner
  case mk =>
    intro locals statements p scope ih s
    have henter : (visitor tables).enter (.block ⟨locals, statements, p, scope⟩) s =
        (s.inside scope).report (scopeMistakes tables scope) := enterScope_eq s scope
    rw [Visitor.block, henter, visitor_varDecls, visitor_stmts_of ih, report_report, report_report,
      context_report, context_inside, Block.typed, Block.mistakes, List.append_assoc]
    exact congrArg (Prod.mk _) (leaveScope_inside s scope _)
  case assign =>
    intro p target value s
    have henter : (visitor tables).enter (.stmt (.assign p target value)) s = s := rfl
    rw [Visitor.stmt, henter, visitor_expr, visitor_expr, lookup_report, report_report, lookup_eq,
      Stmt.typed, Stmt.mistakes, ← List.append_assoc]
    exact congrArg (Prod.mk _) (report_report s _ _)
  case call =>
    intro p e s
    rw [Visitor.stmt, visitor_expr, lookup_eq, Stmt.typed, Stmt.mistakes]
  case ifThen =>
    intro p test b ihb s
    have henter : (visitor tables).enter (.stmt (.conditional p test b none)) s = s := rfl
    rw [Visitor.stmt, henter, visitor_expr, ihb, context_report, report_report, lookup_eq,
      Stmt.typed, Stmt.mistakes, ← List.append_assoc]
    exact congrArg (Prod.mk _) (report_report s _ _)
  case ifElse =>
    intro p test b d ihb ihd s
    have henter : (visitor tables).enter (.stmt (.conditional p test b (some d))) s = s := rfl
    rw [Visitor.stmt, henter, visitor_expr, ihb, ihd, context_report, report_report, context_report,
      report_report, lookup_eq, Stmt.typed, Stmt.mistakes, ← List.append_assoc, ← List.append_assoc]
    exact congrArg (Prod.mk _) (report_report s _ _)
  case loop =>
    intro p test b ihb s
    have henter : (visitor tables).enter (.stmt (.loop p test b)) s = s.mapDepth (· + 1) := rfl
    have hlook : (s.mapDepth (· + 1)).lookup tables = s.context.lookup tables := by
      rw [lookup_eq, context_mapDepth]
      rfl
    rw [Visitor.stmt, henter, visitor_expr, ihb, context_report, context_mapDepth, report_report,
      hlook, Stmt.typed, Stmt.mistakes, ← List.append_assoc]
    refine congrArg (Prod.mk _) ?_
    -- the loop is left before its condition is judged
    rw [leave_loop, mapDepth_report_mapDepth, report_report]
  case ret =>
    intro p value s
    cases value with
    | none =>
      rw [Visitor.stmt, Stmt.typed, Stmt.mistakes]
      rfl
    | some e =>
      have henter : (visitor tables).enter (.stmt (.ret p (some e))) s = s := rfl
      rw [Visitor.stmt, henter, visitor_expr, lookup_eq, Stmt.typed, Stmt.mistakes]
      exact congrArg (Prod.mk _) (report_report s _ _)
  case brk =>
    intro p s
    rw [Visitor.stmt, Stmt.typed, Stmt.mistakes]
    rfl
  case cont =>
    intro p s
    rw [Visitor.stmt, Stmt.typed, Stmt.mistakes]
    rfl
  case inner =>
    intro p b ihb s
    rw [Visitor.stmt, ihb, Stmt.typed, Stmt.mistakes]

end Analysis

/-! ## Functions and programs -/

/-- Inside a function, outside of any loop. -/
def Function.context (f : Function) (c : Context) : Context :=
  ⟨f.scope.or c.scope, some ⟨f.returnType, 0⟩⟩

/-- A function with the types filled in. -/
def Function.typed (tables : Tables) (c : Context) (f : Function) : Function :=
  { f with body := f.body.typed tables (f.context c) }

/-- What is found in a function: the duplicates among its parameters, what is wrong
with the parameters, and what is wrong in its body. -/
def Function.mistakes (tables : Tables) (c : Context) (f : Function) : List Diagnostic :=
  scopeMistakes tables f.scope ++ (f.params.flatMap Rules.param ++
    f.body.mistakes tables (f.context c))

/-- A program with the types filled in. -/
def Program.typed (tables : Tables) (c : Context) (p : Program) : Program :=
  { p with functions := p.functions.map (·.typed tables (c.within p.scope)) }

/-- What is found in a program: the duplicates among its variables and functions, what
is wrong with the variables and in the functions, and what is wrong with `main`. -/
def Program.mistakes (tables : Tables) (c : Context) (p : Program) : List Diagnostic :=
  scopeMistakes tables p.scope ++ (p.globals.flatMap Rules.varDecl ++
    (p.functions.flatMap (·.mistakes tables (c.within p.scope)) ++
      Rules.entryPoint ((c.within p.scope).lookup tables "main") p.place))

namespace Analysis

variable {tables : Tables}

/-- Going into a function, as far as the stacks are concerned. -/
def insideFunction (s : Analysis) (f : Function) : Analysis :=
  { s.inside f.scope with functions := ⟨f.returnType, 0⟩ :: s.functions }

theorem context_insideFunction (s : Analysis) (f : Function) :
    (s.insideFunction f).context = f.context s.context := by
  rw [Function.context]
  cases hf : f.scope <;> simp [insideFunction, inside, context, hf]

/-- A function is entered together with its scope. -/
theorem enter_function (f : Function) (s : Analysis) :
    (visitor tables).enter (.function f) s =
      (s.insideFunction f).report (scopeMistakes tables f.scope) := by
  have h : (visitor tables).enter (.function f) s =
      { s.enterScope tables f.scope with
        functions := ⟨f.returnType, 0⟩ :: (s.enterScope tables f.scope).functions } := rfl
  rw [h, enterScope_eq]
  rfl

/-- It is left together with its scope, also if the tree that is left differs in its types from
the one that was entered. -/
theorem leave_function (f g : Function) (s : Analysis) (ds : List Diagnostic)
    (hg : g.scope = f.scope) :
    (visitor tables).leave (.function g) ((s.insideFunction f).report ds) = s.report ds := by
  have h : (visitor tables).leave (.function g) ((s.insideFunction f).report ds) =
      ((s.inside f.scope).report ds).leaveScope g.scope := rfl
  rw [h, hg, leaveScope_inside]

/-- From any state the walk types a function and reports its mistakes. -/
theorem visitor_function (f : Function) (s : Analysis) :
    (visitor tables).function f s =
      (f.typed tables s.context, s.report (f.mistakes tables s.context)) := by
  rw [Visitor.function, enter_function, visitor_params, visitor_block_stmt.1, report_report,
    report_report, context_report, context_insideFunction, List.append_assoc]
  exact congrArg (Prod.mk _) (leave_function f _ s _ rfl)

theorem visitor_functions (fs : List Function) (s : Analysis) :
    (visitor tables).functions fs s =
      (fs.map (·.typed tables s.context), s.report (fs.flatMap (·.mistakes tables s.context))) := by
  induction fs generalizing s with
  | nil => rfl
  | cons f fs ih =>
    rw [Visitor.functions, visitor_function, ih, report_report, context_report]
    rfl

/-- The entry point is looked up on leaving the program, while its scope is still open. -/
theorem leave_program (p : Program) (s : Analysis) :
    (visitor tables).leave (.program p) s =
      (s.report (Rules.entryPoint (s.lookup tables "main") p.place)).leaveScope p.scope :=
  rfl

/-- From any state the walk types a program and reports its mistakes. The analysis is then a
function of the tree. -/
theorem visitor_program (p : Program) (s : Analysis) :
    (visitor tables).program p s =
      (p.typed tables s.context, s.report (p.mistakes tables s.context)) := by
  have henter : (visitor tables).enter (.program p) s =
      (s.inside p.scope).report (scopeMistakes tables p.scope) := enterScope_eq s p.scope
  rw [Visitor.program, henter, visitor_varDecls, visitor_functions, report_report, report_report,
    context_report, context_inside, Program.mistakes, ← List.append_assoc, ← List.append_assoc]
  refine congrArg (Prod.mk _) ?_
  rw [leave_program, report_report, leaveScope_inside, lookup_report, lookup_eq, context_inside]

end Analysis

/-- The analysis of a program gives the program with its types filled in, and what is
found in it. -/
theorem analyze_eq (tables : Tables) (p : Program) :
    analyze tables p = (p.typed tables ⟨none, none⟩,
      ErrorList.empty.reportAll (p.mistakes tables ⟨none, none⟩)) := by
  rw [analyze, Analysis.visitor_program]
  rfl

end Decaf
