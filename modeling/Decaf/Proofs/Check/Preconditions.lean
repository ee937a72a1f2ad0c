import Decaf.Session
import Decaf.Proofs.Check.Positions
import Decaf.Proofs.Scope.Building
import Decaf.Proofs.Scope.Mirror
import Decaf.Proofs.Syntax.Climbing
import Decaf.Proofs.Syntax.Slices

/-!
# An analysis whose operations must apply

The analysis goes by what an earlier pass has written into the tree, and falls back on
something harmless where that is missing: a scope that is not there has no duplicates, a
loop that was never entered is left all the same. Here is the analysis without fallbacks,
a walk whose state is lost (`none`) at the first operation that does not apply: to enter a
scope that the tables do not have, to look a name up where a scope or a symbol is missing,
to leave more loops than were entered.

On the tables that were built for a program the state is never lost
(`analyze?_eq`). The induction over the tree carries that the innermost scope is in the
tables (`Grounded`) and that the scopes of the constructs still to be entered are
(`Placed`); that loops are counted back only where they were counted up follows from the
shape of the walk.
-/

namespace Decaf

/-! ## The analysis without fallbacks -/

namespace Analysis

/-- Enters the scope of a construct, if it has one, which must be in the tables. -/
def enterScope? (a : Analysis) (t : Tables) (scope : Option ScopeId) : Option Analysis :=
  match scope with
  | none => some a
  | some id =>
    (t.scope? id).map fun s => { a with scopes := id :: a.scopes }.report (Rules.duplicates s)

/-- Leaves a loop of the innermost function, which must be inside one. -/
def leaveLoop? (a : Analysis) : Option Analysis :=
  match a.functions with
  | [] => some a
  | c :: rest =>
    match c.loopDepth with
    | 0 => none
    | depth + 1 => some { a with functions := { c with loopDepth := depth } :: rest }

/-- The symbol that a name stands for in the innermost scope, if there is one. -/
def resolve? (a : Analysis) (t : Tables) (x : String) : Option (Option Symbol) :=
  match a.scopes.head? with
  | none => some none
  | some id => t.resolve? id x

/-- The symbol of the name that an expression begins with, if it has one. -/
def symbolOf? (a : Analysis) (t : Tables) : Expr → Option (Option Symbol)
  | .location _ _ x _ => a.resolve? t x
  | .call _ _ f _ => a.resolve? t f
  | .literal .. | .binary .. | .unary .. => some none

/-- What entering a node does. -/
def enter? (t : Tables) : Node → Analysis → Option Analysis
  | .program p, a => a.enterScope? t p.scope
  | .function f, a => do
    let a ← a.enterScope? t f.scope
    return { a with functions := ⟨f.returnType, 0⟩ :: a.functions }
  | .block b, a => a.enterScope? t b.scope
  | .stmt (.loop ..), a => some (a.mapDepth (· + 1))
  | _, a => some a

/-- What leaving a node does. -/
def leave? (t : Tables) : Node → Analysis → Option Analysis
  | .program p, a => do
    let main ← a.resolve? t "main"
    return (a.report (Rules.entryPoint main p.place)).leaveScope p.scope
  | .stmt (.loop p test b), a => do
    let a ← a.leaveLoop?
    return a.report (Rules.stmt a.returnType? a.inLoop (.loop p test b))
  | .expr e, a => do
    let symbol ← a.symbolOf? t e
    return a.report (Rules.expr (fun _ => symbol) e)
  | node, a => some (leave t node a)

/-- The type of an expression. -/
def infer? (t : Tables) (e : Expr) (a : Analysis) : Option Ty := do
  let symbol ← a.symbolOf? t e
  return Rules.exprType (fun _ => symbol) e

/-- The analysis without fallbacks as a walk. -/
def strict (t : Tables) : Visitor (Option Analysis) where
  enter node s := s.bind (enter? t node)
  leave node s := s.bind (leave? t node)
  infer e s := s.bind (infer? t e)

end Analysis

/-- Applies the rules to a program with the tables built for it, without fallbacks. -/
def analyze? (t : Tables) (p : Program) : Option (Program × ErrorList) := do
  let result := (Analysis.strict t).program p (some .start)
  let last ← result.2
  return (result.1, last.errors)

/-- Scopes and analysis of a program, without fallbacks. -/
def checkProgram? (p : Program) : Option Checked := do
  let built ← p.withScopes?
  let analyzed ← analyze? built.2 built.1
  return ⟨analyzed.1, built.2, analyzed.2⟩

/-! ## Expressions -/

namespace Analysis

variable {t : Tables}

/-- The innermost scope, if there is one, is in tables that were made by calls. -/
structure Grounded (t : Tables) (a : Analysis) : Prop where
  reached : t.Reached
  lt_size : ∀ id, a.scopes.head? = some id → id.index < t.size

/-- From a scope in the tables the search meets every scope and every symbol it asks for. -/
theorem Grounded.resolve?_eq {a : Analysis} (h : a.Grounded t) (x : String) :
    a.resolve? t x = some (a.lookup t x) := by
  unfold resolve? lookup
  cases htop : a.scopes.head? with
  | none => rfl
  | some id => exact h.reached.resolve?_eq x id (h.lt_size id htop)

/-- Reporting leaves the scopes as they are. -/
theorem Grounded.report {a : Analysis} (h : a.Grounded t) (ds : List Diagnostic) :
    (a.report ds).Grounded t :=
  ⟨h.reached, h.lt_size⟩

/-- The rules ask for the symbol of no other name. -/
theorem Grounded.symbolOf?_eq {a : Analysis} (h : a.Grounded t) (e : Expr) :
    ∃ symbol, a.symbolOf? t e = some symbol ∧
      Rules.expr (fun _ => symbol) e = Rules.expr (a.lookup t) e ∧
      Rules.exprType (fun _ => symbol) e = Rules.exprType (a.lookup t) e := by
  cases e with
  | literal p ty v => exact ⟨none, rfl, rfl, rfl⟩
  | location p ty x i => exact ⟨a.lookup t x, h.resolve?_eq x, rfl, rfl⟩
  | binary p ty op l r => exact ⟨none, rfl, rfl, rfl⟩
  | unary p ty op e => exact ⟨none, rfl, rfl, rfl⟩
  | call p ty f args => exact ⟨a.lookup t f, h.resolve?_eq f, rfl, rfl⟩

/-- An expression is left without a loss of the state, as it is with fallbacks. -/
theorem strict_close {a : Analysis} (h : a.Grounded t) (e : Expr) :
    (strict t).close e (some a) =
      (e.settle (a.lookup t), some (a.report (Rules.expr (a.lookup t) e))) := by
  obtain ⟨symbol, hsymbol, hrules, htype⟩ := h.symbolOf?_eq e
  have hinfer : infer? t e a = some (Rules.exprType (a.lookup t) e) := by
    unfold infer?
    rw [hsymbol, ← htype]
    rfl
  have hleave : leave? t (.expr e) a = some (a.report (Rules.expr (a.lookup t) e)) := by
    rw [leave?, hsymbol, ← hrules]
    rfl
  show (e.fillType (infer? t e a), leave? t (.expr e) a) = _
  rw [hinfer, hleave]
  rfl

theorem strict_exprs_of {es : List Expr}
    (h : ∀ e ∈ es, ∀ a : Analysis, a.Grounded t → (strict t).expr e (some a) =
      (e.typed (a.lookup t), some (a.report (e.mistakes (a.lookup t)))))
    {a : Analysis} (ha : a.Grounded t) :
    (strict t).exprs es (some a) =
      (typedExprs (a.lookup t) es, some (a.report (exprsMistakes (a.lookup t) es))) := by
  induction es generalizing a with
  | nil => rfl
  | cons e es ih =>
    rw [Visitor.exprs, h e List.mem_cons_self a ha,
      ih (fun e' he => h e' (List.mem_cons_of_mem e he)) (ha.report _), report_report,
      lookup_report]
    rfl

/-- The walk of an expression does what it does with fallbacks. -/
theorem strict_expr (e : Expr) {a : Analysis} (ha : a.Grounded t) :
    (strict t).expr e (some a) =
      (e.typed (a.lookup t), some (a.report (e.mistakes (a.lookup t)))) := by
  have henter : ∀ (e : Expr) (a : Analysis), (strict t).enter (.expr e) (some a) = some a :=
    fun _ _ => rfl
  induction e using Expr.induction generalizing a with
  | literal p ty v =>
    rw [Visitor.expr, henter, strict_close ha, Expr.typed, Expr.mistakes]
  | scalar p ty x =>
    rw [Visitor.expr, henter, strict_close ha, Expr.typed, Expr.mistakes]
  | element p ty x i ih =>
    rw [Visitor.expr, henter, ih ha, strict_close (ha.report _), Expr.typed, Expr.mistakes,
      lookup_report, report_report]
  | binary p ty op l r ihl ihr =>
    rw [Visitor.expr, henter, ihl ha, ihr (ha.report _), strict_close ((ha.report _).report _),
      Expr.typed, Expr.mistakes, lookup_report, lookup_report, report_report, report_report,
      List.append_assoc]
  | unary p ty op e ih =>
    rw [Visitor.expr, henter, ih ha, strict_close (ha.report _), Expr.typed, Expr.mistakes,
      lookup_report, report_report]
  | call p ty f args ih =>
    rw [Visitor.expr, henter, strict_exprs_of (fun e he a ha => ih e he ha) ha,
      strict_close (ha.report _), Expr.typed, Expr.mistakes, lookup_report, report_report]

/-! ## Blocks and statements -/

/-- The constructs at some sites have a scope, and it is in the tables. -/
def Placed (t : Tables) (sites : List Site) : Prop :=
  ∀ site ∈ sites, ∃ id, site.scope = some id ∧ id.index < t.size

theorem placed_append {xs ys : List Site} :
    Placed t (xs ++ ys) ↔ Placed t xs ∧ Placed t ys :=
  List.forall_mem_append

/-- A scope that is in the tables is entered as it is with fallbacks. -/
theorem enterScope?_eq {a : Analysis} {id : ScopeId} (hid : id.index < t.size) :
    a.enterScope? t (some id) = some ((a.inside (some id)).report (scopeMistakes t (some id))) := by
  obtain ⟨s, hs⟩ := Tables.exists_scope hid
  have hmistakes : scopeMistakes t (some id) = Rules.duplicates s := by
    unfold scopeMistakes
    rw [Option.bind_some, hs]
  show (t.scope? id).map _ = _
  rw [hs, hmistakes]
  rfl

/-- A scope that is in the tables can be entered. -/
theorem Grounded.inside {a : Analysis} {id : ScopeId} (h : a.Grounded t) (hid : id.index < t.size) :
    (a.inside (some id)).Grounded t := by
  refine ⟨h.reached, fun top htop => ?_⟩
  cases htop
  exact hid

theorem Grounded.mapDepth {a : Analysis} (h : a.Grounded t) (f : Nat → Nat) :
    (a.mapDepth f).Grounded t := by
  refine ⟨h.reached, ?_⟩
  unfold Analysis.mapDepth
  split <;> exact h.lt_size

/-- Variables are judged without a look at the state, which cannot be lost on the way. -/
theorem strict_varDecls (ds : List VarDecl) (a : Analysis) :
    (strict t).varDecls ds (some a) = some (a.report (ds.flatMap Rules.varDecl)) := by
  induction ds generalizing a with
  | nil => rfl
  | cons d ds ih =>
    have h : (strict t).varDecls (d :: ds) (some a) =
        (strict t).varDecls ds (some (a.report (Rules.varDecl d))) := rfl
    rw [h, ih, report_report, List.flatMap_cons]

theorem strict_params (ps : List Param) (a : Analysis) :
    (strict t).params ps (some a) = some (a.report (ps.flatMap Rules.param)) := by
  induction ps generalizing a with
  | nil => rfl
  | cons p ps ih =>
    have h : (strict t).params (p :: ps) (some a) =
        (strict t).params ps (some (a.report (Rules.param p))) := rfl
    rw [h, ih, report_report, List.flatMap_cons]

/-- What the walk of a block or a statement should come to. -/
abbrev Walks (a : Analysis) {α : Type} (walked : α × Option Analysis) (result : α)
    (found : List Diagnostic) : Prop :=
  walked = (result, some (a.report found))

theorem strict_stmts_of {ss : List Stmt}
    (h : ∀ x ∈ ss, ∀ (outer : List (Option ScopeId)) (a : Analysis), a.Grounded t →
      Placed t (x.sites outer) →
      Walks a ((strict t).stmt x (some a)) (x.typed t a.context) (x.mistakes t a.context))
    {outer : List (Option ScopeId)} {a : Analysis} (ha : a.Grounded t)
    (hsites : Placed t (stmtsSites outer ss)) :
    Walks a ((strict t).stmts ss (some a)) (typedStmts t a.context ss)
      (stmtsMistakes t a.context ss) := by
  induction ss generalizing a with
  | nil => rfl
  | cons x ss ih =>
    obtain ⟨hx, hss⟩ := placed_append.mp hsites
    have hfirst := h x List.mem_cons_self outer a ha hx
    have hrest := ih (fun y hy => h y (List.mem_cons_of_mem x hy))
      (ha.report (x.mistakes t a.context)) hss
    unfold Walks at hfirst hrest ⊢
    rw [Visitor.stmts, hfirst, hrest, report_report, context_report]
    rfl

/-- A loop that was entered can be left. -/
theorem leaveLoop?_mapDepth (a : Analysis) (ds : List Diagnostic) :
    ((a.mapDepth (· + 1)).report ds).leaveLoop? = some (a.report ds) := by
  obtain ⟨scopes, functions, errors⟩ := a
  cases functions <;> rfl

/-- The walk of a block or a statement does what it does with fallbacks. -/
theorem strict_block_stmt :
    (∀ (b : Block) (outer : List (Option ScopeId)) (a : Analysis), a.Grounded t →
      Placed t (b.sites outer) →
      Walks a ((strict t).block b (some a)) (b.typed t a.context) (b.mistakes t a.context)) ∧
    ∀ (x : Stmt) (outer : List (Option ScopeId)) (a : Analysis), a.Grounded t →
      Placed t (x.sites outer) →
      Walks a ((strict t).stmt x (some a)) (x.typed t a.context) (x.mistakes t a.context) := by
  refine Block.induction ?mk ?assign ?call ?ifThen ?ifElse ?loop ?ret ?brk ?cont ?inner
  case mk =>
    intro locals statements p scope ih outer a ha hsites
    obtain ⟨hhere, hinner⟩ := placed_append.mp (show Placed t ([_] ++ _) from hsites)
    obtain ⟨id, hid, hlt⟩ := hhere _ List.mem_cons_self
    change scope = some id at hid
    subst hid
    have hstep : (strict t).enter (.block ⟨locals, statements, p, some id⟩) (some a) =
        some ((a.inside (some id)).report (scopeMistakes t (some id))) := enterScope?_eq hlt
    have hstmts := strict_stmts_of ih
      (((ha.inside hlt).report (scopeMistakes t (some id))).report (locals.flatMap Rules.varDecl))
      hinner
    unfold Walks at hstmts ⊢
    rw [Visitor.block, hstep, strict_varDecls, hstmts, report_report, report_report,
      context_report, context_inside, Block.typed, Block.mistakes, List.append_assoc]
    exact congrArg (fun s => (_, some s)) (leaveScope_inside a (some id) _)
  case assign =>
    intro p target value outer a ha _
    have hstep : (strict t).enter (.stmt (.assign p target value)) (some a) = some a := rfl
    unfold Walks
    rw [Visitor.stmt, hstep, strict_expr target ha,
      strict_expr value (ha.report _), lookup_report, report_report, lookup_eq, Stmt.typed,
      Stmt.mistakes, ← List.append_assoc]
    exact congrArg (fun s => (_, some s)) (report_report a _ _)
  case call =>
    intro p e outer a ha _
    unfold Walks
    rw [Visitor.stmt, strict_expr e ha, lookup_eq, Stmt.typed, Stmt.mistakes]
  case ifThen =>
    intro p test b ihb outer a ha hsites
    have hstep : (strict t).enter (.stmt (.conditional p test b none)) (some a) = some a := rfl
    have hb := ihb outer _ (ha.report (test.mistakes (a.lookup t))) hsites
    unfold Walks at hb ⊢
    rw [Visitor.stmt, hstep, strict_expr test ha, hb,
      context_report, report_report, lookup_eq, Stmt.typed, Stmt.mistakes, ← List.append_assoc]
    exact congrArg (fun s => (_, some s)) (report_report a _ _)
  case ifElse =>
    intro p test b d ihb ihd outer a ha hsites
    have hstep : (strict t).enter (.stmt (.conditional p test b (some d))) (some a) = some a := rfl
    obtain ⟨hbsites, hdsites⟩ := placed_append.mp hsites
    have hb := ihb outer _ (ha.report (test.mistakes (a.lookup t))) hbsites
    have hd := ihd outer _ ((ha.report (test.mistakes (a.lookup t))).report
      (b.mistakes t a.context)) hdsites
    unfold Walks at hb hd ⊢
    rw [context_report] at hb
    rw [context_report, context_report] at hd
    rw [Visitor.stmt, hstep, strict_expr test ha, hb, hd,
      report_report, report_report, lookup_eq, Stmt.typed, Stmt.mistakes, ← List.append_assoc,
      ← List.append_assoc]
    exact congrArg (fun s => (_, some s)) (report_report a _ _)
  case loop =>
    intro p test b ihb outer a ha hsites
    have hstep : (strict t).enter (.stmt (.loop p test b)) (some a) =
        some (a.mapDepth (· + 1)) := rfl
    have hground := ha.mapDepth (· + 1)
    have hlook : (a.mapDepth (· + 1)).lookup t = a.context.lookup t := by
      rw [lookup_eq, context_mapDepth]
      rfl
    have hb := ihb outer _ (hground.report (test.mistakes (a.context.lookup t))) hsites
    unfold Walks at hb ⊢
    rw [context_report, context_mapDepth] at hb
    rw [Visitor.stmt, hstep, strict_expr test hground, hlook, hb, report_report, Stmt.typed,
      Stmt.mistakes, ← List.append_assoc]
    refine congrArg (Prod.mk _) ?_
    -- the depth is at least one here, since it was raised on entering
    show (leaveLoop? _).bind _ = _
    rw [leaveLoop?_mapDepth]
    exact congrArg some (report_report a _ _)
  case ret =>
    intro p value outer a ha _
    unfold Walks
    cases value with
    | none =>
      rw [Visitor.stmt, Stmt.typed, Stmt.mistakes]
      rfl
    | some e =>
      have hstep : (strict t).enter (.stmt (.ret p (some e))) (some a) = some a := rfl
      rw [Visitor.stmt, hstep, strict_expr e ha, lookup_eq,
        Stmt.typed, Stmt.mistakes]
      exact congrArg (fun s => (_, some s)) (report_report a _ _)
  case brk =>
    intro p outer a _ _
    unfold Walks
    rw [Visitor.stmt, Stmt.typed, Stmt.mistakes]
    rfl
  case cont =>
    intro p outer a _ _
    unfold Walks
    rw [Visitor.stmt, Stmt.typed, Stmt.mistakes]
    rfl
  case inner =>
    intro p b ihb outer a ha hsites
    have hb := ihb outer a ha hsites
    unfold Walks at hb ⊢
    rw [Visitor.stmt, hb, Stmt.typed, Stmt.mistakes]

/-! ## Functions and programs -/

/-- A function with all of its scopes in the tables is walked as it is with fallbacks. -/
theorem strict_function (f : Function) {outer : List (Option ScopeId)} {a : Analysis}
    (ha : a.Grounded t) (hsites : Placed t (f.sites outer)) :
    Walks a ((strict t).function f (some a)) (f.typed t a.context) (f.mistakes t a.context) := by
  obtain ⟨hhere, hinner⟩ := placed_append.mp (show Placed t ([_] ++ _) from hsites)
  obtain ⟨id, hid, hlt⟩ := hhere _ List.mem_cons_self
  change f.scope = some id at hid
  have hstep : (strict t).enter (.function f) (some a) =
      some ((a.insideFunction f).report (scopeMistakes t f.scope)) := by
    show (a.enterScope? t f.scope).bind _ = _
    rw [hid, enterScope?_eq hlt, insideFunction, hid]
    rfl
  have hground : (a.insideFunction f).Grounded t := by
    refine ⟨ha.reached, fun top htop => ?_⟩
    have hscopes : (a.insideFunction f).scopes = id :: a.scopes := by
      rw [insideFunction, hid]
      rfl
    rw [hscopes] at htop
    cases htop
    exact hlt
  have hbody := strict_block_stmt.1 f.body _ _
    ((hground.report (scopeMistakes t f.scope)).report (f.params.flatMap Rules.param)) hinner
  unfold Walks at hbody ⊢
  rw [Visitor.function, hstep, strict_params, hbody, report_report, report_report,
    context_report, context_insideFunction, List.append_assoc]
  exact congrArg (fun s => (_, some s)) (@leave_function t f _ a _ rfl)

theorem strict_functions (fs : List Function) {outer : List (Option ScopeId)} {a : Analysis}
    (ha : a.Grounded t) (hsites : Placed t (fs.flatMap (·.sites outer))) :
    Walks a ((strict t).functions fs (some a)) (fs.map (·.typed t a.context))
      (fs.flatMap (·.mistakes t a.context)) := by
  induction fs generalizing a with
  | nil => rfl
  | cons f fs ih =>
    obtain ⟨hf, hfs⟩ := placed_append.mp hsites
    have hfirst := strict_function f ha hf
    have hrest := ih (ha.report (f.mistakes t a.context)) hfs
    unfold Walks at hfirst hrest ⊢
    rw [Visitor.functions, hfirst, hrest, report_report, context_report]
    rfl

/-- A program with all of its scopes in the tables is walked as it is with fallbacks. -/
theorem strict_program (p : Program) {a : Analysis} (ha : a.Grounded t)
    (hsites : Placed t p.sites) :
    Walks a ((strict t).program p (some a)) (p.typed t a.context) (p.mistakes t a.context) := by
  obtain ⟨hhere, hinner⟩ := placed_append.mp (show Placed t ([_] ++ _) from hsites)
  obtain ⟨id, hid, hlt⟩ := hhere _ List.mem_cons_self
  change p.scope = some id at hid
  have hstep : (strict t).enter (.program p) (some a) =
      some ((a.inside p.scope).report (scopeMistakes t p.scope)) := by
    show a.enterScope? t p.scope = _
    rw [hid, enterScope?_eq hlt]
  have hground : (a.inside p.scope).Grounded t := hid ▸ ha.inside hlt
  have hfunctions := strict_functions p.functions
    ((hground.report (scopeMistakes t p.scope)).report (p.globals.flatMap Rules.varDecl)) hinner
  unfold Walks at hfunctions ⊢
  rw [Visitor.program, hstep, strict_varDecls, hfunctions, report_report, report_report,
    context_report, context_inside, Program.mistakes, ← List.append_assoc, ← List.append_assoc]
  refine congrArg (Prod.mk _) ?_
  -- `main` is looked up from the outermost scope, before that is left
  show ((Analysis.report _ _).resolve? t "main").bind _ = _
  rw [(hground.report _).resolve?_eq, lookup_report, lookup_eq, context_inside, Option.bind_some]
  refine congrArg some ?_
  rw [report_report, leaveScope_inside]

end Analysis

/-- With all scopes in their places, the analysis gets along without fallbacks. -/
theorem analyze?_eq {t : Tables} {p : Program} (ht : t.Reached)
    (hsites : Analysis.Placed t p.sites) : analyze? t p = some (analyze t p) := by
  have hground : Analysis.start.Grounded t := ⟨ht, fun id h => by cases h⟩
  have hwalk := Analysis.strict_program p hground hsites
  unfold Analysis.Walks at hwalk
  rw [analyze_eq]
  unfold analyze?
  rw [hwalk]
  rfl

/-- The tables built for a program have a scope for each of its constructs. -/
theorem Program.withScopes_placed (p : Program) :
    Analysis.Placed p.withScopes.2 p.withScopes.1.sites := by
  intro site hsite
  have hscope := List.mem_map_of_mem (f := (·.scope)) hsite
  rw [p.withScopes_sites_scope] at hscope
  obtain ⟨i, hi, heq⟩ := List.mem_map.mp hscope
  exact ⟨⟨i⟩, heq.symm, List.mem_range.mp hi⟩

/-- Scopes and analysis of any program get along without fallbacks. -/
theorem checkProgram?_eq (p : Program) : checkProgram? p = some (checkProgram p) := by
  have hbuilt := p.withScopes_builds
  unfold checkProgram?
  rw [hbuilt.eq, Option.bind_eq_bind, Option.bind_some,
    analyze?_eq hbuilt.reached p.withScopes_placed]
  rfl

/-! ## Texts -/

/-- A check comes to a fault, or to what it comes to without fallbacks. -/
theorem checkText_strict (how : Presentation) (file source : String) :
    (∃ fault, (checkText how file source).verdict = .error fault) ∨
    ∃ p checked, parse source = .ok p ∧ checkProgram? p = some checked ∧
      (checkText how file source).verdict = .ok checked := by
  cases hread : readProgram how source with
  | error fault => exact .inl ⟨fault, by rw [checkText, hread]⟩
  | ok p =>
    refine .inr ⟨p, checkProgram p, readProgram_ok hread, checkProgram?_eq p, ?_⟩
    rw [checkText, hread]

/-- No step of a check is ever asked for something that is not there. Whatever the text: the
slices that literals are read from lie in their tokens and between characters, and no
escape is left unfinished; to read an expression by climbing precedences, every token that
binds stands for an operator and every precedence can be counted up in a byte; and however
the check is presented, it ends in a fault or with what a check without fallbacks gives, in
which all scopes, positions of symbols and loops that are referred to are there. -/
theorem check_never_stuck (source : String) :
    (∀ t ∈ (Stream.ofSource source).tokens,
      Parser.literalOfSlice? t = some (Parser.literal? t)) ∧
    (∀ tokens, Parser.climb (.ofSource source) 1 tokens =
      Attempt.outcome (Parser.expr (.ofSource source) tokens)) ∧
    ∀ how file, (∃ fault, (checkText how file source).verdict = .error fault) ∨
      ∃ p checked, parse source = .ok p ∧ checkProgram? p = some checked ∧
        (checkText how file source).verdict = .ok checked := by
  refine ⟨fun t ht => ?_, Parser.climb_eq (.ofSource source), fun how file => ?_⟩
  · exact Parser.literalOfSlice?_eq (Stream.scan_wellSpelled 0 source.toList t ht)
  · exact checkText_strict how file source

/-- A text with a loop, a string that ends with an escape, and a hexadecimal number. -/
def slicedLiterals : String :=
  "int main() \x7b while (true) \x7b print_str(\"a\\n\"); break; \x7d return 0x1F; \x7d"

/-- The number is read from the slice behind its prefix, and the check loses nothing. -/
theorem slicedLiterals_not_stuck :
    Parser.literalOfSlice? ⟨.hexLiteral "0x1F", ⟨62, 66⟩⟩ = some (some (.ok (.int 31))) ∧
    ∃ p checked, parse slicedLiterals = .ok p ∧ checkProgram? p = some checked ∧
      (checkText .default "a.decaf" slicedLiterals).verdict = .ok checked := by
  have hmem : ⟨.hexLiteral "0x1F", ⟨62, 66⟩⟩ ∈ (Stream.ofSource slicedLiterals).tokens := by
    decide +kernel
  have hok : (checkText .default "a.decaf" slicedLiterals).verdict.isOk = true := by
    decide +kernel
  obtain ⟨hliterals, -, hchecks⟩ := check_never_stuck slicedLiterals
  refine ⟨(hliterals _ hmem).trans (by decide +kernel), ?_⟩
  rcases hchecks .default "a.decaf" with ⟨fault, hfault⟩ | hchecked
  · rw [hfault] at hok
    cases hok
  · exact hchecked

end Decaf
