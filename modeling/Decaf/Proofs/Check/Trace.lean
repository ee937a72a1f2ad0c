import Decaf.Proofs.Check.Redeclared
import Decaf.Proofs.Syntax.SideBySide

/-!
# The scopes that an analysis is in

The analysis of a program is a walk that pushes the scope of a construct when it enters
it and drops it when it leaves it; which scopes there are, and which lies in which, was
settled before by another walk. This file shows that the two agree.

The analysis is run with a record of its steps, each with the state before and after it.
After every step but the last, the scopes that were entered and not yet left are chained
by their links in the tables, and the innermost is the one that the innermost construct
carries (`Settled`). The induction over the tree carries `Keeps`: a part of the walk leaves
the scopes as they were, all of its steps are settled, and it enters exactly the scopes at
its sites, in order.
-/

namespace Decaf

/-! ## Constructs that are entered and not yet left -/

/-- Whether a node is a construct that opens a scope. -/
def Node.opens : Node → Bool
  | .program _ | .function _ | .block _ => true
  | .param _ | .varDecl _ | .stmt _ | .expr _ => false

/-- The scope that is written into a node. -/
def Node.scope : Node → Option ScopeId
  | .program p => p.scope
  | .function f => f.scope
  | .block b => b.scope
  | .param _ | .varDecl _ | .stmt _ | .expr _ => none

/-- Which constructs with a scope are entered and not yet left after a step, the
innermost first. -/
def Visit.track (nodes : List Node) : Visit → List Node
  | .enter node => if node.opens then node :: nodes else nodes
  | .leave node => if node.opens then nodes.tail else nodes

/-- Which constructs with a scope are entered and not yet left after some steps. -/
def trackAll {σ : Type} (nodes : List Node) (steps : List (Step σ)) : List Node :=
  steps.foldl (fun nodes step => step.visit.track nodes) nodes

/-- The constructs that are entered after two parts of a walk are counted on from those after the
first. -/
theorem trackAll_append {σ : Type} (nodes : List Node) (xs ys : List (Step σ)) :
    trackAll nodes (xs ++ ys) = trackAll (trackAll nodes xs) ys :=
  List.foldl_append

/-- The scope that is entered by a step of an analysis: the one on top, if all others
were there before. -/
def Step.entered? (step : Step Analysis) : Option ScopeId :=
  match step.after.scopes with
  | [] => none
  | id :: rest => if rest = step.before.scopes then some id else none

/-- A scope and the scopes around it, each the parent of the one before, up to one that
has no parent. -/
inductive Tables.Chained (t : Tables) : List ScopeId → Prop
  | outermost {id : ScopeId} {s : Scope} :
    t.scope? id = some s → s.parent = none → Chained t [id]
  | inner {id parent : ScopeId} {s : Scope} {rest : List ScopeId} :
    t.scope? id = some s → s.parent = some parent → Chained t (parent :: rest) →
    Chained t (id :: parent :: rest)

/-- The scopes that were entered are a chain, and the innermost is the one of the
innermost construct. -/
structure Settled (t : Tables) (nodes : List Node) (scopes : List ScopeId) : Prop where
  chained : t.Chained scopes
  innermost : ∃ node rest, nodes = node :: rest ∧ node.scope = scopes.head?

/-- A chain has an innermost scope. -/
theorem Tables.Chained.exists_cons {t : Tables} {scopes : List ScopeId} (h : t.Chained scopes) :
    ∃ top rest, scopes = top :: rest := by
  cases h with
  | outermost => exact ⟨_, _, rfl⟩
  | inner => exact ⟨_, _, rfl⟩

/-- All steps are settled. -/
def Settles (t : Tables) : List Node → List (Step Analysis) → Prop
  | _, [] => True
  | nodes, step :: rest =>
    Settled t (step.visit.track nodes) step.after.scopes ∧ Settles t (step.visit.track nodes) rest

/-- Steps are settled if the first part is, and the second is from where the first ends. -/
theorem settles_append {t : Tables} {nodes : List Node} {xs ys : List (Step Analysis)} :
    Settles t nodes (xs ++ ys) ↔ Settles t nodes xs ∧ Settles t (trackAll nodes xs) ys := by
  induction xs generalizing nodes with
  | nil => exact (and_iff_right trivial).symm
  | cons x xs ih =>
    rw [List.cons_append, Settles, Settles, ih, and_assoc]
    rfl

/-! ## Parts of a walk -/

/-- The state of an analysis together with a record of its steps. -/
abbrev Traced : Type := Analysis × List (Step Analysis)

/-- The analysis as a walk that records its steps. -/
abbrev Analysis.tracer (t : Tables) : Visitor Traced :=
  (Analysis.visitor t).traced

/-- A part of the walk whose steps are all settled. It begins and ends inside the given
constructs and enters the given scopes. -/
def Passes (t : Tables) (nodes nodes' : List Node) (ids : List ScopeId) (x y : Traced) : Prop :=
  ∃ steps, y.2 = x.2 ++ steps ∧ trackAll nodes steps = nodes' ∧ Settles t nodes steps ∧
    steps.filterMap Step.entered? = ids

/-- A settled part of the walk that leaves everything that it enters, if it begins in the
given scopes. -/
def Keeps (t : Tables) (nodes : List Node) (scopes : List ScopeId) (ids : List ScopeId)
    (x y : Traced) : Prop :=
  x.1.scopes = scopes → y.1.scopes = scopes ∧ Passes t nodes nodes ids x y

variable {t : Tables} {nodes nodes' nodes'' : List Node} {scopes ids ids' : List ScopeId}
  {id : ScopeId} {x y z : Traced}

/-- Parts of a walk that follow each other make one, and enter the scopes of both in order. -/
theorem Passes.trans (h : Passes t nodes nodes' ids x y) (h' : Passes t nodes' nodes'' ids' y z) :
    Passes t nodes nodes'' (ids ++ ids') x z := by
  obtain ⟨xs, hxs, htrack, hsettles, hids⟩ := h
  obtain ⟨ys, hys, htrack', hsettles', hids'⟩ := h'
  refine ⟨xs ++ ys, ?_, ?_, ?_, ?_⟩
  · rw [hys, hxs, List.append_assoc]
  · rw [trackAll_append, htrack, htrack']
  · rw [settles_append, htrack]
    exact ⟨hsettles, hsettles'⟩
  · rw [List.filterMap_append, hids, hids']

/-- A single step. -/
theorem Passes.single {visit : Visit} (x : Traced) (after : Analysis)
    (h : Settled t (visit.track nodes) after.scopes) :
    Passes t nodes (visit.track nodes) (Step.entered? ⟨visit, x.1, after⟩).toList x
      (after, x.2 ++ [⟨visit, x.1, after⟩]) := by
  refine ⟨[⟨visit, x.1, after⟩], rfl, rfl, ⟨h, trivial⟩, ?_⟩
  rw [List.filterMap_cons, List.filterMap_nil]
  cases Step.entered? ⟨visit, x.1, after⟩ <;> rfl

/-- No step at all keeps everything. -/
theorem Keeps.refl : Keeps t nodes scopes [] x x :=
  fun hx => ⟨hx, [], (List.append_nil _).symm, rfl, trivial, rfl⟩

/-- One part after another. -/
theorem Keeps.andThen (h : Keeps t nodes scopes ids x y) (h' : Keeps t nodes scopes ids' y z) :
    Keeps t nodes scopes (ids ++ ids') x z := by
  intro hx
  obtain ⟨hy, hxy⟩ := h hx
  obtain ⟨hz, hyz⟩ := h' hy
  exact ⟨hz, hxy.trans hyz⟩

/-- One part after another, the second of which enters nothing. -/
theorem Keeps.andQuiet (h : Keeps t nodes scopes ids x y) (h' : Keeps t nodes scopes [] y z) :
    Keeps t nodes scopes ids x z := by
  have hall := h.andThen h'
  rw [List.append_nil] at hall
  exact hall

/-! ## Single steps -/

/-- A step that adds no scope enters none. -/
theorem Step.entered?_eq_none {step : Step Analysis}
    (h : step.after.scopes.length ≤ step.before.scopes.length) : step.entered? = none := by
  unfold Step.entered?
  split
  · rfl
  · next id rest heq =>
    have hne : rest ≠ step.before.scopes := by
      intro hrest
      rw [heq, List.length_cons, hrest] at h
      omega
    rw [if_neg hne]

/-- A step that puts one scope on top of those there has entered this scope. -/
theorem Step.entered?_eq_some {step : Step Analysis}
    (h : step.after.scopes = id :: step.before.scopes) : step.entered? = some id := by
  unfold Step.entered?
  rw [h]
  exact if_pos rfl

/-- A step that changes neither scopes nor constructs. -/
theorem Keeps.quiet {visit : Visit} {after : Analysis} (h : Settled t nodes scopes)
    (hvisit : visit.track nodes = nodes) (hscopes : after.scopes = x.1.scopes) :
    Keeps t nodes scopes [] x (after, x.2 ++ [⟨visit, x.1, after⟩]) := by
  intro hx
  have hafter : after.scopes = scopes := hscopes.trans hx
  have hsettled : Settled t (visit.track nodes) after.scopes := by
    rw [hvisit, hafter]
    exact h
  have hstep := Passes.single x after hsettled
  rw [Step.entered?_eq_none (Nat.le_of_eq (congrArg List.length hscopes)), hvisit] at hstep
  exact ⟨hafter, hstep⟩

theorem Analysis.mapDepth_scopes (a : Analysis) (f : Nat → Nat) :
    (a.mapDepth f).scopes = a.scopes := by
  unfold mapDepth
  split <;> rfl

/-- Neither way past a node that opens no scope changes the scopes: all it may do is to
count loops and to report. -/
theorem Analysis.visitor_scopes {node : Node} (hn : node.opens = false) (a : Analysis) :
    ((visitor t).enter node a).scopes = a.scopes ∧
      ((visitor t).leave node a).scopes = a.scopes := by
  cases node with
  | program | function | block => cases hn
  | stmt s =>
    cases s with
    | loop => exact ⟨a.mapDepth_scopes _, a.mapDepth_scopes _⟩
    | _ => exact ⟨rfl, rfl⟩
  | _ => exact ⟨rfl, rfl⟩

/-- Nor does it change the constructs that were entered. -/
theorem Visit.track_eq {node : Node} (hn : node.opens = false) (nodes : List Node) :
    (Visit.enter node).track nodes = nodes ∧ (Visit.leave node).track nodes = nodes := by
  have hclosed : ¬ node.opens = true := by
    rw [hn]
    exact Bool.false_ne_true
  exact ⟨if_neg hclosed, if_neg hclosed⟩

/-- To enter a node that opens no scope. -/
theorem Keeps.enter (h : Settled t nodes scopes) {node : Node} (hn : node.opens = false) :
    Keeps t nodes scopes [] x ((Analysis.tracer t).enter node x) :=
  .quiet h (Visit.track_eq hn nodes).1 (Analysis.visitor_scopes hn x.1).1

/-- To leave a node that opens no scope. -/
theorem Keeps.leave (h : Settled t nodes scopes) {node : Node} (hn : node.opens = false) :
    Keeps t nodes scopes [] x ((Analysis.tracer t).leave node x) :=
  .quiet h (Visit.track_eq hn nodes).2 (Analysis.visitor_scopes hn x.1).2

/-- Only a construct that opens a scope has one written into it. -/
theorem Node.opens_of_scope {node : Node} (h : node.scope = some id) : node.opens = true := by
  cases node with
  | program | function | block => rfl
  | _ => cases h

/-- Entering a construct puts its scope on top. -/
theorem Analysis.enter_scopes (node : Node) (h : node.scope = some id) (a : Analysis) :
    ((visitor t).enter node a).scopes = id :: a.scopes := by
  have henter (scope : Option ScopeId) (hscope : scope = some id) :
      (a.enterScope t scope).scopes = id :: a.scopes := by
    rw [hscope]
    rfl
  cases node with
  | program p => exact henter p.scope h
  | function f => exact henter f.scope h
  | block b => exact henter b.scope h
  | _ => cases h

/-- Leaving a construct takes the scope on top away. -/
theorem Analysis.leave_scopes (node : Node) (h : node.scope = some id) (a : Analysis) :
    ((visitor t).leave node a).scopes = a.scopes.tail := by
  have hleave (b : Analysis) (scope : Option ScopeId) (hscope : scope = some id) :
      (b.leaveScope scope).scopes = b.scopes.tail := by
    rw [hscope]
    rfl
  cases node with
  | program p => exact hleave _ p.scope h
  | function f => exact hleave _ f.scope h
  | block b => exact hleave _ b.scope h
  | _ => cases h

/-- Leaving a construct enters no scope. -/
theorem Analysis.leave_entered? (node : Node) (h : node.scope = some id) (a : Analysis) :
    Step.entered? ⟨.leave node, a, (visitor t).leave node a⟩ = none := by
  have hlength : ((visitor t).leave node a).scopes.length ≤ a.scopes.length := by
    rw [leave_scopes node h, List.length_tail]
    omega
  exact Step.entered?_eq_none hlength

/-- To enter a construct. -/
theorem Passes.enter {node : Node} (hscope : node.scope = some id)
    (hchained : t.Chained (id :: x.1.scopes)) :
    Passes t nodes (node :: nodes) [id] x ((Analysis.tracer t).enter node x) := by
  have htrack : (Visit.enter node).track nodes = node :: nodes :=
    if_pos (Node.opens_of_scope hscope)
  have hafter := Analysis.enter_scopes (t := t) node hscope x.1
  have hsettled : Settled t ((Visit.enter node).track nodes)
      ((Analysis.visitor t).enter node x.1).scopes := by
    rw [htrack, hafter]
    exact ⟨hchained, node, nodes, rfl, hscope⟩
  have hstep := Passes.single x _ hsettled
  rw [Step.entered?_eq_some hafter, htrack] at hstep
  exact hstep

/-- To leave a construct inside others. -/
theorem Passes.leave {inner node : Node} (h : Settled t nodes x.1.scopes.tail)
    (hscope : node.scope = some id) :
    Passes t (inner :: nodes) nodes [] x ((Analysis.tracer t).leave node x) := by
  have htrack : (Visit.leave node).track (inner :: nodes) = nodes :=
    if_pos (Node.opens_of_scope hscope)
  have hafter := Analysis.leave_scopes (t := t) node hscope x.1
  have hsettled : Settled t ((Visit.leave node).track (inner :: nodes))
      ((Analysis.visitor t).leave node x.1).scopes := by
    rw [htrack, hafter]
    exact h
  have hstep := Passes.single x _ hsettled
  rw [Analysis.leave_entered? node hscope, htrack] at hstep
  exact hstep

/-- A whole construct inside others: it is entered, something is kept, and it is left. -/
theorem Keeps.enclose (node : Node) {node' : Node} (h : Settled t nodes scopes)
    (hscope : node.scope = some id) (hscope' : node'.scope = some id)
    (hchained : t.Chained (id :: scopes))
    (hinner : Settled t (node :: nodes) (id :: scopes) →
      Keeps t (node :: nodes) (id :: scopes) ids ((Analysis.tracer t).enter node x) y) :
    Keeps t nodes scopes (id :: ids) x ((Analysis.tracer t).leave node' y) := by
  intro hx
  subst hx
  have henter : Passes t nodes (node :: nodes) [id] x _ := .enter hscope hchained
  obtain ⟨hy, hpasses⟩ := hinner ⟨hchained, node, nodes, rfl, hscope⟩
    (Analysis.enter_scopes node hscope x.1)
  have htail : y.1.scopes.tail = x.1.scopes := by rw [hy, List.tail_cons]
  -- what is left is not the tree that was entered, types are filled in, but it has the same scope
  have hleave : Passes t (node :: nodes) nodes [] y _ := .leave (by rw [htail]; exact h) hscope'
  refine ⟨(Analysis.leave_scopes node' hscope' y.1).trans htail, ?_⟩
  have hall := (henter.trans hpasses).trans hleave
  rw [List.append_nil] at hall
  exact hall

/-! ## Along the tree -/

/-- Every site has its scope in the tables. -/
def Tables.Mirrors (t : Tables) (sites : List Site) : Prop :=
  ∀ site ∈ sites, ∃ id s, site.Mirrored t id s

/-- The scopes that are written into constructs. -/
def carried (sites : List Site) : List ScopeId :=
  sites.filterMap (·.scope)

theorem carried_append (xs ys : List Site) : carried (xs ++ ys) = carried xs ++ carried ys :=
  List.filterMap_append

/-- A scope in the tables continues the chain of those around it. -/
theorem Tables.Chained.cons {site : Site} {s : Scope} (h : t.Chained scopes)
    (hsite : site.Mirrored t id s) (houter : site.outer = scopes.map some) :
    t.Chained (id :: scopes) := by
  obtain ⟨top, rest, rfl⟩ := h.exists_cons
  refine .inner hsite.found ?_ h
  rw [hsite.parent, houter]
  rfl

theorem exprs_keeps_of {es : List Expr}
    (hes : ∀ e ∈ es, ∀ x, Keeps t nodes scopes [] x ((Analysis.tracer t).expr e x).2)
    (x : Traced) : Keeps t nodes scopes [] x ((Analysis.tracer t).exprs es x).2 := by
  induction es generalizing x with
  | nil => exact .refl
  | cons e es ih =>
    exact (hes e List.mem_cons_self x).andThen
      (ih (fun e' he => hes e' (List.mem_cons_of_mem e he)) _)

/-- The walk of an expression enters no scope. -/
theorem expr_keeps (hs : Settled t nodes scopes) (e : Expr) (x : Traced) :
    Keeps t nodes scopes [] x ((Analysis.tracer t).expr e x).2 := by
  induction e using Expr.induction generalizing x with
  | literal p type value =>
    rw [Visitor.expr]
    exact (Keeps.enter hs rfl).andThen (.leave hs rfl)
  | scalar p type name =>
    rw [Visitor.expr]
    exact (Keeps.enter hs rfl).andThen (.leave hs rfl)
  | element p type name i ih =>
    rw [Visitor.expr]
    exact ((Keeps.enter hs rfl).andThen (ih _)).andThen (.leave hs rfl)
  | binary p type op l r ihl ihr =>
    rw [Visitor.expr]
    exact (((Keeps.enter hs rfl).andThen (ihl _)).andThen (ihr _)).andThen (.leave hs rfl)
  | unary p type op e ih =>
    rw [Visitor.expr]
    exact ((Keeps.enter hs rfl).andThen (ih _)).andThen (.leave hs rfl)
  | call p type name args ih =>
    rw [Visitor.expr]
    exact ((Keeps.enter hs rfl).andThen (exprs_keeps_of ih _)).andThen (.leave hs rfl)

theorem varDecls_keeps (hs : Settled t nodes scopes) (ds : List VarDecl) (x : Traced) :
    Keeps t nodes scopes [] x ((Analysis.tracer t).varDecls ds x) := by
  induction ds generalizing x with
  | nil => exact .refl
  | cons d ds ih => exact ((Keeps.enter hs rfl).andThen (.leave hs rfl)).andThen (ih _)

theorem params_keeps (hs : Settled t nodes scopes) (ps : List Param) (x : Traced) :
    Keeps t nodes scopes [] x ((Analysis.tracer t).params ps x) := by
  induction ps generalizing x with
  | nil => exact .refl
  | cons p ps ih => exact ((Keeps.enter hs rfl).andThen (.leave hs rfl)).andThen (ih _)

/-- A walk over a part of a tree keeps the scopes around the part, and enters those at
its sites. -/
def KeepsSites (t : Tables) (sites : List (Option ScopeId) → List Site)
    (walk : Traced → Traced) : Prop :=
  ∀ (nodes : List Node) (scopes : List ScopeId) (x : Traced), Settled t nodes scopes →
    t.Mirrors (sites (scopes.map some)) →
    Keeps t nodes scopes (carried (sites (scopes.map some))) x (walk x)

theorem stmts_keepsSites_of {ss : List Stmt}
    (h : ∀ s ∈ ss, KeepsSites t s.sites fun x => ((Analysis.tracer t).stmt s x).2) :
    KeepsSites t (stmtsSites · ss) fun x => ((Analysis.tracer t).stmts ss x).2 := by
  induction ss with
  | nil => exact fun _ _ _ _ _ => .refl
  | cons s ss ih =>
    intro nodes scopes x hs hsites
    show Keeps t nodes scopes (carried (s.sites _ ++ stmtsSites _ ss)) x _
    obtain ⟨hfirst, hrest⟩ := List.forall_mem_append.mp hsites
    rw [carried_append]
    exact (h s List.mem_cons_self nodes scopes x hs hfirst).andThen
      (ih (fun s' hs' => h s' (List.mem_cons_of_mem s hs')) nodes scopes _ hs hrest)

/-- A block enters its own scope and then those of the statements in it; a statement enters those
of its blocks. -/
theorem block_stmt_keepsSites :
    (∀ b : Block, KeepsSites t b.sites fun x => ((Analysis.tracer t).block b x).2) ∧
    ∀ s : Stmt, KeepsSites t s.sites fun x => ((Analysis.tracer t).stmt s x).2 := by
  refine Block.induction ?mk ?assign ?call ?ifThen ?ifElse ?loop ?ret ?brk ?cont ?inner
  case mk =>
    intro locals statements place scope ih nodes scopes x hs hsites
    simp only [Block.sites, Visitor.block] at hsites ⊢
    obtain ⟨id, s, hsite⟩ := hsites _ List.mem_cons_self
    obtain rfl : scope = some id := hsite.carried
    refine .enclose (.block ⟨locals, statements, place, some id⟩) hs rfl rfl
      (hs.chained.cons hsite rfl) fun hs' => ?_
    exact (varDecls_keeps hs' locals _).andThen (stmts_keepsSites_of ih _ _ _ hs'
      fun site hmem => hsites site (List.mem_cons_of_mem _ hmem))
  case assign =>
    intro place target value nodes scopes x hs hsites
    simp only [Stmt.sites, Visitor.stmt]
    exact (((Keeps.enter hs rfl).andThen (expr_keeps hs target _)).andThen
      (expr_keeps hs value _)).andThen (.leave hs rfl)
  case call =>
    intro place e nodes scopes x hs hsites
    simp only [Stmt.sites, Visitor.stmt]
    exact expr_keeps hs e x
  case ifThen =>
    intro place test b ihb nodes scopes x hs hsites
    simp only [Stmt.sites, Visitor.stmt] at hsites ⊢
    exact (((Keeps.enter hs rfl).andThen (expr_keeps hs test _)).andThen
      (ihb nodes scopes _ hs hsites)).andQuiet (.leave hs rfl)
  case ifElse =>
    intro place test b c ihb ihc nodes scopes x hs hsites
    simp only [Stmt.sites, Visitor.stmt, carried_append] at hsites ⊢
    obtain ⟨hb, hc⟩ := List.forall_mem_append.mp hsites
    exact ((((Keeps.enter hs rfl).andThen (expr_keeps hs test _)).andThen
      (ihb nodes scopes _ hs hb)).andThen (ihc nodes scopes _ hs hc)).andQuiet (.leave hs rfl)
  case loop =>
    intro place test b ihb nodes scopes x hs hsites
    simp only [Stmt.sites, Visitor.stmt] at hsites ⊢
    exact (((Keeps.enter hs rfl).andThen (expr_keeps hs test _)).andThen
      (ihb nodes scopes _ hs hsites)).andQuiet (.leave hs rfl)
  case ret =>
    intro place value nodes scopes x hs hsites
    cases value with
    | none =>
      simp only [Stmt.sites, Visitor.stmt]
      exact (Keeps.enter hs rfl).andThen (.leave hs rfl)
    | some e =>
      simp only [Stmt.sites, Visitor.stmt]
      exact ((Keeps.enter hs rfl).andThen (expr_keeps hs e _)).andThen (.leave hs rfl)
  case brk =>
    intro place nodes scopes x hs hsites
    simp only [Stmt.sites, Visitor.stmt]
    exact (Keeps.enter hs rfl).andThen (.leave hs rfl)
  case cont =>
    intro place nodes scopes x hs hsites
    simp only [Stmt.sites, Visitor.stmt]
    exact (Keeps.enter hs rfl).andThen (.leave hs rfl)
  case inner =>
    intro place b ihb nodes scopes x hs hsites
    simp only [Stmt.sites, Visitor.stmt] at hsites ⊢
    exact ihb nodes scopes x hs hsites

/-- A function enters its own scope first, then that of its body. -/
theorem function_keepsSites (f : Function) :
    KeepsSites t f.sites fun x => ((Analysis.tracer t).function f x).2 := by
  intro nodes scopes x hs hsites
  simp only [Function.sites, Visitor.function] at hsites ⊢
  obtain ⟨id, s, hsite⟩ := hsites _ List.mem_cons_self
  have hscope : f.scope = some id := hsite.carried
  rw [hscope] at hsites ⊢
  refine .enclose (.function f) hs hscope rfl (hs.chained.cons hsite rfl) fun hs' => ?_
  exact (params_keeps hs' f.params _).andThen (block_stmt_keepsSites.1 f.body _ _ _ hs'
    fun site hmem => hsites site (List.mem_cons_of_mem _ hmem))

theorem functions_keepsSites (fs : List Function) :
    KeepsSites t (fun outer => fs.flatMap (·.sites outer))
      fun x => ((Analysis.tracer t).functions fs x).2 := by
  induction fs with
  | nil => exact fun _ _ _ _ _ => .refl
  | cons f fs ih =>
    intro nodes scopes x hs hsites
    simp only [List.flatMap_cons, carried_append] at hsites ⊢
    obtain ⟨hf, hfs⟩ := List.forall_mem_append.mp hsites
    exact (function_keepsSites f nodes scopes x hs hf).andThen (ih nodes scopes _ hs hfs)

/-! ## Programs -/

/-- The steps of the analysis of a program. -/
def Program.trace (t : Tables) (p : Program) : List (Step Analysis) :=
  ((Analysis.tracer t).program p (.start, [])).2.2

/-- The walk of a program up to where it is left. -/
theorem program_passes {p : Program} (hscope : p.scope = some id) (hchained : t.Chained [id])
    (hsites : t.Mirrors (p.functions.flatMap (·.sites [some id]))) :
    Passes t [] [.program p] (id :: carried (p.functions.flatMap (·.sites [some id]))) (.start, [])
      ((Analysis.tracer t).functions p.functions ((Analysis.tracer t).varDecls p.globals
        ((Analysis.tracer t).enter (.program p) (.start, [])))).2 := by
  have hs : Settled t [.program p] [id] := ⟨hchained, .program p, [], rfl, hscope⟩
  have hinner := (varDecls_keeps hs p.globals ((Analysis.tracer t).enter (.program p)
    (.start, []))).andThen (functions_keepsSites p.functions _ [id] _ hs hsites)
  have hentered : ((Analysis.visitor t).enter (.program p) .start).scopes = [id] :=
    Analysis.enter_scopes (.program p) hscope .start
  have henter : Passes t [] [.program p] [id] (.start, []) _ := .enter hscope hchained
  exact henter.trans (hinner hentered).2

/-- To leave the program is the last step; all others are settled. -/
theorem Program.trace_eq (p : Program) (hsites : t.Mirrors p.sites) :
    ∃ steps last q, p.trace t = steps ++ [last] ∧ last.visit = .leave (.program q) ∧
      Settles t [] steps ∧ (p.trace t).filterMap Step.entered? = carried p.sites := by
  rw [Program.sites] at hsites ⊢
  obtain ⟨id, s, hsite⟩ := hsites _ List.mem_cons_self
  have hscope : p.scope = some id := hsite.carried
  rw [hscope] at hsites ⊢
  obtain ⟨steps, hsteps, -, hsettles, hids⟩ := program_passes hscope
    (.outermost hsite.found hsite.parent) fun site hmem => hsites site (List.mem_cons_of_mem _ hmem)
  rw [Program.trace, Visitor.program]
  -- of the functions only the steps count from here on
  generalize (Analysis.tracer t).functions p.functions _ = walked at hsteps ⊢
  obtain ⟨functions, y⟩ := walked
  have hlast := Analysis.leave_entered? (t := t) (.program { p with functions }) hscope y.1
  have htrace : ((Analysis.tracer t).leave (.program { p with functions }) y).2 = steps ++ [_] :=
    congrArg (· ++ [_]) hsteps
  refine ⟨steps, _, _, htrace, rfl, hsettles, ?_⟩
  rw [htrace, List.filterMap_append, hids, List.filterMap_cons_none hlast]
  exact List.append_nil _

/-- Every step of a settled walk leaves the scopes as a chain, with that of the innermost
construct in front. -/
theorem Settles.settled {pre post : List (Step Analysis)} {step : Step Analysis}
    (h : Settles t nodes (pre ++ step :: post)) :
    Settled t (trackAll nodes (pre ++ [step])) step.after.scopes := by
  rw [trackAll_append]
  exact (settles_append.mp h).2.1

/-- If the sites have the scopes in the order of their numbers, so have the scopes they carry. -/
theorem carried_eq {sites : List Site} {n : Nat}
    (h : sites.map (·.scope) = (List.range n).map fun i => some ⟨i⟩) :
    carried sites = (List.range n).map ScopeId.mk := by
  have hall : carried sites = (sites.map (·.scope)).filterMap fun scope => scope := by
    rw [List.filterMap_map]
    rfl
  rw [hall, h, List.filterMap_map]
  exact congrFun List.filterMap_eq_map (List.range n)

/-- The analysis of a program with the tables built for it goes through the scopes of the
tables: it enters all of them in order, each once. So there is one diagnostic for each
duplicate of each scope, in the order of the scopes, and it names the line on which the scope
starts and stands at the duplicate. The last step is to leave the program. After every other
step, the scopes that the analysis is inside of are the chain of parents of the innermost one,
and that is the scope of the innermost construct. -/
theorem Program.trace_follows_tables (p : Program) :
    let q := p.withScopes.1
    let t := p.withScopes.2
    let traced := (Analysis.tracer t).program q (.start, [])
    (traced.1, traced.2.1.errors) = analyze t q ∧
    (q.trace t).filterMap Step.entered? = (List.range t.size).map ScopeId.mk ∧
    (analyze t q).2.toList.filter (·.isDuplicate) =
      (t.scopes.toList.flatMap fun s => s.duplicates.toList.map fun d =>
        (Mistake.duplicate d.name s.line).onLine d.line d.span) ∧
    (∃ steps last r, q.trace t = steps ++ [last] ∧ last.visit = .leave (.program r)) ∧
    ∀ pre step post, q.trace t = pre ++ step :: post → post ≠ [] →
      Settled t (trackAll [] (pre ++ [step])) step.after.scopes := by
  intro q t traced
  have hscopes := p.withScopes_sites_scope
  obtain ⟨steps, last, r, htrace, hlast, hsettles, hentered⟩ :=
    q.trace_eq p.withScopes_grown.mirrored
  refine ⟨?_, ?_, ?_, ⟨steps, last, r, htrace, hlast⟩, ?_⟩
  · have h := (Analysis.visitor t).traced_maps.program q (.start, [])
    rw [analyze, h]
  · rw [hentered, carried_eq hscopes]
  · rw [analyze_eq, ErrorList.toList_reportAll, ErrorList.toList_empty, List.nil_append,
      Program.mistakes_redeclared, redeclaredAt_eq hscopes]
    rfl
  · intro pre step post hpre hpost
    -- something comes after the step, so it is not the last one
    obtain ⟨init, final, rfl⟩ := (List.eq_nil_or_concat post).resolve_left hpost
    have happend : (pre ++ step :: init) ++ [final] = steps ++ [last] := by
      rw [← htrace, hpre, List.append_assoc, List.concat_eq_append, List.cons_append]
    obtain rfl : pre ++ step :: init = steps := (List.append_inj' happend rfl).1
    exact hsettles.settled

end Decaf
