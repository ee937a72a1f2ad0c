import Decaf.Proofs.Check.Trace

/-!
# What an analysis is inside of

The analysis pushes scopes and functions and counts loops when it enters a node, and undoes
that when it leaves the node, in another place of the code. This file shows that the two
match, for a walk of any node that begins in any state: with scopes and functions around or
without, and whether or not the tree carries scopes.

At every moment of the walk some nodes are entered and not yet left (`opened`). The state is
then the one that the walk began in, with these nodes stacked on it and with something
reported (`Analysis.Inside`). Each step keeps that, and so does a walk, by an induction over
the tree that is stated once for all visitors (`Visitor.Encloses`). In such a state the loop
depth of the innermost function is the number of loops that are open in it.
-/

namespace Decaf

/-! ## Walks that leave what they enter -/

/-- Whether a statement is a loop. -/
def Stmt.isLoop : Stmt → Bool
  | .loop .. => true
  | _ => false

namespace Node

/-- Whether a node is a loop. -/
def isLoop : Node → Bool
  | stmt s => s.isLoop
  | _ => false

/-- Whether a node is a function. -/
def isFunction : Node → Bool
  | function _ => true
  | _ => false

/-- What is left is the node that was entered, though the expressions inside it may have
got their types in between. -/
inductive Closes : Node → Node → Prop
  | program (p : Program) (functions : List Function) :
    Closes (.program p) (.program { p with functions })
  | function (f : Function) (body : Block) : Closes (.function f) (.function { f with body })
  | param (p : Param) : Closes (.param p) (.param p)
  | varDecl (d : VarDecl) : Closes (.varDecl d) (.varDecl d)
  | block (b : Block) (statements : List Stmt) : Closes (.block b) (.block { b with statements })
  | stmt {s s' : Stmt} : s'.place = s.place → s'.isLoop = s.isLoop → Closes (.stmt s) (.stmt s')
  | expr {e e' : Expr} : e'.place = e.place → Closes (.expr e) (.expr e')

end Node

namespace Visitor

variable {σ : Type} {v : Visitor σ} {R : List Node → σ → σ → Prop} {nodes : List Node}

/-- A relation between the states before and after a part of a walk inside some nodes. It
holds of a part that does nothing and of one part after another, and if it holds of what
happens in a node, it holds of the walk of the node. -/
structure Encloses (v : Visitor σ) (R : List Node → σ → σ → Prop) : Prop where
  refl : ∀ nodes s, R nodes s s
  trans : ∀ {nodes a b c}, R nodes a b → R nodes b c → R nodes a c
  node : ∀ n {n' nodes a b}, n.Closes n' → R (n :: nodes) (v.enter n a) b →
    R nodes a (v.leave n' b)

namespace Encloses

/-- Expressions in a row, if each is enclosed. -/
theorem exprs_of (h : v.Encloses R) {es : List Expr}
    (hes : ∀ e ∈ es, ∀ s, R nodes s (v.expr e s).2) (s : σ) : R nodes s (v.exprs es s).2 := by
  induction es generalizing s with
  | nil => exact h.refl nodes s
  | cons e es ih =>
    exact h.trans (hes e List.mem_cons_self s)
      (ih (fun e' he => hes e' (List.mem_cons_of_mem e he)) _)

/-- An expression is enclosed, by induction: entering, children, leaving. -/
theorem expr (h : v.Encloses R) (e : Expr) (nodes : List Node) (s : σ) :
    R nodes s (v.expr e s).2 := by
  induction e using Expr.induction generalizing nodes s with
  | literal p t c =>
    rw [Visitor.expr]
    exact h.node (.expr (.literal p t c)) (.expr rfl) (h.refl _ _)
  | scalar p t x =>
    rw [Visitor.expr]
    exact h.node (.expr (.location p t x none)) (.expr rfl) (h.refl _ _)
  | element p t x i ih =>
    rw [Visitor.expr]
    exact h.node (.expr (.location p t x (some i))) (.expr rfl) (ih _ _)
  | binary p t op l r ihl ihr =>
    rw [Visitor.expr]
    exact h.node (.expr (.binary p t op l r)) (.expr rfl) (h.trans (ihl _ _) (ihr _ _))
  | unary p t op e ih =>
    rw [Visitor.expr]
    exact h.node (.expr (.unary p t op e)) (.expr rfl) (ih _ _)
  | call p t g args ih =>
    rw [Visitor.expr]
    exact h.node (.expr (.call p t g args)) (.expr rfl)
      (h.exprs_of (fun e he => ih e he _) _)

theorem varDecls (h : v.Encloses R) (ds : List VarDecl) (s : σ) : R nodes s (v.varDecls ds s) := by
  induction ds generalizing s with
  | nil => exact h.refl nodes s
  | cons d ds ih => exact h.trans (h.node (.varDecl d) (.varDecl d) (h.refl _ _)) (ih _)

theorem params (h : v.Encloses R) (ps : List Param) (s : σ) : R nodes s (v.params ps s) := by
  induction ps generalizing s with
  | nil => exact h.refl nodes s
  | cons p ps ih => exact h.trans (h.node (.param p) (.param p) (h.refl _ _)) (ih _)

theorem stmts_of (h : v.Encloses R) {ss : List Stmt}
    (hss : ∀ x ∈ ss, ∀ nodes s, R nodes s (v.stmt x s).2) (s : σ) :
    R nodes s (v.stmts ss s).2 := by
  induction ss generalizing s with
  | nil => exact h.refl nodes s
  | cons x ss ih =>
    exact h.trans (hss x List.mem_cons_self nodes s)
      (ih (fun y hy => hss y (List.mem_cons_of_mem x hy)) _)

/-- Blocks and statements are enclosed. -/
theorem block_stmt (h : v.Encloses R) :
    (∀ (b : Block) (nodes : List Node) (s : σ), R nodes s (v.block b s).2) ∧
    ∀ (x : Stmt) (nodes : List Node) (s : σ), R nodes s (v.stmt x s).2 := by
  refine Block.induction ?mk ?assign ?call ?ifThen ?ifElse ?loop ?ret ?brk ?cont ?inner
  case mk =>
    intro locals statements p scope ih nodes s
    rw [Visitor.block]
    exact h.node (.block ⟨locals, statements, p, scope⟩) (.block _ _)
      (h.trans (h.varDecls locals _) (h.stmts_of ih _))
  case assign =>
    intro p target value nodes s
    rw [Visitor.stmt]
    exact h.node (.stmt (.assign p target value)) (.stmt rfl rfl)
      (h.trans (h.expr target _ _) (h.expr value _ _))
  case call =>
    intro p e nodes s
    rw [Visitor.stmt]
    exact h.expr e nodes s
  case ifThen =>
    intro p test b ihb nodes s
    rw [Visitor.stmt]
    exact h.node (.stmt (.conditional p test b none)) (.stmt rfl rfl)
      (h.trans (h.expr test _ _) (ihb _ _))
  case ifElse =>
    intro p test b c ihb ihc nodes s
    rw [Visitor.stmt]
    exact h.node (.stmt (.conditional p test b (some c))) (.stmt rfl rfl)
      (h.trans (h.trans (h.expr test _ _) (ihb _ _)) (ihc _ _))
  case loop =>
    intro p test b ihb nodes s
    rw [Visitor.stmt]
    exact h.node (.stmt (.loop p test b)) (.stmt rfl rfl)
      (h.trans (h.expr test _ _) (ihb _ _))
  case ret =>
    intro p value nodes s
    cases value with
    | none =>
      rw [Visitor.stmt]
      exact h.node (.stmt (.ret p none)) (.stmt rfl rfl) (h.refl _ _)
    | some e =>
      rw [Visitor.stmt]
      exact h.node (.stmt (.ret p (some e))) (.stmt rfl rfl) (h.expr e _ _)
  case brk =>
    intro p nodes s
    rw [Visitor.stmt]
    exact h.node (.stmt (.break p)) (.stmt rfl rfl) (h.refl _ _)
  case cont =>
    intro p nodes s
    rw [Visitor.stmt]
    exact h.node (.stmt (.continue p)) (.stmt rfl rfl) (h.refl _ _)
  case inner =>
    intro p b ihb nodes s
    rw [Visitor.stmt]
    exact ihb nodes s

/-- A function is enclosed: its parameters and its body are walked between entering and leaving
it. -/
theorem function (h : v.Encloses R) (f : Function) (s : σ) : R nodes s (v.function f s).2 := by
  rw [Visitor.function]
  exact h.node (.function f) (.function f _)
    (h.trans (h.params f.params _) (h.block_stmt.1 f.body _ _))

theorem functions (h : v.Encloses R) (fs : List Function) (s : σ) :
    R nodes s (v.functions fs s).2 := by
  induction fs generalizing s with
  | nil => exact h.refl nodes s
  | cons f fs ih => exact h.trans (h.function f s) (ih _)

/-- The relation holds of the walk of any node, inside any others. -/
theorem walk (h : v.Encloses R) (n : Node) (nodes : List Node) (s : σ) :
    R nodes s (v.walk n s) := by
  cases n with
  | program p =>
    rw [Visitor.walk, Visitor.program]
    exact h.node (.program p) (.program p _)
      (h.trans (h.varDecls p.globals _) (h.functions p.functions _))
  | function f => exact h.function f s
  | param p => exact h.node (.param p) (.param p) (h.refl _ _)
  | varDecl d => exact h.node (.varDecl d) (.varDecl d) (h.refl _ _)
  | block b => exact h.block_stmt.1 b nodes s
  | stmt x => exact h.block_stmt.2 x nodes s
  | expr e => exact h.expr e nodes s

end Encloses

end Visitor

/-! ## States inside nodes -/

/-- Which nodes are entered and not yet left after a step, the innermost first. -/
def Visit.opened (nodes : List Node) : Visit → List Node
  | .enter node => node :: nodes
  | .leave _ => nodes.tail

/-- Which nodes are entered and not yet left after some steps. -/
def opened {σ : Type} (nodes : List Node) (steps : List (Step σ)) : List Node :=
  steps.foldl (fun nodes step => step.visit.opened nodes) nodes

/-- Nodes are opened step after step. -/
theorem opened_append {σ : Type} (nodes : List Node) (xs ys : List (Step σ)) :
    opened nodes (xs ++ ys) = opened (opened nodes xs) ys :=
  List.foldl_append

namespace Analysis

/-- What being in a node means for scopes, functions and loops. -/
def stacked (a : Analysis) : Node → Analysis
  | .program p => a.inside p.scope
  | .function f => a.insideFunction f
  | .block b => a.inside b.scope
  | .stmt s => if s.isLoop then a.mapDepth (· + 1) else a
  | .param _ | .varDecl _ | .expr _ => a

/-- What being in nodes means, the innermost first. -/
def among (a : Analysis) : List Node → Analysis
  | [] => a
  | n :: nodes => (a.among nodes).stacked n

/-- A state that an analysis can have inside of nodes, if it began with `initial`. -/
def Inside (initial : Analysis) (nodes : List Node) (a : Analysis) : Prop :=
  ∃ found, a = (initial.among nodes).report found

variable {t : Tables} {initial : Analysis} {nodes : List Node}

/-- At the start nothing is open. -/
theorem Inside.self (initial : Analysis) : initial.Inside [] initial :=
  ⟨[], rfl⟩

/-- What is reported does not change what a node stacks. -/
theorem stacked_report (a : Analysis) (ds : List Diagnostic) (n : Node) :
    (a.report ds).stacked n = (a.stacked n).report ds := by
  cases n with
  | stmt s =>
    obtain ⟨scopes, functions, errors⟩ := a
    cases hs : s.isLoop with
    | false => simp only [stacked, hs, Bool.false_eq_true, if_false]
    | true =>
      simp only [stacked, hs, if_true]
      cases functions <;> rfl
  | _ => rfl

/-- Entering a node stacks it and reports something. -/
theorem enter_stacked (n : Node) (a : Analysis) :
    ∃ found, (visitor t).enter n a = (a.stacked n).report found := by
  cases n with
  | program p => exact ⟨_, enterScope_eq a p.scope⟩
  | function f => exact ⟨_, enter_function f a⟩
  | block b => exact ⟨_, enterScope_eq a b.scope⟩
  | stmt s => cases s <;> exact ⟨[], rfl⟩
  | param | varDecl | expr => exact ⟨[], rfl⟩

/-- The step into a node. -/
theorem Inside.enter {a : Analysis} (h : initial.Inside nodes a) (n : Node) :
    initial.Inside (n :: nodes) ((visitor t).enter n a) := by
  obtain ⟨ds, rfl⟩ := h
  obtain ⟨es, henter⟩ := enter_stacked (t := t) n ((initial.among nodes).report ds)
  refine ⟨ds ++ es, ?_⟩
  rw [henter, stacked_report, report_report, among]

/-- Leaving a statement uncounts a loop, or does nothing to the stacks. -/
theorem leave_stmt (s : Stmt) (a : Analysis) :
    ∃ found, (visitor t).leave (.stmt s) a =
      (if s.isLoop then a.mapDepth (· - 1) else a).report found := by
  cases s <;> exact ⟨_, rfl⟩

/-- Leaving a node takes off what entering it put on. The tree that is left may have other types
than the one that was entered. -/
theorem leave_stacked {n n' : Node} (h : n.Closes n') (a : Analysis) (ds : List Diagnostic) :
    ∃ found, (visitor t).leave n' ((a.stacked n).report ds) = a.report (ds ++ found) := by
  cases h with
  | program p functions =>
    refine ⟨Rules.entryPoint (((a.inside p.scope).report ds).lookup t "main") p.place, ?_⟩
    rw [leave_program, stacked, report_report, leaveScope_inside]
  | function f body =>
    refine ⟨[], ?_⟩
    rw [List.append_nil]
    exact leave_function f { f with body } a ds rfl
  | block b statements =>
    refine ⟨[], ?_⟩
    rw [List.append_nil]
    exact leaveScope_inside a b.scope ds
  | @stmt s s' hplace hloop =>
    obtain ⟨es, hleave⟩ := leave_stmt (t := t) s' ((a.stacked (.stmt s)).report ds)
    refine ⟨es, ?_⟩
    rw [hleave, ← report_report, hloop, stacked]
    cases s.isLoop with
    | false => rfl
    | true => exact congrArg (·.report es) (mapDepth_report_mapDepth a ds)
  | param p => exact ⟨_, report_report a ds _⟩
  | varDecl d => exact ⟨_, report_report a ds _⟩
  | expr => exact ⟨_, report_report a ds _⟩

/-- The step out of a node. -/
theorem Inside.leave {a : Analysis} {n n' : Node} (h : initial.Inside (n :: nodes) a)
    (hn : n.Closes n') : initial.Inside nodes ((visitor t).leave n' a) := by
  obtain ⟨ds, rfl⟩ := h
  obtain ⟨es, hleave⟩ := leave_stacked (t := t) hn (initial.among nodes) ds
  exact ⟨ds ++ es, hleave⟩

/-! ## Loops -/

/-- The loop depth inside of nodes: the loops among them that are in the innermost function.
If none of them is a function, that is a function that was entered before the start, with the
loops that were around the start. -/
def depthInside (initial : Analysis) (nodes : List Node) : Nat :=
  (if nodes.any Node.isFunction then 0 else (initial.functions.head?.map (·.loopDepth)).getD 0) +
    (nodes.takeWhile fun n => !n.isFunction).countP Node.isLoop

/-- In a function no loop is open yet, whatever is open around it. -/
theorem depthInside_function (n : Node) (h : n.isFunction = true) :
    initial.depthInside (n :: nodes) = 0 := by
  simp [depthInside, h]

/-- A loop counts for the function that it is in. -/
theorem depthInside_loop (n : Node) (h : n.isLoop = true) (hf : n.isFunction = false) :
    initial.depthInside (n :: nodes) = initial.depthInside nodes + 1 := by
  simp [depthInside, h, hf, Nat.add_assoc]

theorem depthInside_other (n : Node) (h : n.isLoop = false) (hf : n.isFunction = false) :
    initial.depthInside (n :: nodes) = initial.depthInside nodes := by
  simp [depthInside, h, hf]

/-- The count is that of the innermost function. -/
theorem head?_mapDepth {a : Analysis} {f : Nat → Nat} {c : FunctionContext}
    (h : (a.mapDepth f).functions.head? = some c) :
    ∃ d, a.functions.head? = some d ∧ c.loopDepth = f d.loopDepth := by
  obtain ⟨scopes, functions, errors⟩ := a
  cases functions with
  | nil => cases h
  | cons d rest =>
    obtain rfl := Option.some.inj h
    exact ⟨d, rfl, rfl⟩

/-- The loop depth that the analysis keeps is the number of loops that are open. -/
theorem loopDepth_among (nodes : List Node) {c : FunctionContext}
    (h : (initial.among nodes).functions.head? = some c) :
    c.loopDepth = initial.depthInside nodes := by
  induction nodes generalizing c with
  | nil =>
    have hc : initial.functions.head? = some c := h
    simp [depthInside, hc]
  | cons n nodes ih =>
    rw [among] at h
    cases n with
    | function f =>
      obtain rfl := Option.some.inj h
      exact (depthInside_function (.function f) rfl).symm
    | stmt s =>
      cases hs : s.isLoop with
      | false =>
        rw [stacked, hs, if_neg Bool.false_ne_true] at h
        rw [depthInside_other (.stmt s) hs rfl, ih h]
      | true =>
        rw [stacked, hs, if_pos rfl] at h
        obtain ⟨d, hd, hc⟩ := head?_mapDepth h
        rw [depthInside_loop (.stmt s) hs rfl, hc, ih hd]
    | program | param | varDecl | block | expr => rw [depthInside_other _ rfl rfl, ih h]

/-- The loop depth of the innermost function is the number of open loops. -/
theorem Inside.loopDepth {a : Analysis} (h : initial.Inside nodes a) {c : FunctionContext}
    (hc : a.functions.head? = some c) : c.loopDepth = initial.depthInside nodes := by
  obtain ⟨ds, rfl⟩ := h
  exact loopDepth_among nodes hc

/-- There is a loop to leave. -/
theorem Inside.loopDepth_pos {a : Analysis} {n n' : Node} (h : initial.Inside (n :: nodes) a)
    (hn : n.Closes n') (hloop : n'.isLoop = true) {c : FunctionContext}
    (hc : a.functions.head? = some c) : 0 < c.loopDepth := by
  have hdepth := h.loopDepth hc
  cases hn with
  | @stmt s s' hplace hsame =>
    -- the innermost open node is the loop itself, so there is at least one
    rw [depthInside_loop (.stmt s) (hsame.symm.trans hloop) rfl] at hdepth
    omega
  | _ => cases hloop

end Analysis

/-! ## All steps of a walk -/

/-- A step inside of nodes: the states before and after it are as they should be, and if it
leaves a node, that is the innermost one. -/
structure Step.Fits (initial : Analysis) (nodes : List Node) (step : Step Analysis) : Prop where
  before : initial.Inside nodes step.before
  after : initial.Inside (step.visit.opened nodes) step.after
  closes : ∀ n', step.visit = .leave n' → ∃ n around, nodes = n :: around ∧ n.Closes n'

/-- Steps one after the other, the first of them inside of nodes. -/
def Fit (initial : Analysis) : List Node → List (Step Analysis) → Prop
  | _, [] => True
  | nodes, step :: rest => step.Fits initial nodes ∧ Fit initial (step.visit.opened nodes) rest

variable {t : Tables} {initial : Analysis} {nodes nodes' nodes'' : List Node} {x y z : Traced}

/-- Steps fit one after the other. -/
theorem fit_append {xs ys : List (Step Analysis)} :
    Fit initial nodes (xs ++ ys) ↔ Fit initial nodes xs ∧ Fit initial (opened nodes xs) ys := by
  induction xs generalizing nodes with
  | nil => exact (and_iff_right trivial).symm
  | cons x xs ih =>
    rw [List.cons_append, Fit, Fit, ih, and_assoc]
    rfl

/-- A part of a walk whose steps fit, from the inside of some nodes to the inside of others. -/
def Proceeds (initial : Analysis) (nodes nodes' : List Node) (x y : Traced) : Prop :=
  initial.Inside nodes x.1 → initial.Inside nodes' y.1 ∧
    ∃ steps, y.2 = x.2 ++ steps ∧ opened nodes steps = nodes' ∧ Fit initial nodes steps

theorem Proceeds.refl : Proceeds initial nodes nodes x x :=
  fun hx => ⟨hx, [], (List.append_nil _).symm, rfl, trivial⟩

/-- Walks put together. -/
theorem Proceeds.trans (h : Proceeds initial nodes nodes' x y)
    (h' : Proceeds initial nodes' nodes'' y z) : Proceeds initial nodes nodes'' x z := by
  intro hx
  obtain ⟨hy, xs, hxs, hopened, hfit⟩ := h hx
  obtain ⟨hz, ys, hys, hopened', hfit'⟩ := h' hy
  refine ⟨hz, xs ++ ys, ?_, ?_, ?_⟩
  · rw [hys, hxs, List.append_assoc]
  · rw [opened_append, hopened, hopened']
  · rw [fit_append, hopened]
    exact ⟨hfit, hfit'⟩

/-- A step that enters a node opens it. -/
theorem Proceeds.enter (n : Node) :
    Proceeds initial nodes (n :: nodes) x ((Analysis.tracer t).enter n x) := by
  intro hx
  have hafter := hx.enter (t := t) n
  have hcloses : ∀ n', Visit.enter n = .leave n' →
      ∃ m around, nodes = m :: around ∧ m.Closes n' := by
    intro n' hvisit
    cases hvisit
  exact ⟨hafter, [_], rfl, rfl, ⟨hx, hafter, hcloses⟩, trivial⟩

/-- A step that leaves a node closes the innermost one. -/
theorem Proceeds.leave {n n' : Node} (hn : n.Closes n') :
    Proceeds initial (n :: nodes) nodes x ((Analysis.tracer t).leave n' x) := by
  intro hx
  have hafter := hx.leave (t := t) hn
  have hcloses : ∀ m, Visit.leave n' = .leave m →
      ∃ k around, n :: nodes = k :: around ∧ k.Closes m := by
    intro m hvisit
    obtain rfl := Visit.leave.inj hvisit
    exact ⟨n, nodes, rfl, hn⟩
  exact ⟨hafter, [_], rfl, rfl, ⟨hx, hafter, hcloses⟩, trivial⟩

/-- The analysis with its record of steps leaves whatever it enters. -/
theorem tracer_encloses :
    (Analysis.tracer t).Encloses fun nodes => Proceeds initial nodes nodes where
  refl _ _ := .refl
  trans := .trans
  node n _ _ _ _ hn h := ((Proceeds.enter n).trans h).trans (.leave hn)

theorem Fit.fits {pre post : List (Step Analysis)} {step : Step Analysis}
    (h : Fit initial nodes (pre ++ step :: post)) : step.Fits initial (opened nodes pre) :=
  (fit_append.mp h).2.1

/-- The analysis of any node leaves the stacks as they were, whatever state it begins in:
after it, the scopes and the functions with their return types and loop depths are those
from before, and the errors are those from before with others appended. Before and after each
step in between, the loop depth of the innermost function is the number of loops that were
entered and not yet left in it, on top of those around the start if the function is from
before. What is left is always the node that was entered last, so no loop is ever left at
depth zero. -/
theorem Analysis.walk_balanced (t : Tables) (initial : Analysis) (n : Node) :
    let result := (visitor t).walk n initial
    let traced := (tracer t).walk n (initial, [])
    traced.1 = result ∧
    result.scopes = initial.scopes ∧
    result.functions = initial.functions ∧
    (∃ found, result.errors.toList = initial.errors.toList ++ found) ∧
    opened [] traced.2 = [] ∧
    ∀ pre step post, traced.2 = pre ++ step :: post →
      (∀ c, step.before.functions.head? = some c →
        c.loopDepth = initial.depthInside (opened [] pre)) ∧
      (∀ c, step.after.functions.head? = some c →
        c.loopDepth = initial.depthInside (opened [] (pre ++ [step]))) ∧
      ∀ n', step.visit = .leave n' →
        (∃ m around, opened [] pre = m :: around ∧ m.Closes n') ∧
        (n'.isLoop = true → ∀ c, step.before.functions.head? = some c → 0 < c.loopDepth) := by
  intro result traced
  have hsame : traced.1 = result := ((visitor t).traced_maps.walk n (initial, [])).symm
  obtain ⟨⟨found, hfound⟩, steps, hsteps, hopened, hfit⟩ :=
    tracer_encloses.walk n [] (initial, []) (Inside.self initial)
  have hresult : result = initial.report found := hsame.symm.trans hfound
  obtain rfl : traced.2 = steps := hsteps
  refine ⟨hsame, ?_, ?_, ⟨found, ?_⟩, hopened, ?_⟩
  · rw [hresult]
    rfl
  · rw [hresult]
    rfl
  · rw [hresult]
    exact ErrorList.toList_reportAll initial.errors found
  · intro pre step post hpre
    rw [hpre] at hfit
    have hstep := hfit.fits
    refine ⟨fun c => hstep.before.loopDepth, fun c => ?_, fun n' hleave => ?_⟩
    · rw [opened_append]
      exact hstep.after.loopDepth
    · obtain ⟨m, around, hpre, hm⟩ := hstep.closes n' hleave
      have hbefore := hstep.before
      rw [hpre] at hbefore
      exact ⟨⟨m, around, hpre, hm⟩, fun hloop c => hbefore.loopDepth_pos hm hloop⟩

end Decaf
