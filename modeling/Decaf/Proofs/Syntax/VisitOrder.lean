import Decaf.Proofs.Syntax.Nodes
import Decaf.Proofs.Syntax.Occurrences

/-!
# The order in which a walk visits the nodes

A walk enters every node of a program once and leaves it once, and what it does in between is
to walk the children, in order. So its steps are brackets around brackets (`Bracketed`).

The same node can stand at several places of a tree. A place is given by a path: which child
to take at the root, which one there, and so on (`Node.descend`). For every path that leads to
a node there is one step that enters it and one that leaves it, and these are all steps of the
walk (`Node.Toured`). Paths compare as the steps do: a longer path lies between the two
steps of a shorter one, and a path that branches off to the right comes later.
-/

namespace Decaf

/-! ## The steps of a node -/

namespace Visitor

/-- What is already there stays in front. -/
theorem logger_maps_append (visits : List Visit) : logger.Maps logger (visits ++ ·) :=
  ⟨fun _ _ => List.append_assoc .., fun _ _ => List.append_assoc .., fun _ _ => rfl⟩

end Visitor

/-- The steps of a walk of a node. -/
def Node.visits (n : Node) : List Visit :=
  Visitor.logger.walk n []

theorem Program.visits_eq (p : Program) : p.visits = (Node.program p).visits :=
  (Visitor.recorder_maps_logger.walk (.program p) #[]).symm

namespace Visitor

/-- A log only grows: what a node adds to it does not depend on what is there. -/
theorem logger_walk (n : Node) (visits : List Visit) :
    logger.walk n visits = visits ++ n.visits := by
  have h := (logger_maps_append visits).walk n []
  rw [List.append_nil] at h
  exact h

-- A walk that only records changes no tree, as it is so for the one that collects expressions.

theorem logger_expr (e : Expr) (visits : List Visit) :
    logger.expr e visits = (e, visits ++ (Node.expr e).visits) := by
  have h := (logger_maps_collector.expr e visits).symm.trans (collector_expr e _)
  exact Prod.ext (Prod.mk.inj h).1 (logger_walk (.expr e) visits)

theorem logger_block (b : Block) (visits : List Visit) :
    logger.block b visits = (b, visits ++ (Node.block b).visits) := by
  have h := (logger_maps_collector.block_stmt.1 b visits).symm.trans (collector_block_stmt.1 b _)
  exact Prod.ext (Prod.mk.inj h).1 (logger_walk (.block b) visits)

theorem logger_stmt (x : Stmt) (visits : List Visit) :
    logger.stmt x visits = (x, visits ++ (Node.stmt x).visits) := by
  have h := (logger_maps_collector.block_stmt.2 x visits).symm.trans (collector_block_stmt.2 x _)
  exact Prod.ext (Prod.mk.inj h).1 (logger_walk (.stmt x) visits)

theorem logger_function (f : Function) (visits : List Visit) :
    logger.function f visits = (f, visits ++ (Node.function f).visits) := by
  have hbody : (logger.function f visits).1 = f := by
    rw [Visitor.function, logger_block]
  exact Prod.ext hbody (logger_walk (.function f) visits)

theorem logger_exprs (es : List Expr) (visits : List Visit) :
    logger.exprs es visits = (es, visits ++ (es.map Node.expr).flatMap Node.visits) := by
  induction es generalizing visits with
  | nil => rw [Visitor.exprs, List.map_nil, List.flatMap_nil, List.append_nil]
  | cons e es ih =>
    rw [Visitor.exprs, logger_expr, ih, List.map_cons, List.flatMap_cons, List.append_assoc]

theorem logger_stmts (ss : List Stmt) (visits : List Visit) :
    logger.stmts ss visits = (ss, visits ++ (ss.map Node.stmt).flatMap Node.visits) := by
  induction ss generalizing visits with
  | nil => rw [Visitor.stmts, List.map_nil, List.flatMap_nil, List.append_nil]
  | cons x ss ih =>
    rw [Visitor.stmts, logger_stmt, ih, List.map_cons, List.flatMap_cons, List.append_assoc]

theorem logger_functions (fs : List Function) (visits : List Visit) :
    logger.functions fs visits = (fs, visits ++ (fs.map Node.function).flatMap Node.visits) := by
  induction fs generalizing visits with
  | nil => rw [Visitor.functions, List.map_nil, List.flatMap_nil, List.append_nil]
  | cons f fs ih =>
    rw [Visitor.functions, logger_function, ih, List.map_cons, List.flatMap_cons,
      List.append_assoc]

theorem logger_varDecls (ds : List VarDecl) (visits : List Visit) :
    logger.varDecls ds visits = visits ++ (ds.map Node.varDecl).flatMap Node.visits := by
  induction ds generalizing visits with
  | nil => exact (List.append_nil _).symm
  | cons d ds ih =>
    have hcons : logger.varDecls (d :: ds) visits =
        logger.varDecls ds (logger.walk (.varDecl d) visits) := rfl
    rw [hcons, logger_walk, ih, List.map_cons, List.flatMap_cons, List.append_assoc]

theorem logger_params (ps : List Param) (visits : List Visit) :
    logger.params ps visits = visits ++ (ps.map Node.param).flatMap Node.visits := by
  induction ps generalizing visits with
  | nil => exact (List.append_nil _).symm
  | cons p ps ih =>
    have hcons : logger.params (p :: ps) visits =
        logger.params ps (logger.walk (.param p) visits) := rfl
    rw [hcons, logger_walk, ih, List.map_cons, List.flatMap_cons, List.append_assoc]

end Visitor

namespace Node

/-- A statement that is only a call or only a block stands for the call or the block. -/
def unwrapped : Node → Node
  | stmt (.call _ e) => expr e
  | stmt (.block _ b) => block b
  | n => n

/-- The nodes that a walk goes to directly from a node, in order. -/
def inner (n : Node) : List Node :=
  n.children.map unwrapped

/-- A block that stands as a statement is walked as the block. -/
theorem visits_unwrapped (n : Node) : n.unwrapped.visits = n.visits := by
  cases n with
  | stmt s =>
    cases s with
    | call p e =>
      rw [unwrapped, visits, visits, Visitor.walk, Visitor.walk, Visitor.stmt]
    | block p b =>
      rw [unwrapped, visits, visits, Visitor.walk, Visitor.walk, Visitor.stmt]
    | _ => rfl
  | _ => rfl

theorem unwrapped_unwrapped (n : Node) : n.unwrapped.unwrapped = n.unwrapped := by
  cases n with
  | stmt s => cases s <;> rfl
  | _ => rfl

-- Only the walk of the node itself is opened, step by step: as rules for simp, these equations
-- would open the walks of its children as well.

/-- The steps of an expression are a bracket around the steps of its children. -/
theorem visits_expr (e : Expr) :
    (expr e).visits =
      .enter (expr e) :: ((expr e).children.flatMap visits ++ [.leave (expr e)]) := by
  have henter : Visitor.logger.enter (.expr e) [] = [.enter (.expr e)] := rfl
  have hclose (s : List Visit) : (Visitor.logger.close e s).2 = s ++ [.leave (.expr e)] := rfl
  rw [visits, Visitor.walk]
  cases e with
  | literal p t c => rfl
  | location p t x index =>
    cases index with
    | none => rfl
    | some i =>
      rw [Visitor.expr, henter, Visitor.logger_expr, hclose]
      simp [children]
  | binary p t op l r =>
    rw [Visitor.expr, henter, Visitor.logger_expr, Visitor.logger_expr, hclose]
    simp [children]
  | unary p t op e =>
    rw [Visitor.expr, henter, Visitor.logger_expr, hclose]
    simp [children]
  | call p t f args =>
    rw [Visitor.expr, henter, Visitor.logger_exprs, hclose]
    simp [children]

/-- The same for a statement that is no block. -/
theorem visits_stmt (s : Stmt) (h : (stmt s).unwrapped = stmt s) :
    (stmt s).visits =
      .enter (stmt s) :: ((stmt s).children.flatMap visits ++ [.leave (stmt s)]) := by
  have henter : Visitor.logger.enter (.stmt s) [] = [.enter (.stmt s)] := rfl
  have hleave (l : List Visit) : Visitor.logger.leave (.stmt s) l = l ++ [.leave (.stmt s)] := rfl
  rw [visits, Visitor.walk]
  cases s with
  | call p e => cases h
  | block p b => cases h
  | assign p target value =>
    rw [Visitor.stmt, henter, Visitor.logger_expr, Visitor.logger_expr, hleave]
    simp [children]
  | conditional p test b c =>
    cases c with
    | none =>
      rw [Visitor.stmt, henter, Visitor.logger_expr, Visitor.logger_block, hleave]
      simp [children]
    | some c =>
      rw [Visitor.stmt, henter, Visitor.logger_expr, Visitor.logger_block, Visitor.logger_block,
        hleave]
      simp [children]
  | loop p test b =>
    rw [Visitor.stmt, henter, Visitor.logger_expr, Visitor.logger_block, hleave]
    simp [children]
  | ret p value =>
    cases value with
    | none => rfl
    | some e =>
      rw [Visitor.stmt, henter, Visitor.logger_expr, hleave]
      simp [children]
  | «break» p => rfl
  | «continue» p => rfl

/-- Between the steps into and out of a node, its children are walked. -/
theorem visits_eq (n : Node) (h : n.unwrapped = n) :
    n.visits = .enter n :: (n.children.flatMap visits ++ [.leave n]) := by
  have henter : Visitor.logger.enter n [] = [.enter n] := rfl
  have hleave (l : List Visit) : Visitor.logger.leave n l = l ++ [.leave n] := rfl
  cases n with
  | program p =>
    rw [visits, Visitor.walk, Visitor.program, henter, Visitor.logger_varDecls,
      Visitor.logger_functions, hleave]
    simp [children]
  | function f =>
    rw [visits, Visitor.walk, Visitor.function, henter, Visitor.logger_params,
      Visitor.logger_block, hleave]
    simp [children]
  | param p => rfl
  | varDecl d => rfl
  | block b =>
    obtain ⟨locals, statements, place, scope⟩ := b
    rw [visits, Visitor.walk, Visitor.block, henter, Visitor.logger_varDecls,
      Visitor.logger_stmts, hleave]
    simp [children]
  | stmt s => exact visits_stmt s h
  | expr e => exact visits_expr e

/-- Passing over statements that are blocks changes no steps. -/
theorem inner_flatMap_visits (n : Node) : n.inner.flatMap visits = n.children.flatMap visits := by
  rw [inner, List.flatMap_map]
  exact congrArg (n.children.flatMap ·) (funext visits_unwrapped)

/-- Seen this way, no child is a statement that is a block. -/
theorem unwrapped_of_mem_inner {n c : Node} (h : c ∈ n.inner) : c.unwrapped = c := by
  obtain ⟨m, -, rfl⟩ := List.mem_map.mp h
  exact m.unwrapped_unwrapped

/-- The steps of a node are brackets around those of the nodes inside it. -/
theorem visits_eq_inner {n : Node} (h : n.unwrapped = n) :
    n.visits = .enter n :: (n.inner.flatMap visits ++ [.leave n]) := by
  rw [inner_flatMap_visits, visits_eq n h]

/-- A node adds its own two steps to those inside it. -/
theorem length_visits {n : Node} (h : n.unwrapped = n) :
    n.visits.length = (n.inner.flatMap visits).length + 2 := by
  rw [visits_eq_inner h, List.length_cons, List.length_append, List.length_singleton]

/-- The steps of one child among those of its siblings. -/
theorem visits_split {ns : List Node} {c : Node} {i : Nat} (h : ns[i]? = some c) :
    ns.flatMap visits =
      (ns.take i).flatMap visits ++ (c.visits ++ (ns.drop (i + 1)).flatMap visits) := by
  obtain ⟨hi, rfl⟩ := List.getElem?_eq_some_iff.mp h
  calc ns.flatMap visits
    _ = (ns.take i ++ ns.drop i).flatMap visits := by rw [List.take_append_drop]
    _ = _ := by rw [List.drop_eq_getElem_cons hi, List.flatMap_append, List.flatMap_cons]

/-- Induction over the nodes that a walk goes to. -/
theorem induction {motive : Node → Prop}
    (step : ∀ n, n.unwrapped = n → (∀ c ∈ n.inner, motive c) → motive n) (n : Node)
    (h : n.unwrapped = n) : motive n := by
  -- the steps of a child are some of those of the node, so there are fewer
  induction hlength : n.visits.length using Nat.strong_induction_on generalizing n with
  | _ length ih =>
    refine step n h fun c hc => ih _ ?_ c (unwrapped_of_mem_inner hc) rfl
    obtain ⟨i, hi⟩ := List.mem_iff_getElem?.mp hc
    have hn := length_visits h
    rw [visits_split hi, List.length_append, List.length_append] at hn
    omega

end Node

/-! ## Brackets -/

/-- Steps that pair up: what is entered is left again, and all that is entered in between is
left in between. -/
inductive Bracketed : List Visit → Prop
  | nil : Bracketed []
  | node (n : Node) {inside after : List Visit} : Bracketed inside → Bracketed after →
    Bracketed (.enter n :: (inside ++ .leave n :: after))

theorem Bracketed.append {xs ys : List Visit} (h : Bracketed xs) (h' : Bracketed ys) :
    Bracketed (xs ++ ys) := by
  induction h with
  | nil => exact h'
  | node n hinside hafter ih ih' =>
    rw [List.cons_append, List.append_assoc, List.cons_append]
    exact .node n hinside ih'

theorem Bracketed.flatMap {ns : List Node} (h : ∀ n ∈ ns, Bracketed n.visits) :
    Bracketed (ns.flatMap Node.visits) := by
  induction ns with
  | nil => exact .nil
  | cons n ns ih =>
    exact (h n List.mem_cons_self).append (ih fun m hm => h m (List.mem_cons_of_mem n hm))

namespace Node

/-- The steps of a node are brackets. -/
theorem visits_bracketed {n : Node} (h : n.unwrapped = n) : Bracketed n.visits := by
  refine Node.induction (motive := fun n => Bracketed n.visits) (fun n h ih => ?_) n h
  rw [visits_eq_inner h]
  exact .node n (.flatMap ih) .nil

theorem inner_bracketed (n : Node) : Bracketed (n.inner.flatMap visits) :=
  .flatMap fun _ hc => visits_bracketed (unwrapped_of_mem_inner hc)

/-! ## Paths -/

/-- The node that a path leads to: the child at the first position, from there the child at
the second, and so on. -/
def descend : Node → List Nat → Option Node
  | n, [] => some n
  | n, i :: path => n.inner[i]?.bind (·.descend path)

/-- How many steps of a node come before those of its child at a position. -/
def offset (n : Node) (i : Nat) : Nat :=
  1 + ((n.inner.take i).flatMap visits).length

/-- Where among the steps of a node the one is that enters the node at a path. -/
def entersAt : Node → List Nat → Nat
  | _, [] => 0
  | n, i :: path => n.offset i + n.inner[i]?.elim 0 (·.entersAt path)

/-- Where among the steps of a node the one is that leaves the node at a path. -/
def leavesAt : Node → List Nat → Nat
  | n, [] => n.visits.length - 1
  | n, i :: path => n.offset i + n.inner[i]?.elim 0 (·.leavesAt path)

variable {n c m m' : Node} {i j : Nat} {path rest rest' : List Nat}

/-- The first step of a path leads to a child, and the rest goes on from there. -/
theorem descend_cons (h : n.descend (i :: path) = some m) :
    ∃ c, n.inner[i]? = some c ∧ c.unwrapped = c ∧ c.descend path = some m := by
  obtain ⟨c, hc, hm⟩ := Option.bind_eq_some_iff.mp h
  exact ⟨c, hc, unwrapped_of_mem_inner (List.mem_of_getElem? hc), hm⟩

/-- Where a node below a child is entered: after what comes before the child. -/
theorem entersAt_cons (hc : n.inner[i]? = some c) :
    n.entersAt (i :: path) = n.offset i + c.entersAt path := by
  rw [entersAt, hc, Option.elim_some]

theorem leavesAt_cons (hc : n.inner[i]? = some c) :
    n.leavesAt (i :: path) = n.offset i + c.leavesAt path := by
  rw [leavesAt, hc, Option.elim_some]

/-- The steps of a child end before the node is left. -/
theorem offset_add_lt (h : n.unwrapped = n) (hc : n.inner[i]? = some c) :
    n.offset i + c.visits.length < n.visits.length := by
  rw [length_visits h, visits_split hc, List.length_append, List.length_append, offset]
  omega

/-- The steps of a child end before those of the next one begin. -/
theorem offset_add_le (hij : i < j) (hc : n.inner[i]? = some c) :
    n.offset i + c.visits.length ≤ n.offset j := by
  have hc' : (n.inner.take j)[i]? = some c := by rw [List.getElem?_take_of_lt hij, hc]
  rw [offset, offset, visits_split hc', List.take_take, Nat.min_eq_left hij.le,
    List.length_append, List.length_append]
  omega

/-- The steps of the node at a path are those from where it is entered to where it is left. -/
theorem visits_descend (h : n.unwrapped = n) (hm : n.descend path = some m) :
    m.unwrapped = m ∧ ∃ before after, n.visits = before ++ (m.visits ++ after) ∧
      n.entersAt path = before.length ∧
      n.leavesAt path = before.length + (m.visits.length - 1) := by
  induction path generalizing n with
  | nil =>
    obtain rfl := Option.some.inj hm
    exact ⟨h, [], [], (List.append_nil _).symm, rfl, (Nat.zero_add _).symm⟩
  | cons i path ih =>
    obtain ⟨c, hc, hplain, hm⟩ := descend_cons hm
    obtain ⟨hm, before, after, hvisits, henters, hleaves⟩ := ih hplain hm
    refine ⟨hm, .enter n :: ((n.inner.take i).flatMap visits ++ before),
      after ++ ((n.inner.drop (i + 1)).flatMap visits ++ [.leave n]), ?_, ?_, ?_⟩
    · rw [visits_eq_inner h, visits_split hc, hvisits]
      simp only [List.append_assoc, List.cons_append]
    · rw [entersAt_cons hc, henters, offset, List.length_cons, List.length_append]
      omega
    · rw [leavesAt_cons hc, hleaves, offset, List.length_cons, List.length_append]
      omega

/-- A node is entered before it is left, by induction along the path. -/
theorem entersAt_lt_leavesAt (h : n.unwrapped = n) (hm : n.descend path = some m) :
    n.entersAt path < n.leavesAt path := by
  obtain ⟨hplain, before, after, -, henters, hleaves⟩ := visits_descend h hm
  have := length_visits hplain
  omega

/-- It is left before the walk ends. -/
theorem leavesAt_lt (h : n.unwrapped = n) (hm : n.descend path = some m) :
    n.leavesAt path < n.visits.length := by
  obtain ⟨hplain, before, after, hvisits, henters, hleaves⟩ := visits_descend h hm
  have := length_visits hplain
  rw [hvisits, List.length_append, List.length_append]
  omega

/-- What is further down lies strictly in between. -/
theorem descend_nested (h : n.unwrapped = n) (hne : rest ≠ [])
    (hm : n.descend (path ++ rest) = some m) :
    n.entersAt path < n.entersAt (path ++ rest) ∧ n.leavesAt (path ++ rest) < n.leavesAt path := by
  induction path generalizing n with
  | nil =>
    obtain ⟨i, rest, rfl⟩ := List.exists_cons_of_ne_nil hne
    obtain ⟨c, hc, hplain, hm⟩ := descend_cons hm
    have hend := leavesAt_lt hplain hm
    have hinside := offset_add_lt h hc
    rw [List.nil_append, entersAt_cons hc, leavesAt_cons hc, entersAt, leavesAt]
    refine ⟨?_, by omega⟩
    rw [offset]
    omega
  | cons i path ih =>
    obtain ⟨c, hc, hplain, hm⟩ := descend_cons hm
    obtain ⟨henters, hleaves⟩ := ih hplain hm
    rw [List.cons_append, entersAt_cons hc, entersAt_cons hc, leavesAt_cons hc, leavesAt_cons hc]
    exact ⟨Nat.add_lt_add_left henters _, Nat.add_lt_add_left hleaves _⟩

/-- What branches off to the left comes first. -/
theorem descend_inOrder (h : n.unwrapped = n) (hij : i < j)
    (hm : n.descend (path ++ i :: rest) = some m)
    (hm' : n.descend (path ++ j :: rest') = some m') :
    n.leavesAt (path ++ i :: rest) < n.entersAt (path ++ j :: rest') := by
  induction path generalizing n with
  | nil =>
    obtain ⟨c, hc, hplain, hm⟩ := descend_cons hm
    obtain ⟨d, hd, -, -⟩ := descend_cons hm'
    have hend := leavesAt_lt hplain hm
    have hnext := offset_add_le hij hc
    rw [List.nil_append, List.nil_append, leavesAt_cons hc, entersAt_cons hd]
    omega
  | cons k path ih =>
    obtain ⟨c, hc, hplain, hm⟩ := descend_cons hm
    obtain ⟨d, hd, -, hm'⟩ := descend_cons hm'
    obtain rfl := Option.some.inj (hc.symm.trans hd)
    rw [List.cons_append, List.cons_append, leavesAt_cons hc, entersAt_cons hc]
    exact Nat.add_lt_add_left (ih hplain hm hm') _

/-- Two paths are the same, or one goes on where the other ends, or they branch. -/
theorem paths_cases (path path' : List Nat) :
    path = path' ∨ (∃ rest, rest ≠ [] ∧ path' = path ++ rest) ∨
      (∃ rest, rest ≠ [] ∧ path = path' ++ rest) ∨
      ∃ stem i j rest rest', i ≠ j ∧ path = stem ++ i :: rest ∧ path' = stem ++ j :: rest' := by
  induction path generalizing path' with
  | nil =>
    cases path' with
    | nil => exact .inl rfl
    | cons j path' => exact .inr (.inl ⟨j :: path', List.cons_ne_nil _ _, rfl⟩)
  | cons i path ih =>
    cases path' with
    | nil => exact .inr (.inr (.inl ⟨i :: path, List.cons_ne_nil _ _, rfl⟩))
    | cons j path' =>
      by_cases hij : i = j
      · subst hij
        rcases ih path' with rfl | ⟨rest, hne, rfl⟩ | ⟨rest, hne, rfl⟩ |
          ⟨stem, k, l, rest, rest', hkl, rfl, rfl⟩
        · exact .inl rfl
        · exact .inr (.inl ⟨rest, hne, rfl⟩)
        · exact .inr (.inr (.inl ⟨rest, hne, rfl⟩))
        · exact .inr (.inr (.inr ⟨i :: stem, k, l, rest, rest', hkl, rfl, rfl⟩))
      · exact .inr (.inr (.inr ⟨[], i, j, path, path', hij, rfl, rfl⟩))

/-- The steps at two paths do not cross. -/
theorem descend_cases {path' : List Nat} (h : n.unwrapped = n) (hm : n.descend path = some m)
    (hm' : n.descend path' = some m') :
    path = path' ∨
    (path <+: path' ∧ n.entersAt path < n.entersAt path' ∧ n.leavesAt path' < n.leavesAt path) ∨
    (path' <+: path ∧ n.entersAt path' < n.entersAt path ∧ n.leavesAt path < n.leavesAt path') ∨
    n.leavesAt path < n.entersAt path' ∨ n.leavesAt path' < n.entersAt path := by
  rcases paths_cases path path' with rfl | ⟨rest, hne, rfl⟩ | ⟨rest, hne, rfl⟩ |
    ⟨stem, i, j, rest, rest', hij, rfl, rfl⟩
  · exact .inl rfl
  · exact .inr (.inl ⟨List.prefix_append path rest, descend_nested h hne hm'⟩)
  · exact .inr (.inr (.inl ⟨List.prefix_append path' rest, descend_nested h hne hm⟩))
  · rcases Nat.lt_or_gt_of_ne hij with hij | hij
    · exact .inr (.inr (.inr (.inl (descend_inOrder h hij hm hm'))))
    · exact .inr (.inr (.inr (.inr (descend_inOrder h hij hm' hm))))

/-- A step of some nodes, one after the other, is a step of one of them. -/
theorem exists_child (ns : List Node) {k : Nat} (h : k < (ns.flatMap visits).length) :
    ∃ i c l, ns[i]? = some c ∧ l < c.visits.length ∧
      k = ((ns.take i).flatMap visits).length + l := by
  induction ns generalizing k with
  | nil => cases h
  | cons n ns ih =>
    by_cases hk : k < n.visits.length
    · exact ⟨0, n, k, rfl, hk, (Nat.zero_add k).symm⟩
    · rw [List.flatMap_cons, List.length_append] at h
      have hrest : k - n.visits.length < (ns.flatMap visits).length := by omega
      obtain ⟨i, c, l, hc, hl, hk'⟩ := ih hrest
      refine ⟨i + 1, c, l, hc, hl, ?_⟩
      rw [List.take_succ_cons, List.flatMap_cons, List.length_append]
      omega

/-- Every step enters or leaves the node at some path. -/
theorem exists_path (h : n.unwrapped = n) :
    ∀ k < n.visits.length, ∃ path m, n.descend path = some m ∧
      (k = n.entersAt path ∨ k = n.leavesAt path) := by
  refine Node.induction (motive := fun n => ∀ k < n.visits.length, ∃ path m,
    n.descend path = some m ∧ (k = n.entersAt path ∨ k = n.leavesAt path)) ?_ n h
  intro n h ih k hk
  have hlength := length_visits h
  -- the first step, the last one, or one of the children
  by_cases hfirst : k = 0
  · exact ⟨[], n, rfl, .inl hfirst⟩
  by_cases hlast : k = n.visits.length - 1
  · exact ⟨[], n, rfl, .inr hlast⟩
  obtain ⟨i, c, l, hc, hl, hk⟩ := exists_child n.inner (k := k - 1) (by omega)
  obtain ⟨path, m, hm, hstep⟩ := ih c (List.mem_of_getElem? hc) l hl
  refine ⟨i :: path, m, Option.bind_eq_some_iff.mpr ⟨c, hc, hm⟩, ?_⟩
  rw [entersAt_cons hc, leavesAt_cons hc, offset]
  omega

end Node

/-! ## The walk of a program -/

/-- Steps that go through a tree: where the node at a path is entered and left is given by
two positions, and these lie as the nodes do. -/
structure Node.Toured (root : Node) (visits : List Visit) (enters leaves : List Nat → Nat) :
    Prop where
  /-- The steps pair up. -/
  bracketed : Bracketed visits
  /-- The node at a path is entered and left, and the two steps are a pair. -/
  spans : ∀ path n, root.descend path = some n → ∃ before inside after,
    visits = before ++ .enter n :: (inside ++ .leave n :: after) ∧ Bracketed inside ∧
    enters path = before.length ∧ leaves path = before.length + 1 + inside.length
  /-- Every step is one of these. -/
  complete : ∀ k < visits.length, ∃ path n, root.descend path = some n ∧
    (k = enters path ∨ k = leaves path)
  /-- No step belongs to two paths. -/
  once : ∀ path path' n n', root.descend path = some n → root.descend path' = some n' →
    (enters path = enters path' ∨ leaves path = leaves path' → path = path') ∧
    enters path ≠ leaves path'
  /-- The steps of a node enclose exactly those of what is in it. -/
  around : ∀ path path' n n', root.descend path = some n → root.descend path' = some n' →
    (path <+: path' ↔ enters path ≤ enters path' ∧ leaves path' ≤ leaves path)
  /-- Children come one after the other, each with all that is in it. -/
  inOrder : ∀ stem i j rest rest' n n', i < j → root.descend (stem ++ i :: rest) = some n →
    root.descend (stem ++ j :: rest') = some n' →
    leaves (stem ++ i :: rest) < enters (stem ++ j :: rest')

/-- The steps of a node are a tour of it. -/
theorem Node.visits_toured {n : Node} (h : n.unwrapped = n) :
    n.Toured n.visits n.entersAt n.leavesAt where
  bracketed := visits_bracketed h
  spans path m hm := by
    obtain ⟨hplain, before, after, hvisits, henters, hleaves⟩ := visits_descend h hm
    refine ⟨before, m.inner.flatMap visits, after, ?_, m.inner_bracketed, henters, ?_⟩
    · rw [hvisits, visits_eq_inner hplain]
      simp only [List.cons_append, List.append_assoc, List.nil_append]
    · rw [hleaves, length_visits hplain]
      omega
  complete := exists_path h
  once path path' m m' hm hm' := by
    have hlt := entersAt_lt_leavesAt h hm
    have hlt' := entersAt_lt_leavesAt h hm'
    rcases descend_cases h hm hm' with rfl | ⟨-, hcases⟩ | ⟨-, hcases⟩ | hcases | hcases
    · exact ⟨fun _ => rfl, hlt.ne⟩
    · exact ⟨by omega, by omega⟩
    · exact ⟨by omega, by omega⟩
    · exact ⟨by omega, by omega⟩
    · exact ⟨by omega, by omega⟩
  around path path' m m' hm hm' := by
    have hlt := entersAt_lt_leavesAt h hm
    have hlt' := entersAt_lt_leavesAt h hm'
    constructor
    · rintro ⟨rest, rfl⟩
      by_cases hrest : rest = []
      · rw [hrest, List.append_nil]
        exact ⟨Nat.le_refl _, Nat.le_refl _⟩
      · obtain ⟨henters, hleaves⟩ := descend_nested h hrest hm'
        exact ⟨henters.le, hleaves.le⟩
    · rintro ⟨henters, hleaves⟩
      rcases descend_cases h hm hm' with rfl | ⟨hinside, -⟩ | ⟨-, hcases⟩ | hcases | hcases
      · exact List.prefix_rfl
      · exact hinside
      · omega
      · omega
      · omega
  inOrder _ _ _ _ _ _ _ hij hm hm' := descend_inOrder h hij hm hm'

/-- The walk of a program visits every node exactly once, in nested order. Its steps are
well bracketed. Each node of the tree is entered by one step and left by one that pairs with
it, and there are no other steps. The two enclose the steps of exactly the nodes inside it,
and the children of a node come in their order. Statements that are only a call or a block
have no steps of their own. -/
theorem Program.visits_nested (p : Program) :
    ∃ enters leaves, (Node.program p).Toured p.visits enters leaves := by
  rw [p.visits_eq]
  exact ⟨_, _, Node.visits_toured rfl⟩

end Decaf
