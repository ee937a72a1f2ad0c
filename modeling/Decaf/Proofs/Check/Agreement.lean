import Decaf.Session
import Decaf.Proofs.Check.Compositional
import Decaf.Proofs.Check.Reference
import Decaf.Proofs.Scope.Lookup

/-!
# The check agrees with the rules over frames

To build the scopes of a program and to analyze it finds exactly what
`Reference.findings` lists, in that order, and writes exactly the types of
`Reference.typeOf`.

What links the two is `Context.Matches`: the scope that the analysis is in sees the
frames, and the function that it is in has the return type and the loops. It is kept on
the way into every construct. The tables are built before the analysis begins, so at a
construct the analysis looks into tables that have grown on since the scope of the
construct was opened; every statement below is therefore about any tables that extend
those at hand when the construct was gone through.
-/

namespace Decaf

/-! ## Expressions -/

/-- Both sides mean the same by types that do not fit: an unknown type fits everything. -/
theorem Rules.differs_eq (expected found : Ty) :
    differs expected found = Reference.mismatch expected found := by
  cases found <;> cases expected <;> rfl

/-- So they complain about operands alike. -/
theorem Rules.expectType_eq (expected found : Ty) (line : Nat) (span : Span) :
    expectType expected found line span = Reference.operand expected found line span := by
  rw [expectType, Reference.operand, differs_eq]

theorem BinaryOp.operandType?_eq (op : BinaryOp) : op.operandType? = Reference.operandType op := by
  cases op <;> rfl

/-- What is written into an expression is its type over the frames. -/
theorem Reference.type_annotate (frames : Frames) (e : Expr) :
    (annotate frames e).type = typeOf frames e := by
  cases e with
  | location p t x index => cases index <;> rfl
  | _ => rfl

/-- Writing types moves nothing. -/
theorem Reference.span_annotate (frames : Frames) (e : Expr) :
    (annotate frames e).span = e.span := by
  cases e with
  | location p t x index => cases index <;> rfl
  | _ => rfl

theorem Reference.locationName?_annotate (frames : Frames) (e : Expr) :
    (annotate frames e).locationName? = e.locationName? := by
  cases e with
  | location p t x index => cases index <;> rfl
  | _ => rfl

/-- When nothing is known of a location. -/
theorem Reference.location_unknown_iff (frames : Frames) (place : Place) (cell : Option Ty)
    (x : String) (index : Option Expr) :
    (annotate frames (.location place cell x index)).type? = some .unknown ↔
      meaningOf frames x = none ∨
      (∃ params result, meaningOf frames x = some (.function params result)) ∨
      meaningOf frames x = some (.scalar .unknown) ∨
      meaningOf frames x = some (.array .unknown) := by
  have htype : (annotate frames (.location place cell x index)).type? =
      some (typeOf frames (.location place cell x index)) := by
    cases index <;> rfl
  rw [htype, typeOf]
  cases hx : meaningOf frames x with
  | none => simp
  | some m => cases m <;> simp

/-- When nothing is known of a call. -/
theorem Reference.call_unknown_iff (frames : Frames) (place : Place) (cell : Option Ty)
    (f : String) (args : List Expr) :
    (annotate frames (.call place cell f args)).type? = some .unknown ↔
      meaningOf frames f = none ∨
      (∃ type, meaningOf frames f = some (.scalar type)) ∨
      (∃ type, meaningOf frames f = some (.array type)) ∨
      ∃ params, meaningOf frames f = some (.function params .unknown) := by
  rw [annotate, Expr.type?, typeOf]
  cases hf : meaningOf frames f with
  | none => simp
  | some m => cases m <;> simp

theorem Reference.length_annotateAll (frames : Frames) (es : List Expr) :
    (annotateAll frames es).length = es.length := by
  induction es with
  | nil => rfl
  | cons e es ih => rw [annotateAll, List.length_cons, List.length_cons, ih]

namespace Rules

/-- Rules that look at the types in a tree agree with rules that compute them over frames, for
operators and below for the other constructs. -/
theorem binary_annotate (frames : Frames) (p : Place) (op : BinaryOp) (l r : Expr) :
    binary p op (Reference.annotate frames l) (Reference.annotate frames r) =
      Reference.binary frames p op l r := by
  rw [binary, Reference.binary, BinaryOp.operandType?_eq]
  simp only [expectType_eq, Reference.type_annotate, Reference.span_annotate]
  cases Reference.operandType op with
  | some expected => rfl
  | none =>
    cases Reference.typeOf frames l <;> cases Reference.typeOf frames r <;> rfl

/-- The same for arguments against parameters, along both lists. -/
theorem arguments_annotate (frames : Frames) (p : Place) (f : String) (index : Nat)
    (params : List Ty) (args : List Expr) :
    arguments p f index params (Reference.annotateAll frames args) =
      Reference.arguments frames p f index params args := by
  induction args generalizing index params with
  | nil => cases params <;> rfl
  | cons arg args ih =>
    cases params with
    | nil => rfl
    | cons param params =>
      rw [Reference.annotateAll, arguments, Reference.arguments, ih, differs_eq,
        Reference.type_annotate, Reference.span_annotate]

theorem assignment_annotate (frames : Frames) (p : Place) (target value : Expr) :
    assignment p (Reference.annotate frames target) (Reference.annotate frames value) =
      Reference.assignment frames p target value := by
  rw [assignment, Reference.assignment, Reference.type_annotate, Reference.type_annotate,
    Reference.locationName?_annotate]
  cases Reference.typeOf frames target <;> cases Reference.typeOf frames value <;> rfl

theorem condition_annotate (frames : Frames) (p : Place) (test : Expr) :
    condition p (Reference.annotate frames test) = Reference.condition frames p test := by
  rw [condition, Reference.condition, differs_eq, Reference.type_annotate, Reference.span_annotate]

/-- A `return` with a value. -/
theorem returned_some (result : Ty) (p : Place) (frames : Frames) (e : Expr) :
    returned (some result) p (some (Reference.annotate frames e)) =
      Reference.returned result (Reference.typeOf frames e) p := by
  rw [Reference.returned, ← differs_eq, ← Reference.type_annotate]
  rfl

/-- A `return` without one is like one of type `void`. -/
theorem returned_none (result : Ty) (p : Place) :
    returned (some result) p none = Reference.returned result .void p := by
  rw [Reference.returned, ← differs_eq]
  rfl

theorem varDecl_eq : varDecl = Reference.varDecl := by
  funext d
  rw [varDecl, Reference.varDecl]
  cases d.type <;> rfl

theorem param_eq : param = Reference.param := by
  funext p
  rw [param, Reference.param]
  cases p.type <;> rfl

section Lookup

variable {look : String → Option Symbol} {frames : Frames}

/-- The two sides infer the same type, if names mean the same. -/
theorem exprType_eq (h : ∀ x, (look x).map Symbol.meaning = meaningOf frames x) (e : Expr) :
    exprType look e = Reference.typeOf frames e := by
  cases e with
  | literal p t v => cases v <;> rfl
  | location p t x index =>
    rw [exprType, Reference.typeOf, ← h x]
    cases look x with
    | none => rfl
    | some s =>
      obtain ⟨name, kind, type, level, line⟩ := s
      cases kind <;> rfl
  | binary p t op l r => cases op <;> rfl
  | unary p t op e => cases op <;> rfl
  | call p t f args =>
    rw [exprType, Reference.typeOf, ← h f]
    cases look f with
    | none => rfl
    | some s =>
      obtain ⟨name, kind, type, level, line⟩ := s
      cases kind <;> rfl

/-- What is said of a location depends on what its name means, and not on the table that it was
found in. -/
theorem location_annotate (h : ∀ x, (look x).map Symbol.meaning = meaningOf frames x)
    (p : Place) (x : String) (index : Option Expr) :
    location (look x) p x (index.map (Reference.annotate frames)) =
      Reference.location frames p x index := by
  rw [Reference.location.eq_def, ← h x]
  cases look x with
  | none => rfl
  | some s =>
    obtain ⟨name, kind, type, level, line⟩ := s
    cases kind with
    | scalar => cases index <;> rfl
    | function params => rfl
    | array length =>
      cases index with
      | none => rfl
      | some i =>
        show _ = if Reference.mismatch .int (Reference.typeOf frames i) then
          [Mistake.indexType.onLine p.line i.span] else []
        rw [← Reference.type_annotate, ← Reference.span_annotate frames i, ← differs_eq]
        rfl

/-- The same for a call. -/
theorem call_annotate (h : ∀ x, (look x).map Symbol.meaning = meaningOf frames x)
    (p : Place) (f : String) (args : List Expr) :
    call (look f) p f (Reference.annotateAll frames args) = Reference.call frames p f args := by
  rw [Reference.call, ← h f]
  cases look f with
  | none => rfl
  | some s =>
    obtain ⟨name, kind, type, level, line⟩ := s
    cases kind with
    | scalar => rfl
    | array length => rfl
    | function params =>
      show (if params.length ≠ (Reference.annotateAll frames args).length then _ else _) = ite _ _ _
      rw [Reference.length_annotateAll, arguments_annotate, ite_not]

end Lookup

end Rules

section Expressions

variable {look : String → Option Symbol} {frames : Frames}

/-- Expressions in a row are typed alike. -/
theorem typedExprs_relabel_of {es : List Expr}
    (h : ∀ e ∈ es, (e.relabel .untyped).typed look = Reference.annotate frames e) :
    typedExprs look (relabelExprs .untyped es) = Reference.annotateAll frames es := by
  induction es with
  | nil => rfl
  | cons e es ih =>
    rw [relabelExprs, typedExprs, Reference.annotateAll, h e List.mem_cons_self,
      ih fun e' he => h e' (List.mem_cons_of_mem e he)]

/-- An expression without types is filled with those of the reference. -/
theorem Expr.typed_untyped (h : ∀ x, (look x).map Symbol.meaning = meaningOf frames x) (e : Expr) :
    (e.relabel .untyped).typed look = Reference.annotate frames e := by
  induction e using Expr.induction with
  | literal p t v => cases v <;> rfl
  | scalar p t x =>
    rw [relabel, typed, Reference.annotate, ← Rules.exprType_eq h]
    rfl
  | element p t x i ih =>
    rw [relabel, typed, ih, Reference.annotate, ← Rules.exprType_eq h]
    rfl
  | binary p t op l r ihl ihr =>
    rw [relabel, typed, ihl, ihr, Reference.annotate, ← Rules.exprType_eq h]
    rfl
  | unary p t op e ih =>
    rw [relabel, typed, ih, Reference.annotate, ← Rules.exprType_eq h]
    rfl
  | call p t f args ih =>
    rw [relabel, typed, typedExprs_relabel_of ih, Reference.annotate, ← Rules.exprType_eq h]
    rfl

theorem exprsMistakes_relabel_of {es : List Expr}
    (h : ∀ e ∈ es, (e.relabel .untyped).mistakes look = Reference.expr frames e) :
    exprsMistakes look (relabelExprs .untyped es) = Reference.exprs frames es := by
  induction es with
  | nil => rfl
  | cons e es ih =>
    rw [relabelExprs, exprsMistakes, Reference.exprs, h e List.mem_cons_self,
      ih fun e' he => h e' (List.mem_cons_of_mem e he)]

/-- What is found in an expression without types is what the reference finds. -/
theorem Expr.mistakes_untyped (h : ∀ x, (look x).map Symbol.meaning = meaningOf frames x)
    (e : Expr) : (e.relabel .untyped).mistakes look = Reference.expr frames e := by
  induction e using Expr.induction with
  | literal p t v => rfl
  | scalar p t x =>
    rw [relabel, mistakes, Reference.expr]
    exact Rules.location_annotate h p x none
  | element p t x i ih =>
    rw [relabel, mistakes, ih, typed_untyped h, Reference.expr]
    exact congrArg _ (Rules.location_annotate h p x (some i))
  | binary p t op l r ihl ihr =>
    rw [relabel, mistakes, ihl, ihr, typed_untyped h, typed_untyped h, Reference.expr,
      ← Rules.binary_annotate]
    rfl
  | unary p t op e ih =>
    rw [relabel, mistakes, ih, typed_untyped h]
    cases op <;> rw [Reference.expr, ← Rules.expectType_eq, ← Reference.type_annotate,
      ← Reference.span_annotate frames e] <;> rfl
  | call p t f args ih =>
    rw [relabel, mistakes, exprsMistakes_relabel_of ih,
      typedExprs_relabel_of fun e _ => typed_untyped h e, Reference.expr, ← Rules.call_annotate h]
    rfl

end Expressions

/-! ## Blocks and statements -/

/-- The duplicates of a scope are those among its declarations, in order. -/
theorem Tables.Holds.scopeMistakes_eq {t : Tables} {id : ScopeId} {parent : Option ScopeId}
    {line : Nat} {ds : List Declaration} (h : t.Holds id parent line ds) :
    scopeMistakes t (some id) = Reference.duplicates line (ds.map (·.binding)) := by
  obtain ⟨s, hs, -, hline, hholds⟩ := h.exists_scope
  rw [scopeMistakes, Option.bind_some, hs]
  show Rules.duplicates s = _
  rw [Rules.duplicates, hholds.duplicates_eq, Reference.duplicates, repeated_map, List.map_map,
    List.map_map, hline]
  rfl

/-- The context of the analysis is what the reference has as arguments: the frames
that its scope sees, the return type of the function, and whether there is a loop. -/
structure Context.Matches (c : Context) (tables : Tables) (scope : ScopeId) (frames : Frames)
    (result : Ty) (inLoop : Bool) : Prop where
  scope_eq : c.scope = some scope
  sees : tables.Sees scope frames
  returnType?_eq : c.returnType? = some result
  inLoop_eq : c.inLoop = inLoop

namespace Context.Matches

variable {c : Context} {tables : Tables} {scope : ScopeId} {frames : Frames} {result : Ty}
  {inLoop : Bool}

/-- Where context and frames match, names mean the same. -/
theorem meaning_lookup (h : c.Matches tables scope frames result inLoop) (x : String) :
    (c.lookup tables x).map Symbol.meaning = meaningOf frames x := by
  rw [Context.lookup, h.scope_eq, Option.bind_some]
  exact h.sees x

/-- Going into a scope that sees the inner frames. -/
theorem within (h : c.Matches tables scope frames result inLoop) {id : ScopeId} {inner : Frames}
    (hid : tables.Sees id inner) :
    (c.within (some id)).Matches tables id inner result inLoop :=
  ⟨rfl, hid, h.returnType?_eq, h.inLoop_eq⟩

/-- Going into a loop. -/
theorem inLoopBody (h : c.Matches tables scope frames result inLoop) :
    c.inLoopBody.Matches tables scope frames result true := by
  obtain ⟨outer, function⟩ := c
  obtain ⟨hscope, hsees, hreturn, -⟩ := h
  cases function with
  | none => cases hreturn
  | some f => exact ⟨hscope, hsees, hreturn, by simp [Context.inLoopBody, Context.inLoop]⟩

end Context.Matches

/-- Block and reference agree on types and findings, wherever the block stands and
however the tables grow on. -/
def Block.Agrees (b : Block) : Prop :=
  ∀ (scope : ScopeId) (t tables : Tables) (c : Context) (frames : Frames) (result : Ty)
    (inLoop : Bool), scope.index < t.size →
    ((b.relabel .untyped).withScopes scope t).2.Extends tables →
    c.Matches tables scope frames result inLoop →
    (((b.relabel .untyped).withScopes scope t).1.typed tables c).relabel .unscoped =
        Reference.annotateBlock frames b ∧
      ((b.relabel .untyped).withScopes scope t).1.mistakes tables c =
        Reference.block frames result inLoop b

/-- Statement and reference agree on types and findings, wherever the statement stands
and however the tables grow on. -/
def Stmt.Agrees (s : Stmt) : Prop :=
  ∀ (scope : ScopeId) (t tables : Tables) (c : Context) (frames : Frames) (result : Ty)
    (inLoop : Bool), scope.index < t.size →
    ((s.relabel .untyped).withScopes scope t).2.Extends tables →
    c.Matches tables scope frames result inLoop →
    (((s.relabel .untyped).withScopes scope t).1.typed tables c).relabel .unscoped =
        Reference.annotateStmt frames s ∧
      ((s.relabel .untyped).withScopes scope t).1.mistakes tables c =
        Reference.stmt frames result inLoop s

/-- Statements in a row: the tables grow from one to the next, and the last of them are extended
by the final ones. -/
theorem stmts_agree_of {ss : List Stmt} (h : ∀ s ∈ ss, s.Agrees) (scope : ScopeId)
    (t tables : Tables) (c : Context) (frames : Frames) (result : Ty) (inLoop : Bool)
    (ht : scope.index < t.size)
    (hext : (stmtsWithScopes scope (relabelStmts .untyped ss) t).2.Extends tables)
    (hc : c.Matches tables scope frames result inLoop) :
    relabelStmts .unscoped
        (typedStmts tables c (stmtsWithScopes scope (relabelStmts .untyped ss) t).1) =
        Reference.annotateStmts frames ss ∧
      stmtsMistakes tables c (stmtsWithScopes scope (relabelStmts .untyped ss) t).1 =
        Reference.stmts frames result inLoop ss := by
  induction ss generalizing t with
  | nil => exact ⟨rfl, rfl⟩
  | cons s ss ih =>
    rw [relabelStmts, stmtsWithScopes] at hext
    rw [relabelStmts, stmtsWithScopes, typedStmts, relabelStmts, stmtsMistakes,
      Reference.annotateStmts, Reference.stmts]
    have hgrown := block_stmt_withScopes_extends.2 (s.relabel .untyped) scope t
    obtain ⟨htype, hfound⟩ := h s List.mem_cons_self scope t tables c frames result inLoop ht
      ((stmtsWithScopes_extends _ scope _).trans hext) hc
    obtain ⟨htypes, hfounds⟩ := ih (fun x hx => h x (List.mem_cons_of_mem s hx))
      ((s.relabel .untyped).withScopes scope t).2 (Nat.lt_of_lt_of_le ht hgrown.size_le) hext
    exact ⟨by rw [htype, htypes], by rw [hfound, hfounds]⟩

/-- The duplicates, the variables and the statements of a block, from what agrees for
the statements. -/
theorem Block.agrees_mk {locals : List VarDecl} {statements : List Stmt} {p : Place}
    {own : Option ScopeId} (h : ∀ s ∈ statements, s.Agrees) :
    Block.Agrees ⟨locals, statements, p, own⟩ := by
  intro scope t tables c frames result inLoop ht hext hc
  have hlocals : locals.map (·.relabel .untyped) = locals := List.map_id locals
  have hplain : locals.map (·.relabel .unscoped) = locals := List.map_id locals
  have hopened := t.openScope_holds (some scope) p.line (locals.map (·.declaration))
    (fun outer houter => by cases houter; exact ht)
  generalize hopen : t.openScope (some scope) p.line (locals.map (·.declaration)) = opened
    at hopened
  have hscoped : (Block.relabel .untyped ⟨locals, statements, p, own⟩).withScopes scope t =
      (⟨locals, (stmtsWithScopes opened.1 (relabelStmts .untyped statements) opened.2).1, p,
        some opened.1⟩,
        (stmtsWithScopes opened.1 (relabelStmts .untyped statements) opened.2).2) := by
    rw [Block.relabel, hlocals, Block.withScopes, ← hopen]
    rfl
  rw [hscoped] at hext ⊢
  -- the scope was filled before the statements were gone through, and is as it was then
  have hholds := hopened.extends ((stmtsWithScopes_extends _ _ _).trans hext)
  have hsees := hholds.sees hc.sees
  rw [declarations_binding] at hsees
  obtain ⟨htypes, hfounds⟩ := stmts_agree_of h _ _ tables _ _ result inLoop
    hopened.lt_size hext (hc.within hsees)
  constructor
  · rw [Block.typed, Block.relabel, hplain, Reference.annotateBlock]
    exact congrArg (Block.mk locals · p none) htypes
  · rw [Block.mistakes, Reference.block, hholds.scopeMistakes_eq, declarations_binding, hfounds,
      Rules.varDecl_eq]

/-- Blocks and statements agree, by induction over both. This is the heart of the matter. -/
theorem block_stmt_agree : (∀ b : Block, b.Agrees) ∧ ∀ s : Stmt, s.Agrees := by
  refine Block.induction ?mk ?assign ?call ?ifThen ?ifElse ?loop ?ret ?brk ?cont ?inner
  case mk => exact fun locals statements p own h => Block.agrees_mk h
  case assign =>
    intro p target value scope t tables c frames result inLoop ht hext hc
    rw [Stmt.relabel, Stmt.withScopes, Stmt.typed, Stmt.relabel, Stmt.mistakes,
      Reference.annotateStmt, Reference.stmt]
    simp only [Expr.typed_untyped hc.meaning_lookup, Expr.mistakes_untyped hc.meaning_lookup,
      Expr.relabel_unscoped, Rules.assignment_annotate]
    exact ⟨rfl, rfl⟩
  case call =>
    intro p e scope t tables c frames result inLoop ht hext hc
    rw [Stmt.relabel, Stmt.withScopes, Stmt.typed, Stmt.relabel, Stmt.mistakes,
      Reference.annotateStmt, Reference.stmt, Expr.typed_untyped hc.meaning_lookup,
      Expr.mistakes_untyped hc.meaning_lookup, Expr.relabel_unscoped]
    exact ⟨rfl, rfl⟩
  case ifThen =>
    intro p test b ihb scope t tables c frames result inLoop ht hext hc
    rw [Stmt.relabel, Stmt.withScopes] at hext ⊢
    obtain ⟨htype, hfound⟩ := ihb scope t tables c frames result inLoop ht hext hc
    rw [Stmt.typed, Stmt.relabel, Stmt.mistakes, Reference.annotateStmt, Reference.stmt, htype,
      hfound]
    simp only [Expr.typed_untyped hc.meaning_lookup, Expr.mistakes_untyped hc.meaning_lookup,
      Expr.relabel_unscoped, Rules.condition_annotate]
    exact ⟨rfl, rfl⟩
  case ifElse =>
    intro p test b d ihb ihd scope t tables c frames result inLoop ht hext hc
    rw [Stmt.relabel, Stmt.withScopes] at hext ⊢
    have hgrown := block_stmt_withScopes_extends.1 (b.relabel .untyped) scope t
    obtain ⟨htypeb, hfoundb⟩ := ihb scope t tables c frames result inLoop ht
      ((block_stmt_withScopes_extends.1 _ scope _).trans hext) hc
    obtain ⟨htyped, hfoundd⟩ := ihd scope _ tables c frames result inLoop
      (Nat.lt_of_lt_of_le ht hgrown.size_le) hext hc
    rw [Stmt.typed, Stmt.relabel, Stmt.mistakes, Reference.annotateStmt, Reference.stmt, htypeb,
      hfoundb, htyped, hfoundd]
    simp only [Expr.typed_untyped hc.meaning_lookup, Expr.mistakes_untyped hc.meaning_lookup,
      Expr.relabel_unscoped, Rules.condition_annotate]
    exact ⟨rfl, rfl⟩
  case loop =>
    intro p test b ihb scope t tables c frames result inLoop ht hext hc
    rw [Stmt.relabel, Stmt.withScopes] at hext ⊢
    -- the condition is looked at from outside the loop, the body from inside
    obtain ⟨htype, hfound⟩ := ihb scope t tables c.inLoopBody frames result true ht hext
      hc.inLoopBody
    rw [Stmt.typed, Stmt.relabel, Stmt.mistakes, Reference.annotateStmt, Reference.stmt, htype,
      hfound]
    simp only [Expr.typed_untyped hc.meaning_lookup, Expr.mistakes_untyped hc.meaning_lookup,
      Expr.relabel_unscoped, Rules.condition_annotate]
    exact ⟨rfl, rfl⟩
  case ret =>
    intro p value scope t tables c frames result inLoop ht hext hc
    cases value with
    | none =>
      rw [Stmt.relabel, Stmt.withScopes, Stmt.typed, Stmt.relabel, Option.map_none, Stmt.mistakes,
        Reference.annotateStmt, Reference.stmt, hc.returnType?_eq, Rules.returned_none]
      exact ⟨rfl, rfl⟩
    | some e =>
      rw [Stmt.relabel, Stmt.withScopes, Stmt.typed, Stmt.relabel, Option.map_some, Stmt.mistakes,
        Reference.annotateStmt, Reference.stmt, hc.returnType?_eq]
      simp only [Option.map_some, Expr.typed_untyped hc.meaning_lookup,
        Expr.mistakes_untyped hc.meaning_lookup, Expr.relabel_unscoped, Rules.returned_some]
      exact ⟨rfl, rfl⟩
  case brk =>
    intro p scope t tables c frames result inLoop ht hext hc
    rw [Stmt.relabel, Stmt.withScopes, Stmt.typed, Stmt.relabel, Stmt.mistakes,
      Reference.annotateStmt, Reference.stmt, hc.inLoop_eq]
    exact ⟨rfl, rfl⟩
  case cont =>
    intro p scope t tables c frames result inLoop ht hext hc
    rw [Stmt.relabel, Stmt.withScopes, Stmt.typed, Stmt.relabel, Stmt.mistakes,
      Reference.annotateStmt, Reference.stmt, hc.inLoop_eq]
    exact ⟨rfl, rfl⟩
  case inner =>
    intro p b ihb scope t tables c frames result inLoop ht hext hc
    rw [Stmt.relabel, Stmt.withScopes] at hext ⊢
    obtain ⟨htype, hfound⟩ := ihb scope t tables c frames result inLoop ht hext hc
    rw [Stmt.typed, Stmt.relabel, Stmt.mistakes, Reference.annotateStmt, Reference.stmt, htype,
      hfound]
    exact ⟨rfl, rfl⟩

/-! ## Functions and programs -/

/-- A function agrees: its parameters and its body share no scope, and the result is that of the
function. -/
theorem Function.agrees (f : Function) (scope : ScopeId) (t tables : Tables) (c : Context)
    (frames : Frames) (ht : scope.index < t.size)
    (hext : ((f.relabel .untyped).withScopes scope t).2.Extends tables)
    (hsees : tables.Sees scope frames) :
    (((f.relabel .untyped).withScopes scope t).1.typed tables c).relabel .unscoped =
        Reference.annotateFunction frames f ∧
      ((f.relabel .untyped).withScopes scope t).1.mistakes tables c =
        Reference.function frames f := by
  obtain ⟨name, returnType, params, body, p, own⟩ := f
  have hparams : params.map (·.relabel .untyped) = params := List.map_id params
  have hplain : params.map (·.relabel .unscoped) = params := List.map_id params
  have hopened := t.openScope_holds (some scope) p.line (params.map (·.declaration))
    (fun outer houter => by cases houter; exact ht)
  generalize hopen : t.openScope (some scope) p.line (params.map (·.declaration)) = opened
    at hopened
  have hscoped : (Function.relabel .untyped ⟨name, returnType, params, body, p, own⟩).withScopes
      scope t =
      (⟨name, returnType, params, ((body.relabel .untyped).withScopes opened.1 opened.2).1, p,
        some opened.1⟩, ((body.relabel .untyped).withScopes opened.1 opened.2).2) := by
    rw [Function.relabel, hparams, Function.withScopes, Function.declarations, ← hopen]
    rfl
  rw [hscoped] at hext ⊢
  have hholds := hopened.extends ((block_stmt_withScopes_extends.1 _ _ _).trans hext)
  have hframe : (params.map (·.declaration)).map (·.binding) =
      Function.frame ⟨name, returnType, params, body, p, own⟩ :=
    Function.declarations_binding ⟨name, returnType, params, body, p, own⟩
  have hinner := hholds.sees hsees
  rw [hframe] at hinner
  -- a function begins outside of any loop
  have hc : Context.Matches ⟨some opened.1, some ⟨returnType, 0⟩⟩ tables opened.1 _ returnType
      false := ⟨rfl, hinner, rfl, rfl⟩
  obtain ⟨htype, hfound⟩ := block_stmt_agree.1 body opened.1 opened.2 tables _ _ returnType false
    hopened.lt_size hext hc
  constructor
  · rw [Function.typed, Function.relabel, hplain, Reference.annotateFunction, ← htype]
    rfl
  · rw [Function.mistakes, Reference.function, hholds.scopeMistakes_eq, hframe, ← hfound,
      Rules.param_eq]
    rfl

/-- Functions one after the other, each with the tables as the ones before it left them. -/
theorem functions_agree (fs : List Function) (scope : ScopeId) (t tables : Tables) (c : Context)
    (frames : Frames) (ht : scope.index < t.size)
    (hext : (functionsWithScopes scope (fs.map (·.relabel .untyped)) t).2.Extends tables)
    (hsees : tables.Sees scope frames) :
    ((functionsWithScopes scope (fs.map (·.relabel .untyped)) t).1.map
        (·.typed tables c)).map (·.relabel .unscoped) =
        fs.map (Reference.annotateFunction frames) ∧
      (functionsWithScopes scope (fs.map (·.relabel .untyped)) t).1.map
        (·.mistakes tables c) = fs.map (Reference.function frames) := by
  induction fs generalizing t with
  | nil => exact ⟨rfl, rfl⟩
  | cons f fs ih =>
    rw [List.map_cons, functionsWithScopes] at hext ⊢
    have hgrown := (f.relabel .untyped).withScopes_extends scope t
    obtain ⟨htype, hfound⟩ := f.agrees scope t tables c frames ht
      ((functionsWithScopes_extends _ scope _).trans hext) hsees
    obtain ⟨htypes, hfounds⟩ := ih ((f.relabel .untyped).withScopes scope t).2
      (Nat.lt_of_lt_of_le ht hgrown.size_le) hext
    rw [List.map_cons, List.map_cons, List.map_cons, List.map_cons, List.map_cons, htype, htypes,
      hfound, hfounds]
    exact ⟨rfl, rfl⟩

/-- The two sides look for the entry point in the same frame. -/
theorem Rules.entryPoint_eq {symbol : Option Symbol} {p : Program}
    (h : symbol.map Symbol.meaning = meaningOf [p.frame] "main") :
    entryPoint symbol p.place = Reference.entryPoint p := by
  rw [Reference.entryPoint, ← h]
  cases symbol with
  | none => rfl
  | some s =>
    obtain ⟨name, kind, type, level, line⟩ := s
    cases kind with
    | scalar => simp [entryPoint, Symbol.meaning, Symbol.Kind.params?]
    | array length => simp [entryPoint, Symbol.meaning, Symbol.Kind.params?]
    | function params => simp [entryPoint, Symbol.meaning, Symbol.Kind.params?, and_comm]

theorem Function.binding_untyped (f : Function) : (f.relabel .untyped).binding = f.binding := by
  have hparams : f.params.map (·.relabel .untyped) = f.params := List.map_id f.params
  rw [Function.binding, Function.relabel, hparams]
  rfl

/-- The frame of a program does not depend on types in its tree. -/
theorem Program.frame_untyped (p : Program) : (p.relabel .untyped).frame = p.frame := by
  have hglobals : p.globals.map (·.relabel .untyped) = p.globals := List.map_id p.globals
  have hfunctions : (p.functions.map (·.relabel .untyped)).map (·.binding) =
      p.functions.map (·.binding) := by
    rw [List.map_map]
    exact List.map_congr_left fun f _ => f.binding_untyped
  rw [Program.frame, Program.relabel, hglobals, hfunctions]
  rfl

/-- Types and findings of a program that has no types yet. -/
theorem checkProgram_untyped (p : Program) :
    (checkProgram (p.relabel .untyped)).program.relabel .unscoped = Reference.annotateProgram p ∧
      (checkProgram (p.relabel .untyped)).errors.toList = Reference.findings p := by
  have hglobals : p.globals.map (·.relabel .untyped) = p.globals := List.map_id p.globals
  have hplain : p.globals.map (·.relabel .unscoped) = p.globals := List.map_id p.globals
  have hopened := Tables.empty.openScope_holds none p.place.line
    (p.relabel .untyped).declarations (fun outer houter => by cases houter)
  generalize hopen : Tables.empty.openScope none p.place.line
    (p.relabel .untyped).declarations = opened at hopened
  have hscoped : (p.relabel .untyped).withScopes =
      (⟨p.globals, (functionsWithScopes opened.1 (p.functions.map (·.relabel .untyped)) opened.2).1,
        p.place, some opened.1⟩,
        (functionsWithScopes opened.1 (p.functions.map (·.relabel .untyped)) opened.2).2) := by
    rw [Program.withScopes, ← hopen]
    exact congrArg (fun gs => (Program.mk gs _ _ _, _)) hglobals
  rw [checkProgram, hscoped]
  generalize htables :
    (functionsWithScopes opened.1 (p.functions.map (·.relabel .untyped)) opened.2).2 = tables
  have hext : opened.2.Extends tables := htables ▸ functionsWithScopes_extends _ _ _
  have hholds := hopened.extends hext
  have hsees := hholds.sees_outermost
  rw [Program.declarations_binding, Program.frame_untyped] at hsees
  obtain ⟨htypes, hfounds⟩ := functions_agree p.functions opened.1 opened.2 tables
    ⟨some opened.1, none⟩ [p.frame] hopened.lt_size (htables ▸ Tables.Extends.refl _) hsees
  rw [analyze_eq, ErrorList.toList_reportAll, ErrorList.toList_empty, List.nil_append]
  constructor
  · rw [Reference.annotateProgram, ← htypes]
    exact congrArg (Program.mk · _ p.place none) hplain
  · rw [Program.mistakes, Reference.findings, hholds.scopeMistakes_eq, Program.declarations_binding,
      Program.frame_untyped, List.flatMap_def (f := Reference.function [p.frame]), ← hfounds,
      ← List.flatMap_def, Rules.varDecl_eq, ← Rules.entryPoint_eq (hsees "main")]
    rfl

/-- Scopes and analysis find in a program without types exactly what the reference finds,
in its order, and write the types of the reference into its expressions. A location is
of unknown type exactly if its name stands for nothing, or for a function, or for
something declared to be of unknown type; a call, exactly if its name stands for nothing,
or for no function, or for one declared to give something of unknown type. -/
theorem checkProgram_refines_reference (p : Program) (h : p.relabel .untyped = p) :
    (checkProgram p).errors.toList = Reference.findings p ∧
      (checkProgram p).program.relabel .unscoped = Reference.annotateProgram p ∧
      ∀ (frames : Frames) (place : Place) (cell : Option Ty) (x : String),
        (∀ index, (Reference.annotate frames (.location place cell x index)).type? = some .unknown ↔
          meaningOf frames x = none ∨
          (∃ params result, meaningOf frames x = some (.function params result)) ∨
          meaningOf frames x = some (.scalar .unknown) ∨
          meaningOf frames x = some (.array .unknown)) ∧
        ∀ args, (Reference.annotate frames (.call place cell x args)).type? = some .unknown ↔
          meaningOf frames x = none ∨
          (∃ type, meaningOf frames x = some (.scalar type)) ∨
          (∃ type, meaningOf frames x = some (.array type)) ∨
          ∃ params, meaningOf frames x = some (.function params .unknown) := by
  obtain ⟨htypes, hfound⟩ := checkProgram_untyped p
  rw [h] at htypes hfound
  refine ⟨hfound, htypes, fun frames place cell x => ⟨fun index => ?_, fun args => ?_⟩⟩
  · exact Reference.location_unknown_iff frames place cell x index
  · exact Reference.call_unknown_iff frames place cell x args

/-- A tree that no text is read as: it assigns to a sum, and some of its variables are
declared to be of unknown type. -/
def oddProgram : Program :=
  ⟨[⟨"x", .int, none, ⟨⟨0, 1⟩, 1⟩⟩, ⟨"x", .unknown, some 0, ⟨⟨2, 3⟩, 2⟩⟩],
    [⟨"main", .int, [],
      ⟨[⟨"y", .unknown, none, ⟨⟨4, 5⟩, 3⟩⟩],
        [.assign ⟨⟨6, 9⟩, 4⟩
          (.binary ⟨⟨6, 8⟩, 4⟩ none .add (.location ⟨⟨6, 7⟩, 4⟩ none "x" none)
            (.call ⟨⟨7, 8⟩, 4⟩ none "y" []))
          (.location ⟨⟨8, 9⟩, 4⟩ none "main" none),
          .break ⟨⟨9, 10⟩, 5⟩],
        ⟨⟨3, 11⟩, 3⟩, none⟩, ⟨⟨3, 11⟩, 3⟩, none⟩],
    ⟨⟨0, 11⟩, 1⟩, none⟩

/-- A program with five sorts of mistakes, and what is said about each. -/
theorem checkProgram_oddProgram :
    oddProgram.relabel .untyped = oddProgram ∧
      (checkProgram oddProgram).errors.toList.map (fun d => (d.message, d.line)) =
        [("Duplicate symbols named 'x' in scope started on line 1", 2),
          ("Array 'x' on line 2 must have positive non-zero length", 2),
          ("Invalid call to non-function 'y' on line 4", 4),
          ("Invalid use of function 'main' on line 4", 4),
          ("Break on line 5 can not exist outside of a loop", 5)] ∧
      (checkProgram oddProgram).program.relabel .unscoped =
        Reference.annotateProgram oddProgram := by
  obtain ⟨hfound, htypes, -⟩ := checkProgram_refines_reference oddProgram rfl
  refine ⟨rfl, ?_, htypes⟩
  rw [hfound]
  decide +kernel

end Decaf
