import Decaf.Session
import Decaf.Proofs.Scope.Layout
import Decaf.Proofs.Check.Compositional

/-!
# Checking two layouts of one text

Whatever is said about a program, its layout has no part in it: texts with the same
tokens are both refused, at the same token, or both checked, with the same scopes, the
same types and as many mistakes (`checkText_same_tokens`). If corresponding tokens start
on the same lines, the mistakes even read the same.

The rules are about types and symbols, so relabelling a program (`Relabel.onLines`)
leaves the types that are inferred (`Expr.typed_onLines`), and every mistake is found
again, on the line that is left of its line (`Diagnostic.Echoes`). Both texts are read as
the same program once the labels are reduced to what they have in common, and that
program stands between them.
-/

namespace Decaf

variable (keep : Nat → Nat)

/-! ## Mistakes on other lines -/

/-- A mistake with what counts of the line that it names. -/
def Mistake.onLines : Mistake → Mistake
  | .duplicate name scopeLine => .duplicate name (keep scopeLine)
  | m => m

/-- The same mistake, on what counts of its line. -/
def Diagnostic.Echoes (d d' : Diagnostic) : Prop :=
  ∃ (m : Mistake) (line : Nat) (span span' : Span), d = m.onLine line span ∧
    d' = (m.onLines keep).onLine (keep line) span'

/-- The same mistakes in the same order. -/
abbrev Echo : List Diagnostic → List Diagnostic → Prop :=
  List.Forall₂ (Diagnostic.Echoes keep)

/-- With every line kept, a mistake and its echo are worded alike and name the same line. -/
theorem Diagnostic.Echoes.eq_of_id {d d' : Diagnostic} (h : d.Echoes id d') :
    d.message = d'.message ∧ d.line = d'.line := by
  obtain ⟨m, line, span, span', rfl, rfl⟩ := h
  have hm : m.onLines id = m := by cases m <;> rfl
  rw [hm]
  exact ⟨rfl, rfl⟩

variable {keep}

/-- A mistake that names no line but its own. -/
theorem Echo.single {m : Mistake} (hm : m.onLines keep = m) (line : Nat) (span span' : Span) :
    Echo keep [m.onLine line span] [m.onLine (keep line) span'] :=
  .cons ⟨m, line, span, span', rfl, by rw [hm]⟩ .nil

/-- The same side of a test is reported on both sides, as the test does not look at positions. -/
theorem Echo.ite {c : Prop} [Decidable c] {as bs as' bs' : List Diagnostic}
    (ha : Echo keep as as') (hb : Echo keep bs bs') :
    Echo keep (if c then as else bs) (if c then as' else bs') := by
  by_cases h : c
  · rw [if_pos h, if_pos h]
    exact ha
  · rw [if_neg h, if_neg h]
    exact hb

theorem Echo.append {as bs as' bs' : List Diagnostic} (ha : Echo keep as as')
    (hb : Echo keep bs bs') : Echo keep (as ++ bs) (as' ++ bs') :=
  List.rel_append ha hb

/-- Mistakes that are found item by item are echoed item by item. -/
theorem Echo.flatMap {α : Type} {as : List α} {f g : α → List Diagnostic}
    (h : ∀ a ∈ as, Echo keep (f a) (g a)) : Echo keep (as.flatMap f) (as.flatMap g) := by
  induction as with
  | nil => exact .nil
  | cons a as ih =>
    rw [List.flatMap_cons, List.flatMap_cons]
    exact .append (h a List.mem_cons_self) (ih fun b hb => h b (List.mem_cons_of_mem a hb))

/-! ## Expressions -/

namespace Expr

/-- Moving an expression to other lines leaves the type written into it. -/
theorem type?_onLines (e : Expr) : (e.relabel (.onLines keep)).type? = e.type? := by
  cases e with
  | location p t x i => cases i <;> rfl
  | _ => rfl

theorem type_onLines (e : Expr) : (e.relabel (.onLines keep)).type = e.type := by
  rw [type, type?_onLines, type]

theorem locationName?_onLines (e : Expr) :
    (e.relabel (.onLines keep)).locationName? = e.locationName? := by
  cases e with
  | location p t x i => cases i <;> rfl
  | _ => rfl

/-- Filling in a type and moving to other lines can be done in either order. -/
theorem fillType_onLines (t : Option Ty) (e : Expr) :
    (e.relabel (.onLines keep)).fillType t = (e.fillType t).relabel (.onLines keep) := by
  cases e with
  | location p t' x i => cases i <;> rfl
  | _ => rfl

end Expr

namespace Rules

/-- Whether a type is the expected one does not depend on where the expression stands. -/
theorem expectType_echo (expected found : Ty) (line : Nat) (span span' : Span) :
    Echo keep (expectType expected found line span) (expectType expected found (keep line) span') :=
  .ite (.single rfl line span span') .nil

theorem param_echo (p : Param) : Echo keep (param p) (param (p.relabel (.onLines keep))) :=
  .ite (.single rfl p.place.line p.place.span (.point 0)) .nil

theorem varDecl_echo (d : VarDecl) : Echo keep (varDecl d) (varDecl (d.relabel (.onLines keep))) :=
  .append (.ite (.single rfl d.place.line d.place.span (.point 0)) .nil)
    (.ite (.single rfl d.place.line d.place.span (.point 0)) .nil)

/-- What is wrong with the entry point depends on the symbol alone, and is said on the program's
line. -/
theorem entryPoint_echo (symbol : Option Symbol) (p : Place) :
    Echo keep (entryPoint symbol p)
      (entryPoint (symbol.map (·.onLines keep)) ((Relabel.onLines keep).place p)) := by
  cases symbol with
  | none => exact .single rfl ..
  | some s => exact .ite .nil (.single rfl ..)

/-- An assignment is judged by the name and the types of its two sides, which no line has a part
in. -/
theorem assignment_echo (p : Place) (target value : Expr) :
    Echo keep (assignment p target value) (assignment ((Relabel.onLines keep).place p)
      (target.relabel (.onLines keep)) (value.relabel (.onLines keep))) := by
  simp only [assignment, Expr.type_onLines, Expr.locationName?_onLines]
  exact .ite (.single rfl ..) .nil

theorem condition_echo (p : Place) (test : Expr) :
    Echo keep (condition p test)
      (condition ((Relabel.onLines keep).place p) (test.relabel (.onLines keep))) := by
  simp only [condition, Expr.type_onLines]
  exact .ite (.single rfl ..) .nil

/-- A `return` is judged by the type of its value, wherever it stands. -/
theorem returned_echo (expected : Option Ty) (p : Place) (value : Option Expr) :
    Echo keep (returned expected p value) (returned expected ((Relabel.onLines keep).place p)
      (value.map (·.relabel (.onLines keep)))) := by
  cases expected with
  | none => exact .nil
  | some expected =>
    cases value with
    | none => exact .ite (.single rfl ..) .nil
    | some e =>
      simp only [returned, Option.map_some, Expr.type_onLines]
      exact .ite (.single rfl ..) .nil

theorem insideLoop_echo (inLoop : Bool) (p : Place) :
    Echo keep (insideLoop inLoop p) (insideLoop inLoop ((Relabel.onLines keep).place p)) :=
  .ite .nil (.single rfl ..)

/-- A location is judged by its symbol, whose declaration may be on another line as well. -/
theorem location_echo (symbol : Option Symbol) (p : Place) (x : String) (index : Option Expr) :
    Echo keep (location symbol p x index) (location (symbol.map (·.onLines keep))
      ((Relabel.onLines keep).place p) x (index.map (·.relabel (.onLines keep)))) := by
  cases symbol with
  | none => exact .single rfl ..
  | some s =>
    -- only the kind of the symbol is asked for
    obtain ⟨name, kind, type, level, line⟩ := s
    cases kind with
    | scalar =>
      cases index with
      | none => exact .nil
      | some i => exact .single rfl ..
    | array length =>
      cases index with
      | none => exact .single rfl ..
      | some i =>
        simp only [location, Option.map_some, Symbol.onLines, Expr.type_onLines]
        exact .ite (.single rfl ..) .nil
    | function params => cases index <;> exact .single rfl ..

/-- The operands of an operator are judged by their types, one after the other. -/
theorem binary_echo (p : Place) (op : BinaryOp) (left right : Expr) :
    Echo keep (binary p op left right) (binary ((Relabel.onLines keep).place p) op
      (left.relabel (.onLines keep)) (right.relabel (.onLines keep))) := by
  simp only [binary, Expr.type_onLines]
  cases op.operandType? with
  | some expected => exact .append (expectType_echo ..) (expectType_echo ..)
  | none =>
    -- an equality: void operands are complained about one by one
    have void : ∀ (e : Expr) (span' : Span),
        Echo keep (if e.type.isVoid then [Mistake.voidOperand.onLine p.line e.span] else [])
          (if e.type.isVoid then [Mistake.voidOperand.onLine (keep p.line) span'] else []) :=
      fun e span' => .ite (.single rfl ..) .nil
    exact .ite (.append (void left _) (void right _)) (.ite (expectType_echo ..) .nil)

/-- Arguments are compared with the parameters by type and number, the same on both sides. -/
theorem arguments_echo (p : Place) (x : String) (index : Nat) (params : List Ty)
    (args : List Expr) :
    Echo keep (arguments p x index params args) (arguments ((Relabel.onLines keep).place p) x index
      params (relabelExprs (.onLines keep) args)) := by
  induction args generalizing index params with
  | nil => cases params <;> exact .nil
  | cons arg args ih =>
    cases params with
    | nil => exact .nil
    | cons param params =>
      simp only [relabelExprs, arguments, Expr.type_onLines]
      exact .append (.ite (.single rfl ..) .nil) (ih (index + 1) params)

/-- The symbol, the number of arguments and their types decide about a call; none of them moves. -/
theorem call_echo (symbol : Option Symbol) (p : Place) (x : String) (args : List Expr) :
    Echo keep (call symbol p x args) (call (symbol.map (·.onLines keep))
      ((Relabel.onLines keep).place p) x (relabelExprs (.onLines keep) args)) := by
  cases symbol with
  | none => exact .single rfl ..
  | some s =>
    obtain ⟨name, kind, type, level, line⟩ := s
    cases kind with
    | function params =>
      have hlength : (relabelExprs (.onLines keep) args).length = args.length := by
        rw [relabelExprs_eq_map, List.length_map]
      simp only [call, Option.map_some, Symbol.onLines, Symbol.Kind.params?, hlength]
      exact .ite (.single rfl ..) (arguments_echo ..)
    | _ => exact .single rfl ..

/-- The names repeated in a scope are the same, and so is the line that the scope is said to start
on, once it is moved too. -/
theorem duplicates_echo (s : Scope) : Echo keep (duplicates s) (duplicates (s.onLines keep)) := by
  simp only [duplicates, Scope.onLines, Array.toList_map, List.map_map]
  rw [Echo, List.forall₂_map_left_iff, List.forall₂_map_right_iff, List.forall₂_same]
  intro d _
  -- the one mistake that names a line besides its own, the line of the scope
  exact ⟨.duplicate d.name s.line, d.line, d.span, .point 0, rfl, rfl⟩

section

variable {look look' : String → Option Symbol}
  (hlook : ∀ x, look' x = (look x).map (·.onLines keep))

include hlook

/-- All rules of expressions at once: if names mean the same up to lines, the mistakes are the
same up to lines. -/
theorem expr_echo (e : Expr) :
    Echo keep (expr look e) (expr look' (e.relabel (.onLines keep))) := by
  cases e with
  | literal p t v => exact .nil
  | location p t x i =>
    have h : Echo keep (location (look x) p x i) (location ((look x).map (·.onLines keep))
        ((Relabel.onLines keep).place p) x (i.map (·.relabel (.onLines keep)))) :=
      location_echo ..
    rw [← hlook] at h
    cases i <;> exact h
  | binary p t op l r => exact binary_echo p op l r
  | unary p t op e =>
    simp only [Expr.relabel, expr, unary, Expr.type_onLines]
    exact expectType_echo ..
  | call p t f args =>
    show Echo keep (call (look f) p f args) (call (look' f) _ f _)
    rw [hlook]
    exact call_echo ..

/-- The type that the rules give an expression does not depend on the lines it stands on. -/
theorem exprType_onLines (e : Expr) :
    exprType look' (e.relabel (.onLines keep)) = exprType look e := by
  have hlocation : ∀ x, locationType (look' x) = locationType (look x) := by
    intro x
    rw [hlook]
    cases look x <;> rfl
  have hcall : ∀ x, callType (look' x) = callType (look x) := by
    intro x
    rw [hlook]
    cases look x <;> rfl
  cases e with
  | literal p t v => rfl
  | location p t x i => cases i <;> exact hlocation x
  | binary p t op l r => rfl
  | unary p t op e => rfl
  | call p t f args => exact hcall f

end

end Rules

section

variable {look look' : String → Option Symbol}
  (hlook : ∀ x, look' x = (look x).map (·.onLines keep))

include hlook

/-- Settling the type of an expression and moving it can be done in either order. -/
theorem Expr.settle_onLines (e : Expr) :
    (e.relabel (.onLines keep)).settle look' = (e.settle look).relabel (.onLines keep) := by
  rw [settle, Rules.exprType_onLines hlook, fillType_onLines, settle]

omit hlook in
theorem typedExprs_onLines_of {es : List Expr}
    (h : ∀ e ∈ es, (e.relabel (.onLines keep)).typed look' =
      (e.typed look).relabel (.onLines keep)) :
    typedExprs look' (relabelExprs (.onLines keep) es) =
      relabelExprs (.onLines keep) (typedExprs look es) := by
  induction es with
  | nil => rfl
  | cons e es ih =>
    rw [relabelExprs, typedExprs, typedExprs, relabelExprs, h e List.mem_cons_self,
      ih fun e' he => h e' (List.mem_cons_of_mem e he)]

/-- The types of an expression do not depend on its places. -/
theorem Expr.typed_onLines (e : Expr) :
    (e.relabel (.onLines keep)).typed look' = (e.typed look).relabel (.onLines keep) := by
  induction e using Expr.induction with
  | literal p t v =>
    rw [relabel, typed, typed, ← settle_onLines hlook]
    rfl
  | scalar p t x =>
    rw [relabel, typed, typed, ← settle_onLines hlook]
    rfl
  | element p t x i ih =>
    rw [relabel, typed, ih, typed, ← settle_onLines hlook]
    rfl
  | binary p t op l r ihl ihr =>
    rw [relabel, typed, ihl, ihr, typed, ← settle_onLines hlook]
    rfl
  | unary p t op e ih =>
    rw [relabel, typed, ih, typed, ← settle_onLines hlook]
    rfl
  | call p t f args ih =>
    rw [relabel, typed, typedExprs_onLines_of ih, typed, ← settle_onLines hlook]
    rfl

omit hlook in
theorem exprsMistakes_echo_of {es : List Expr}
    (h : ∀ e ∈ es, Echo keep (e.mistakes look) ((e.relabel (.onLines keep)).mistakes look')) :
    Echo keep (exprsMistakes look es) (exprsMistakes look' (relabelExprs (.onLines keep) es)) := by
  induction es with
  | nil => exact .nil
  | cons e es ih =>
    exact .append (h e List.mem_cons_self) (ih fun e' he => h e' (List.mem_cons_of_mem e he))

/-- What is found in an expression is found again. -/
theorem Expr.mistakes_echo (e : Expr) :
    Echo keep (e.mistakes look) ((e.relabel (.onLines keep)).mistakes look') := by
  induction e using Expr.induction with
  | literal p t v => exact .nil
  | scalar p t x => exact Rules.expr_echo hlook (.location p t x none)
  | element p t x i ih =>
    rw [relabel, mistakes, mistakes, typed_onLines hlook]
    exact .append ih (Rules.expr_echo hlook (.location p t x (some (i.typed look))))
  | binary p t op l r ihl ihr =>
    rw [relabel, mistakes, mistakes, typed_onLines hlook, typed_onLines hlook]
    exact .append ihl (.append ihr
      (Rules.expr_echo hlook (.binary p t op (l.typed look) (r.typed look))))
  | unary p t op e ih =>
    rw [relabel, mistakes, mistakes, typed_onLines hlook]
    exact .append ih (Rules.expr_echo hlook (.unary p t op (e.typed look)))
  | call p t f args ih =>
    rw [relabel, mistakes, mistakes, typedExprs_onLines_of fun e _ => e.typed_onLines hlook]
    exact .append (exprsMistakes_echo_of ih)
      (Rules.expr_echo hlook (.call p t f (typedExprs look args)))

end

/-! ## Blocks and statements -/

variable (tables : Tables)

/-- A name is looked up in the same scope of the moved tables, and found as the same symbol,
moved. -/
theorem Context.lookup_onLines (c : Context) (x : String) :
    c.lookup (tables.onLines keep) x = (c.lookup tables x).map (·.onLines keep) := by
  rw [lookup, lookup]
  cases c.scope with
  | none => rfl
  | some id => exact tables.lookup_onLines keep id x

theorem Context.typed_onLines (c : Context) (e : Expr) :
    (e.relabel (.onLines keep)).typed (c.lookup (tables.onLines keep)) =
      (e.typed (c.lookup tables)).relabel (.onLines keep) :=
  e.typed_onLines (c.lookup_onLines tables)

/-- An expression has the same mistakes in the same context of the moved tables. -/
theorem Context.mistakes_echo (c : Context) (e : Expr) :
    Echo keep (e.mistakes (c.lookup tables))
      ((e.relabel (.onLines keep)).mistakes (c.lookup (tables.onLines keep))) :=
  e.mistakes_echo (c.lookup_onLines tables)

/-- A node that opens no scope has no duplicates; one that does has those of its table. -/
theorem scopeMistakes_echo (scope : Option ScopeId) :
    Echo keep (scopeMistakes tables scope) (scopeMistakes (tables.onLines keep) scope) := by
  cases scope with
  | none => exact .nil
  | some id =>
    rw [scopeMistakes, scopeMistakes, Option.bind_some, Option.bind_some, Tables.scope?_onLines]
    cases tables.scope? id with
    | none => exact .nil
    | some s => exact Rules.duplicates_echo s

theorem typedStmts_onLines_of {ss : List Stmt} (c : Context)
    (h : ∀ s ∈ ss, ∀ c, (s.relabel (.onLines keep)).typed (tables.onLines keep) c =
      (s.typed tables c).relabel (.onLines keep)) :
    typedStmts (tables.onLines keep) c (relabelStmts (.onLines keep) ss) =
      relabelStmts (.onLines keep) (typedStmts tables c ss) := by
  induction ss with
  | nil => rfl
  | cons s ss ih =>
    rw [relabelStmts, typedStmts, typedStmts, relabelStmts, h s List.mem_cons_self,
      ih fun s' hs => h s' (List.mem_cons_of_mem s hs)]

/-- The types in a block or a statement do not depend on its places. -/
theorem block_stmt_typed_onLines :
    (∀ (b : Block) (c : Context), (b.relabel (.onLines keep)).typed (tables.onLines keep) c =
      (b.typed tables c).relabel (.onLines keep)) ∧
    ∀ (s : Stmt) (c : Context), (s.relabel (.onLines keep)).typed (tables.onLines keep) c =
      (s.typed tables c).relabel (.onLines keep) := by
  refine Block.induction ?mk ?assign ?call ?ifThen ?ifElse ?loop ?ret ?brk ?cont ?inner
  case mk =>
    intro locals statements p scope ih c
    rw [Block.relabel, Block.typed, Block.typed, Block.relabel, ← typedStmts_onLines_of tables _ ih]
    rfl
  case assign =>
    intro p target value c
    rw [Stmt.relabel, Stmt.typed, Stmt.typed, Stmt.relabel, c.typed_onLines, c.typed_onLines]
  case call =>
    intro p e c
    rw [Stmt.relabel, Stmt.typed, Stmt.typed, Stmt.relabel, c.typed_onLines]
  case ifThen =>
    intro p test b ihb c
    rw [Stmt.relabel, Stmt.typed, Stmt.typed, Stmt.relabel, c.typed_onLines, ihb]
  case ifElse =>
    intro p test b d ihb ihd c
    rw [Stmt.relabel, Stmt.typed, Stmt.typed, Stmt.relabel, c.typed_onLines, ihb, ihd]
  case loop =>
    intro p test b ihb c
    rw [Stmt.relabel, Stmt.typed, Stmt.typed, Stmt.relabel, c.typed_onLines, ihb]
  case ret =>
    intro p value c
    cases value with
    | none => rfl
    | some e =>
      rw [Stmt.relabel, Option.map_some, Stmt.typed, Option.map_some, Stmt.typed, Option.map_some,
        Stmt.relabel, Option.map_some, c.typed_onLines]
  case brk => exact fun p c => rfl
  case cont => exact fun p c => rfl
  case inner =>
    intro p b ihb c
    rw [Stmt.relabel, Stmt.typed, Stmt.typed, Stmt.relabel, ihb]

theorem flatMap_varDecl_echo (ds : List VarDecl) :
    Echo keep (ds.flatMap Rules.varDecl)
      ((ds.map (·.relabel (.onLines keep))).flatMap Rules.varDecl) := by
  rw [List.flatMap_map]
  exact .flatMap fun d _ => Rules.varDecl_echo d

theorem stmtsMistakes_echo_of {ss : List Stmt} (c : Context)
    (h : ∀ s ∈ ss, ∀ c, Echo keep (s.mistakes tables c)
      ((s.relabel (.onLines keep)).mistakes (tables.onLines keep) c)) :
    Echo keep (stmtsMistakes tables c ss)
      (stmtsMistakes (tables.onLines keep) c (relabelStmts (.onLines keep) ss)) := by
  induction ss with
  | nil => exact .nil
  | cons s ss ih =>
    exact .append (h s List.mem_cons_self c) (ih fun s' hs => h s' (List.mem_cons_of_mem s hs))

/-- What is found in a block or a statement is found again. -/
theorem block_stmt_mistakes_echo :
    (∀ (b : Block) (c : Context), Echo keep (b.mistakes tables c)
      ((b.relabel (.onLines keep)).mistakes (tables.onLines keep) c)) ∧
    ∀ (s : Stmt) (c : Context), Echo keep (s.mistakes tables c)
      ((s.relabel (.onLines keep)).mistakes (tables.onLines keep) c) := by
  refine Block.induction ?mk ?assign ?call ?ifThen ?ifElse ?loop ?ret ?brk ?cont ?inner
  case mk =>
    intro locals statements p scope ih c
    exact .append (scopeMistakes_echo tables scope)
      (.append (flatMap_varDecl_echo locals) (stmtsMistakes_echo_of tables _ ih))
  case assign =>
    intro p target value c
    rw [Stmt.relabel, Stmt.mistakes, Stmt.mistakes, c.typed_onLines, c.typed_onLines]
    exact .append (c.mistakes_echo tables target)
      (.append (c.mistakes_echo tables value) (Rules.assignment_echo ..))
  case call => exact fun p e c => c.mistakes_echo tables e
  case ifThen =>
    intro p test b ihb c
    rw [Stmt.relabel, Stmt.mistakes, Stmt.mistakes, c.typed_onLines]
    exact .append (c.mistakes_echo tables test) (.append (ihb c) (Rules.condition_echo ..))
  case ifElse =>
    intro p test b d ihb ihd c
    rw [Stmt.relabel, Stmt.mistakes, Stmt.mistakes, c.typed_onLines]
    exact .append (c.mistakes_echo tables test)
      (.append (ihb c) (.append (ihd c) (Rules.condition_echo ..)))
  case loop =>
    intro p test b ihb c
    rw [Stmt.relabel, Stmt.mistakes, Stmt.mistakes, c.typed_onLines]
    exact .append (c.mistakes_echo tables test)
      (.append (ihb c.inLoopBody) (Rules.condition_echo ..))
  case ret =>
    intro p value c
    cases value with
    | none => exact Rules.returned_echo c.returnType? p none
    | some e =>
      rw [Stmt.relabel, Option.map_some, Stmt.mistakes, Stmt.mistakes, c.typed_onLines]
      exact .append (c.mistakes_echo tables e)
        (Rules.returned_echo c.returnType? p (some (e.typed (c.lookup tables))))
  case brk => exact fun p c => Rules.insideLoop_echo c.inLoop p
  case cont => exact fun p c => Rules.insideLoop_echo c.inLoop p
  case inner => exact fun p b ihb c => ihb c

/-! ## Programs -/

/-- A function is typed alike on other lines. -/
theorem Function.typed_onLines (f : Function) (c : Context) :
    (f.relabel (.onLines keep)).typed (tables.onLines keep) c =
      (f.typed tables c).relabel (.onLines keep) := by
  have hbody : (f.body.relabel (.onLines keep)).typed (tables.onLines keep) (f.context c) =
      (f.body.typed tables (f.context c)).relabel (.onLines keep) :=
    (block_stmt_typed_onLines tables).1 f.body (f.context c)
  rw [Function.relabel, Function.typed, Function.typed, Function.relabel, ← hbody]
  rfl

/-- The mistakes in a function are found again on the moved lines. -/
theorem Function.mistakes_echo (f : Function) (c : Context) :
    Echo keep (f.mistakes tables c)
      ((f.relabel (.onLines keep)).mistakes (tables.onLines keep) c) := by
  have hparams : Echo keep (f.params.flatMap Rules.param)
      ((f.params.map (·.relabel (.onLines keep))).flatMap Rules.param) := by
    rw [List.flatMap_map]
    exact .flatMap fun p _ => Rules.param_echo p
  exact .append (scopeMistakes_echo tables f.scope)
    (.append hparams ((block_stmt_mistakes_echo tables).1 f.body (f.context c)))

/-- A program is typed alike on other lines. -/
theorem Program.typed_onLines (p : Program) (c : Context) :
    (p.relabel (.onLines keep)).typed (tables.onLines keep) c =
      (p.typed tables c).relabel (.onLines keep) := by
  have hfunctions : ∀ c, (p.functions.map (·.relabel (.onLines keep))).map
      (·.typed (tables.onLines keep) c) =
      (p.functions.map (·.typed tables c)).map (·.relabel (.onLines keep)) := by
    intro c
    rw [List.map_map, List.map_map]
    exact List.map_congr_left fun f _ => f.typed_onLines tables c
  rw [Program.relabel, Program.typed, Program.typed, Program.relabel, ← hfunctions]
  rfl

/-- The mistakes in a program are found again, in the same order, on the moved lines. -/
theorem Program.mistakes_echo (p : Program) (c : Context) :
    Echo keep (p.mistakes tables c)
      ((p.relabel (.onLines keep)).mistakes (tables.onLines keep) c) := by
  have hfunctions : ∀ c, Echo keep (p.functions.flatMap (·.mistakes tables c))
      ((p.functions.map (·.relabel (.onLines keep))).flatMap
        (·.mistakes (tables.onLines keep) c)) := by
    intro c
    rw [List.flatMap_map]
    exact .flatMap fun f _ => f.mistakes_echo tables c
  have hmain : Echo keep (Rules.entryPoint ((c.within p.scope).lookup tables "main") p.place)
      (Rules.entryPoint ((c.within p.scope).lookup (tables.onLines keep) "main")
        ((Relabel.onLines keep).place p.place)) := by
    rw [Context.lookup_onLines]
    exact Rules.entryPoint_echo ..
  exact .append (scopeMistakes_echo tables p.scope)
    (.append (flatMap_varDecl_echo p.globals) (.append (hfunctions _) hmain))

/-- A program whose labels are reduced is checked with the same outcome: the same types,
the same scopes, and the same mistakes, all on what is left of their lines. -/
theorem checkProgram_onLines (hkeep : keep 0 = 0) (p : Program) :
    (checkProgram (p.relabel (.onLines keep))).program =
      (checkProgram p).program.relabel (.onLines keep) ∧
    (checkProgram (p.relabel (.onLines keep))).tables = (checkProgram p).tables.onLines keep ∧
    Echo keep (checkProgram p).errors.toList
      (checkProgram (p.relabel (.onLines keep))).errors.toList := by
  simp only [checkProgram, p.withScopes_onLines keep hkeep, analyze_eq, ErrorList.toList_reportAll,
    ErrorList.toList_empty, List.nil_append]
  exact ⟨Program.typed_onLines .., trivial, Program.mistakes_echo ..⟩

/-! ## Two texts -/

/-- Once the text is split into tokens, the verdict on it is that of the parser and the checker. -/
theorem checkText_verdict_eq {source : String} {tokens : List Token}
    (ht : tokenize source = .ok tokens) (how : Presentation) (file : String) :
    (checkText how file source).verdict =
      ((parse source).map checkProgram).mapError ParseError.fault := by
  have hread : readProgram how source = (parse source).mapError ParseError.fault := by
    rw [readProgram.eq_def, ht]
    cases how.dumpTokens <;> rfl
  rw [checkText, hread]
  cases parse source <;> rfl

/-- Only a text that cannot be split is blamed on the tokens; any other refusal comes from the
parser. -/
theorem ParseError.fault_eq {e : ParseError} (h : ∀ f, e ≠ .unreadable f) :
    e.fault = .parser e.message e.span := by
  cases e with
  | unreadable f => exact absurd rfl (h f)
  | _ => rfl

/-- Programs that are the same once their labels are reduced are checked alike. -/
theorem checkProgram_alike (hkeep : keep 0 = 0) {p p' : Program}
    (h : p.relabel (.onLines keep) = p'.relabel (.onLines keep)) :
    (checkProgram p).program.relabel (.onLines keep) =
      (checkProgram p').program.relabel (.onLines keep) ∧
    (checkProgram p).tables.onLines keep = (checkProgram p').tables.onLines keep ∧
    ∃ ds, Echo keep (checkProgram p).errors.toList ds ∧
      Echo keep (checkProgram p').errors.toList ds := by
  obtain ⟨hprogram, htables, herrors⟩ := checkProgram_onLines hkeep p
  obtain ⟨hprogram', htables', herrors'⟩ := checkProgram_onLines hkeep p'
  -- both are compared with the program that has the labels in common
  rw [← h] at hprogram' htables' herrors'
  exact ⟨hprogram.symm.trans hprogram', htables.symm.trans htables', _, herrors, herrors'⟩

/-- With every line kept, the two lists of mistakes read the same. -/
theorem Echo.map_eq_of_id {ds es : List Diagnostic} (h : Echo id ds es) :
    ds.map (fun d => (d.message, d.line)) = es.map fun d => (d.message, d.line) := by
  induction h with
  | nil => rfl
  | cons hd _ ih => rw [List.map_cons, List.map_cons, hd.eq_of_id.1, hd.eq_of_id.2, ih]

/-- Texts that divide into tokens of the same kinds are checked alike, however they are
laid out. Either both are complained about, at the same token, or both are checked. Then
the programs, with the types inferred, are the same up to spans and lines, the tables are
the same up to lines and the spans of duplicates, and there are as many mistakes. If
corresponding tokens start on the same lines, the mistakes have the same messages on the
same lines. -/
theorem checkText_same_tokens {source source' : String} {tokens tokens' : List Token}
    {last last' : Token} (ht : tokenize source = .ok (tokens ++ [last]))
    (ht' : tokenize source' = .ok (tokens' ++ [last'])) (hk : kinds tokens = kinds tokens')
    (how how' : Presentation) (file file' : String) :
    (∃ (i : Nat) (t t' : Token) (m m' : String), (tokens ++ [last])[i]? = some t ∧
      (tokens' ++ [last'])[i]? = some t' ∧
      (checkText how file source).verdict = .error (.parser m t.span) ∧
      (checkText how' file' source').verdict = .error (.parser m' t'.span)) ∨
    ∃ c c', (checkText how file source).verdict = .ok c ∧
      (checkText how' file' source').verdict = .ok c' ∧
      c.program.relabel .unplaced = c'.program.relabel .unplaced ∧
      c.tables.onLines (fun _ => 0) = c'.tables.onLines (fun _ => 0) ∧
      c.errors.size = c'.errors.size ∧
      (Layouts.startLines source tokens = Layouts.startLines source' tokens' →
        c.errors.toList.map (fun d => (d.message, d.line)) =
          c'.errors.toList.map fun d => (d.message, d.line)) := by
  rw [checkText_verdict_eq ht, checkText_verdict_eq ht']
  cases hp : parse source with
  | error e =>
    left
    obtain ⟨e', i, t, t', hp', hi, hi', hspan, hspan'⟩ := parse_error_same_token ht ht' hk hp
    have hfault := ParseError.fault_eq fun f hf => parse_ne_unreadable ht f (hf ▸ hp)
    have hfault' := ParseError.fault_eq fun f hf => parse_ne_unreadable ht' f (hf ▸ hp')
    refine ⟨i, t, t', e.message, e'.message, hi, hi', ?_, ?_⟩
    · rw [← hspan, ← hfault]
      rfl
    · rw [← hspan', ← hfault', hp']
      rfl
  | ok p =>
    right
    obtain ⟨_, rfl, _⟩ := tokenize_eq_ok_iff.mp ht
    obtain ⟨hf', rfl, _⟩ := tokenize_eq_ok_iff.mp ht'
    obtain ⟨p', hp', hsame⟩ := (Layouts.alike_unlined hf' hk).parse rfl rfl hp
    obtain ⟨hprogram, htables, ds, herrors, herrors'⟩ := checkProgram_alike rfl hsame
    have hsize : (checkProgram p).errors.size = (checkProgram p').errors.size :=
      herrors.length_eq.trans herrors'.length_eq.symm
    rw [hp']
    refine ⟨checkProgram p, checkProgram p', rfl, rfl, hprogram, htables, hsize, ?_⟩
    -- the lines agree, so they are kept in a second comparison
    intro hlines
    have halike : (Layouts.lined source source' hf').Alike _ _ := Layouts.alike_of_lines hk hlines
    obtain ⟨p'', hp'', hlined⟩ := halike.parse rfl rfl hp
    cases hp'.symm.trans hp''
    obtain ⟨_, _, ds, herrors, herrors'⟩ := checkProgram_alike rfl hlined
    rw [herrors.map_eq_of_id, herrors'.map_eq_of_id]

/-- A text with a mistake in its second line. -/
def tidy : String :=
  "int main() \x7b\n  return y;\n\x7d\n"

/-- The same with other blanks, and with comments. -/
def ragged : String :=
  "int main ( ) \x7b// where is y?\n return\ty ;  // not here\n\x7d"

/-- Two layouts of one program, with corresponding tokens on the same lines, get one mistake each,
worded alike and on the same line. -/
theorem tidy_ragged_same_mistakes :
    ∃ c c', (checkText .default "tidy" tidy).verdict = .ok c ∧
      (checkText .default "ragged" ragged).verdict = .ok c' ∧ c.errors.size = 1 ∧
      c.errors.toList.map (fun d => (d.message, d.line)) =
        c'.errors.toList.map fun d => (d.message, d.line) := by
  have ht := tokenize_eq_ok_iff.mpr
    ⟨(by decide +kernel : (Stream.ofSource tidy).fault = none), rfl, rfl⟩
  have ht' := tokenize_eq_ok_iff.mpr
    ⟨(by decide +kernel : (Stream.ofSource ragged).fault = none), rfl, rfl⟩
  have hone : (checkText .default "tidy" tidy).verdict.toOption.map (·.errors.size) = some 1 := by
    decide +kernel
  rcases checkText_same_tokens ht ht' (by decide +kernel) .default .default "tidy" "ragged" with
    ⟨i, t, t', m, m', _, _, herror, _⟩ | ⟨c, c', hc, hc', _, _, _, hlines⟩
  · rw [herror] at hone
    cases hone
  · rw [hc] at hone
    exact ⟨c, c', hc, hc', Option.some.inj hone, hlines (by decide +kernel)⟩

end Decaf
