import Decaf.Proofs.Check.Compositional
import Decaf.Proofs.Scope.Mirror

/-!
# Where duplicates are reported

The duplicates of a scope are reported when its construct is entered, and nothing else
that is found in a program is worded like them. So if the reports about duplicates are
picked out of what is found in a tree, what is left are the duplicates of the scopes
that the tree carries, site by site (`Program.mistakes_redeclared`).
-/

namespace Decaf

/-! ## The wording of duplicates -/

/-- Whether a mistake is a second declaration of a name. -/
def Mistake.isDuplicate : Mistake → Bool
  | .duplicate .. => true
  | _ => false

/-- Whether a report is about a second declaration of a name, by its wording. -/
def Diagnostic.isDuplicate (d : Diagnostic) : Bool :=
  "Duplicate symbols named '".toList.isPrefixOf d.message.toList

/-- The letter that the wording of a mistake begins with. -/
def Mistake.initial : Mistake → Char
  | .duplicate .. => 'D'
  | .noMain | .badMain => 'M'
  | .voidParameter _ | .voidVariable _ | .assignment _ => 'V'
  | .emptyArray _ | .bareArray _ | .indexType => 'A'
  | .condition => 'C'
  | .returnType => 'R'
  | .outsideLoop => 'B'
  | .undefined _ | .indexedScalar _ => 'S'
  | .functionAsVariable _ | .notAFunction _ | .argumentCount => 'I'
  | .operand .. | .voidOperand | .argument .. => 'T'

theorem head?_toList_append {text : String} {c : Char} (h : text.toList.head? = some c)
    (more : String) : (text ++ more).toList.head? = some c := by
  rw [String.toList_append, List.head?_append, h, Option.some_or]

/-- The first letter of a message depends only on the sort of mistake, and duplicates share theirs
with no other. -/
theorem Mistake.message_initial (m : Mistake) (line : Nat) :
    (m.message line).toList.head? = some m.initial := by
  -- each wording is put together from its first part on, in so many steps
  cases m <;> dsimp only [Mistake.message, Mistake.initial]
  case noMain | badMain | condition | indexType | voidOperand | argumentCount =>
    exact head?_toList_append (by decide +kernel) _
  case returnType | outsideLoop =>
    iterate 2 refine head?_toList_append ?_ _
    decide +kernel
  case emptyArray =>
    iterate 4 refine head?_toList_append ?_ _
    decide +kernel
  case operand =>
    iterate 5 refine head?_toList_append ?_ _
    decide +kernel
  case argument =>
    iterate 9 refine head?_toList_append ?_ _
    decide +kernel
  all_goals
    iterate 3 refine head?_toList_append ?_ _
    decide +kernel

/-- No other mistake is worded like a duplicate. -/
theorem Mistake.onLine_isDuplicate_eq_false {m : Mistake} (hm : m.isDuplicate = false) (line : Nat)
    (span : Span) : (m.onLine line span).isDuplicate = false := by
  have hinitial : m.initial ≠ 'D' := by
    cases m with
    | duplicate => cases hm
    | _ =>
      dsimp only [Mistake.initial]
      decide
  rw [Bool.eq_false_iff]
  intro h
  obtain ⟨more, hmore⟩ := List.isPrefixOf_iff_prefix.mp h
  have hhead : (m.message line).toList.head? = some 'D' := by
    rw [show (m.message line).toList = _ from hmore.symm, List.head?_append,
      show "Duplicate symbols named '".toList.head? = some 'D' by decide +kernel, Option.some_or]
  rw [Mistake.message_initial] at hhead
  exact hinitial (Option.some.inj hhead)

/-- A duplicate is recognized by its wording. -/
theorem Mistake.duplicate_isDuplicate (name : String) (scopeLine line : Nat) (span : Span) :
    ((Mistake.duplicate name scopeLine).onLine line span).isDuplicate = true := by
  refine List.isPrefixOf_iff_prefix.mpr ?_
  show _ <+: ("Duplicate symbols named '" ++ name ++ "' in scope started on line " ++
    toString scopeLine).toList
  rw [String.toList_append, String.toList_append, String.toList_append, List.append_assoc,
    List.append_assoc]
  exact List.prefix_append _ _

/-! ## The other rules -/

/-- None of the reports is about a duplicate. -/
def Plain (ds : List Diagnostic) : Prop :=
  ∀ d ∈ ds, d.isDuplicate = false

namespace Plain

theorem nil : Plain [] :=
  fun _ h => absurd h List.not_mem_nil

/-- One mistake of another sort. -/
theorem single {m : Mistake} (hm : m.isDuplicate = false) (line : Nat) (span : Span) :
    Plain [m.onLine line span] :=
  List.forall_mem_singleton.mpr (Mistake.onLine_isDuplicate_eq_false hm line span)

theorem append {ds es : List Diagnostic} (hd : Plain ds) (he : Plain es) : Plain (ds ++ es) :=
  List.forall_mem_append.mpr ⟨hd, he⟩

/-- Whichever branch a rule takes. -/
theorem ite {c : Prop} [Decidable c] {ds es : List Diagnostic} (hd : Plain ds) (he : Plain es) :
    Plain (if c then ds else es) := by
  split
  · exact hd
  · exact he

theorem flatMap {α : Type} {as : List α} {f : α → List Diagnostic} (h : ∀ a ∈ as, Plain (f a)) :
    Plain (as.flatMap f) := by
  intro d hd
  obtain ⟨a, ha, hd⟩ := List.mem_flatMap.mp hd
  exact h a ha d hd

/-- Where nothing is worded like a duplicate, nothing is picked out. -/
theorem filter_eq_nil {ds : List Diagnostic} (h : Plain ds) :
    ds.filter (·.isDuplicate) = [] :=
  List.filter_eq_nil_iff.mpr fun d hd => by rw [h d hd]; exact Bool.false_ne_true

end Plain

namespace Rules

theorem param_plain {p : Param} : Plain (param p) :=
  .ite (.single rfl _ _) .nil

theorem varDecl_plain {d : VarDecl} : Plain (varDecl d) :=
  .append (.ite (.single rfl _ _) .nil) (.ite (.single rfl _ _) .nil)

theorem entryPoint_plain {symbol : Option Symbol} {place : Place} :
    Plain (entryPoint symbol place) := by
  cases symbol with
  | none => exact .single rfl _ _
  | some s => exact .ite .nil (.single rfl _ _)

theorem expectType_plain {expected found : Ty} {line : Nat} {span : Span} :
    Plain (expectType expected found line span) :=
  .ite (.single rfl _ _) .nil

theorem location_plain {symbol : Option Symbol} {place : Place} {name : String}
    {index : Option Expr} : Plain (location symbol place name index) := by
  unfold location
  split
  · exact .single rfl _ _
  · split
    · exact .nil
    · exact .single rfl _ _
    · exact .single rfl _ _
    · exact .ite (.single rfl _ _) .nil
    · exact .single rfl _ _

/-- No branch of the rule for operators is about duplicates. So it is with the other rules. -/
theorem binary_plain {place : Place} {op : BinaryOp} {left right : Expr} :
    Plain (binary place op left right) := by
  unfold binary
  split
  · exact .append expectType_plain expectType_plain
  · exact .ite (.append (.ite (.single rfl _ _) .nil) (.ite (.single rfl _ _) .nil))
      (.ite expectType_plain .nil)

/-- The same for arguments, by induction along the parameters. -/
theorem arguments_plain {place : Place} {name : String} {index : Nat} {params : List Ty}
    {args : List Expr} : Plain (arguments place name index params args) := by
  induction params generalizing index args with
  | nil => exact .nil
  | cons param params ih =>
    cases args with
    | nil => exact .nil
    | cons arg args =>
      rw [arguments]
      exact .append (.ite (.single rfl _ _) .nil) ih

theorem call_plain {symbol : Option Symbol} {place : Place} {name : String} {args : List Expr} :
    Plain (call symbol place name args) := by
  unfold call
  split
  · exact .single rfl _ _
  · split
    · exact .single rfl _ _
    · exact .ite (.single rfl _ _) arguments_plain

/-- No rule for expressions reports a duplicate. -/
theorem expr_plain {look : String → Option Symbol} {e : Expr} : Plain (expr look e) := by
  cases e with
  | literal => exact .nil
  | location => exact location_plain
  | binary => exact binary_plain
  | unary => exact expectType_plain
  | call => exact call_plain

theorem assignment_plain {place : Place} {target value : Expr} :
    Plain (assignment place target value) :=
  .ite (.single rfl _ _) .nil

theorem condition_plain {place : Place} {test : Expr} : Plain (condition place test) :=
  .ite (.single rfl _ _) .nil

theorem returned_plain {expected : Option Ty} {place : Place} {value : Option Expr} :
    Plain (returned expected place value) := by
  unfold returned
  split
  · exact .nil
  · exact .ite (.single rfl _ _) .nil

theorem insideLoop_plain {inLoop : Bool} {place : Place} : Plain (insideLoop inLoop place) :=
  .ite .nil (.single rfl _ _)

end Rules

/-- What is found in an expression is never about a duplicate. -/
theorem Expr.mistakes_plain (look : String → Option Symbol) (e : Expr) :
    Plain (e.mistakes look) := by
  induction e using Expr.induction with
  | literal p t v => exact Rules.expr_plain
  | scalar p t x => exact Rules.expr_plain
  | element p t x i ih => exact ih.append Rules.expr_plain
  | binary p t op l r ihl ihr => exact ihl.append (ihr.append Rules.expr_plain)
  | unary p t op e ih => exact ih.append Rules.expr_plain
  | call p t f args ih =>
    have hargs : Plain (exprsMistakes look args) := by
      induction args with
      | nil => exact .nil
      | cons a args iha =>
        exact (ih a List.mem_cons_self).append (iha fun b hb => ih b (List.mem_cons_of_mem a hb))
    exact hargs.append Rules.expr_plain

/-! ## Along the tree -/

variable {tables : Tables}

/-- Everything that is reported on entering a scope is about duplicates. -/
theorem scopeMistakes_redeclared (scope : Option ScopeId) :
    (scopeMistakes tables scope).filter (·.isDuplicate) = scopeMistakes tables scope := by
  refine List.filter_eq_self.mpr fun d hd => ?_
  unfold scopeMistakes at hd
  split at hd
  · obtain ⟨dup, _, rfl⟩ := List.mem_map.mp hd
    exact Mistake.duplicate_isDuplicate ..
  · cases hd

/-- The duplicates of the scopes at sites, in order. -/
def redeclaredAt (tables : Tables) (sites : List Site) : List Diagnostic :=
  sites.flatMap fun site => scopeMistakes tables site.scope

theorem redeclaredAt_append (xs ys : List Site) :
    redeclaredAt tables (xs ++ ys) = redeclaredAt tables xs ++ redeclaredAt tables ys :=
  List.flatMap_append

/-- Statements in a row, by the sites of each. -/
theorem stmtsMistakes_redeclared_of {ss : List Stmt}
    (h : ∀ x ∈ ss, ∀ (c : Context) (outer : List (Option ScopeId)),
      (x.mistakes tables c).filter (·.isDuplicate) = redeclaredAt tables (x.sites outer))
    (c : Context) (outer : List (Option ScopeId)) :
    (stmtsMistakes tables c ss).filter (·.isDuplicate) =
      redeclaredAt tables (stmtsSites outer ss) := by
  induction ss with
  | nil => rfl
  | cons x ss ih =>
    rw [stmtsMistakes, stmtsSites, List.filter_append, redeclaredAt_append, h x List.mem_cons_self,
      ih fun y hy => h y (List.mem_cons_of_mem x hy)]

/-- Of what is found in a block or a statement, exactly the duplicates of the scopes at
its sites are reported as such. -/
theorem block_stmt_mistakes_redeclared :
    (∀ (b : Block) (c : Context) (outer : List (Option ScopeId)),
      (b.mistakes tables c).filter (·.isDuplicate) = redeclaredAt tables (b.sites outer)) ∧
    ∀ (x : Stmt) (c : Context) (outer : List (Option ScopeId)),
      (x.mistakes tables c).filter (·.isDuplicate) = redeclaredAt tables (x.sites outer) := by
  have hexpr (look : String → Option Symbol) (e : Expr) := (e.mistakes_plain look).filter_eq_nil
  refine Block.induction ?mk ?assign ?call ?ifThen ?ifElse ?loop ?ret ?brk ?cont ?inner
  case mk =>
    intro locals statements place scope ih c outer
    have hlocals : Plain (locals.flatMap Rules.varDecl) := .flatMap fun _ _ => Rules.varDecl_plain
    rw [Block.mistakes, Block.sites, List.filter_append, List.filter_append,
      scopeMistakes_redeclared, hlocals.filter_eq_nil, List.nil_append,
      stmtsMistakes_redeclared_of ih]
    rfl
  case assign =>
    intro place target value c outer
    rw [Stmt.mistakes, Stmt.sites, List.filter_append, List.filter_append, hexpr, hexpr,
      Rules.assignment_plain.filter_eq_nil]
    rfl
  case call =>
    intro place e c outer
    rw [Stmt.mistakes, Stmt.sites, hexpr]
    rfl
  case ifThen =>
    intro place test b ihb c outer
    rw [Stmt.mistakes, Stmt.sites, List.filter_append, List.filter_append, hexpr, ihb c outer,
      Rules.condition_plain.filter_eq_nil, List.append_nil, List.nil_append]
  case ifElse =>
    intro place test b d ihb ihd c outer
    rw [Stmt.mistakes, Stmt.sites, List.filter_append, List.filter_append, List.filter_append,
      hexpr, ihb c outer, ihd c outer, Rules.condition_plain.filter_eq_nil, List.append_nil,
      List.nil_append, redeclaredAt_append]
  case loop =>
    intro place test b ihb c outer
    rw [Stmt.mistakes, Stmt.sites, List.filter_append, List.filter_append, hexpr,
      ihb c.inLoopBody outer, Rules.condition_plain.filter_eq_nil, List.append_nil, List.nil_append]
  case ret =>
    intro place value c outer
    cases value with
    | none =>
      rw [Stmt.mistakes, Stmt.sites, Rules.returned_plain.filter_eq_nil]
      rfl
    | some e =>
      rw [Stmt.mistakes, Stmt.sites, List.filter_append, hexpr, Rules.returned_plain.filter_eq_nil]
      rfl
  case brk =>
    intro place c outer
    rw [Stmt.mistakes, Stmt.sites, Rules.insideLoop_plain.filter_eq_nil]
    rfl
  case cont =>
    intro place c outer
    rw [Stmt.mistakes, Stmt.sites, Rules.insideLoop_plain.filter_eq_nil]
    rfl
  case inner =>
    intro place b ihb c outer
    rw [Stmt.mistakes, Stmt.sites, ihb c outer]

/-- In a function the duplicates are those of its own scope, and then those of its body. -/
theorem Function.mistakes_redeclared (f : Function) (c : Context)
    (outer : List (Option ScopeId)) :
    (f.mistakes tables c).filter (·.isDuplicate) = redeclaredAt tables (f.sites outer) := by
  have hparams : Plain (f.params.flatMap Rules.param) := .flatMap fun _ _ => Rules.param_plain
  rw [Function.mistakes, Function.sites, List.filter_append, List.filter_append,
    scopeMistakes_redeclared, hparams.filter_eq_nil, List.nil_append,
    block_stmt_mistakes_redeclared.1 f.body _ (f.scope :: outer)]
  rfl

/-- Of what is found in a program, exactly the duplicates of the scopes at its sites are
reported as such, in order. -/
theorem Program.mistakes_redeclared (p : Program) (c : Context) :
    (p.mistakes tables c).filter (·.isDuplicate) = redeclaredAt tables p.sites := by
  have hglobals : Plain (p.globals.flatMap Rules.varDecl) :=
    .flatMap fun _ _ => Rules.varDecl_plain
  have hfunctions (fs : List Function) :
      (fs.flatMap (·.mistakes tables (c.within p.scope))).filter (·.isDuplicate) =
        redeclaredAt tables (fs.flatMap (·.sites [p.scope])) := by
    induction fs with
    | nil => rfl
    | cons f fs ih =>
      rw [List.flatMap_cons, List.filter_append, f.mistakes_redeclared _ [p.scope], ih,
        List.flatMap_cons, redeclaredAt_append]
  rw [Program.mistakes, Program.sites, List.filter_append, List.filter_append, List.filter_append,
    scopeMistakes_redeclared, hglobals.filter_eq_nil, List.nil_append, hfunctions,
    Rules.entryPoint_plain.filter_eq_nil, List.append_nil]
  rfl

/-- If the sites have the scopes of the tables in order, these are the duplicates of all
scopes in order. -/
theorem redeclaredAt_eq {sites : List Site}
    (h : sites.map (·.scope) = (List.range tables.size).map fun i => some ⟨i⟩) :
    redeclaredAt tables sites = tables.scopes.toList.flatMap Rules.duplicates := by
  have hfound (i : Nat) : scopeMistakes tables (some ⟨i⟩) =
      (tables.scopes[i]?).elim [] Rules.duplicates := by
    rw [scopeMistakes, Option.bind_some, Tables.scope?]
    cases tables.scopes[i]? <;> rfl
  have hscopes : (List.range tables.size).map (tables.scopes[·]?) =
      tables.scopes.toList.map some :=
    List.ext_getElem (by simp [Tables.size]) fun i hi hi' => by simp
  calc redeclaredAt tables sites
    _ = (sites.map (·.scope)).flatMap (scopeMistakes tables) := by
      rw [redeclaredAt, List.flatMap_map]
    _ = (List.range tables.size).flatMap fun i => (tables.scopes[i]?).elim [] Rules.duplicates := by
      rw [h, List.flatMap_map]
      exact congrArg (List.flatMap · _) (funext hfound)
    _ = (tables.scopes.toList.map some).flatMap (·.elim [] Rules.duplicates) := by
      rw [← hscopes, List.flatMap_map]
    _ = tables.scopes.toList.flatMap Rules.duplicates := by
      rw [List.flatMap_map]
      rfl

end Decaf
