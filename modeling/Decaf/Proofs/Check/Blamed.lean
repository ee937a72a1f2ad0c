import Decaf.Proofs.Syntax.Nodes
import Decaf.Proofs.Check.Reference

/-!
# What diagnostics are about

A rule of the checker looks at one node. What it has to say it says on the line of this node
and of the whole node, of its beginning, or of one of the parts that it judges: a condition, an
index, an operand or an argument. `Node.Blamed` lists what can be said of which node, one case
for each rule.

All findings about a program are of this form (`Reference.findings_about`). The proof goes
through the rules in the order in which the findings are listed, with one lemma for each; the
names that a scope declares twice are complained about at the node that repeats them.
-/

namespace Decaf

/-! ## Mistakes and nodes -/

/-- The mistakes that a rule can find in a node, each with the span that it is reported for. -/
inductive Node.Blamed : Node → Mistake → Span → Prop
  | repeatedFunction (f : Function) (line : Nat) :
    Blamed (.function f) (.duplicate f.name line) f.place.span
  | repeatedParam (x : Param) (line : Nat) :
    Blamed (.param x) (.duplicate x.name line) x.place.span
  | repeatedVariable (d : VarDecl) (line : Nat) :
    Blamed (.varDecl d) (.duplicate d.name line) d.place.span
  | voidParameter (x : Param) : Blamed (.param x) (.voidParameter x.name) x.place.span
  | voidVariable (d : VarDecl) : Blamed (.varDecl d) (.voidVariable d.name) d.place.span
  | emptyArray (d : VarDecl) : Blamed (.varDecl d) (.emptyArray d.name) d.place.span
  | noMain (p : Program) : Blamed (.program p) .noMain (.point p.place.span.start)
  | badMain (p : Program) : Blamed (.program p) .badMain (.point p.place.span.start)
  | assignment (p : Place) (target value : Expr) :
    Blamed (.stmt (.assign p target value)) (.assignment (target.locationName?.getD "")) p.span
  | conditional (p : Place) (test : Expr) (b : Block) (c : Option Block) :
    Blamed (.stmt (.conditional p test b c)) .condition test.span
  | loop (p : Place) (test : Expr) (b : Block) :
    Blamed (.stmt (.loop p test b)) .condition test.span
  | returnType (p : Place) (value : Option Expr) : Blamed (.stmt (.ret p value)) .returnType p.span
  | looseBreak (p : Place) : Blamed (.stmt (.break p)) .outsideLoop p.span
  | looseContinue (p : Place) : Blamed (.stmt (.continue p)) .outsideLoop p.span
  | undefinedVariable (p : Place) (t : Option Ty) (x : String) (i : Option Expr) :
    Blamed (.expr (.location p t x i)) (.undefined x) p.span
  | indexedScalar (p : Place) (t : Option Ty) (x : String) (i : Expr) :
    Blamed (.expr (.location p t x (some i))) (.indexedScalar x) p.span
  | bareArray (p : Place) (t : Option Ty) (x : String) :
    Blamed (.expr (.location p t x none)) (.bareArray x) p.span
  | indexType (p : Place) (t : Option Ty) (x : String) (i : Expr) :
    Blamed (.expr (.location p t x (some i))) .indexType i.span
  | functionAsVariable (p : Place) (t : Option Ty) (x : String) (i : Option Expr) :
    Blamed (.expr (.location p t x i)) (.functionAsVariable x) p.span
  | leftOperand (p : Place) (t : Option Ty) (op : BinaryOp) (l r : Expr) (expected found : Ty) :
    Blamed (.expr (.binary p t op l r)) (.operand expected found) l.span
  | rightOperand (p : Place) (t : Option Ty) (op : BinaryOp) (l r : Expr) (expected found : Ty) :
    Blamed (.expr (.binary p t op l r)) (.operand expected found) r.span
  | leftVoid (p : Place) (t : Option Ty) (op : BinaryOp) (l r : Expr) :
    Blamed (.expr (.binary p t op l r)) .voidOperand l.span
  | rightVoid (p : Place) (t : Option Ty) (op : BinaryOp) (l r : Expr) :
    Blamed (.expr (.binary p t op l r)) .voidOperand r.span
  | operand (p : Place) (t : Option Ty) (op : UnaryOp) (e : Expr) (expected found : Ty) :
    Blamed (.expr (.unary p t op e)) (.operand expected found) e.span
  | undefinedFunction (p : Place) (t : Option Ty) (f : String) (args : List Expr) :
    Blamed (.expr (.call p t f args)) (.undefined f) p.span
  | notAFunction (p : Place) (t : Option Ty) (f : String) (args : List Expr) :
    Blamed (.expr (.call p t f args)) (.notAFunction f) p.span
  | argumentCount (p : Place) (t : Option Ty) (f : String) (args : List Expr) :
    Blamed (.expr (.call p t f args)) .argumentCount p.span
  | argument (p : Place) (t : Option Ty) (f : String) {args : List Expr} {i : Nat} {a : Expr}
    (expected found : Ty) : args[i]? = some a →
    Blamed (.expr (.call p t f args)) (.argument i f expected found) a.span

namespace Node

/-- The parts of a node that its rules judge and that do not begin it: all but a left
operand. -/
def late : Node → List Expr
  | stmt (.conditional _ test _ _) => [test]
  | stmt (.loop _ test _) => [test]
  | expr (.location _ _ _ index) => index.toList
  | expr (.binary _ _ _ _ r) => [r]
  | expr (.unary _ _ _ e) => [e]
  | expr (.call _ _ _ args) => args
  | _ => []

/-- A mistake is reported for the node or its beginning, for its left operand, or for a part
that is late. -/
theorem Blamed.cases {n : Node} {mistake : Mistake} {span : Span} (h : n.Blamed mistake span) :
    (span = n.span ∨ span = .point n.span.start) ∨
    (∃ p t op l r, n = .expr (.binary p t op l r) ∧ span = l.span) ∨
    ∃ e ∈ n.late, span = e.span := by
  cases h with
  | noMain p | badMain p => exact .inl (.inr rfl)
  | leftOperand p t op l r | leftVoid p t op l r => exact .inr (.inl ⟨p, t, op, l, r, rfl, rfl⟩)
  | conditional p test | loop p test => exact .inr (.inr ⟨test, List.mem_singleton_self _, rfl⟩)
  | indexType p t x e => exact .inr (.inr ⟨e, List.mem_singleton_self _, rfl⟩)
  | rightOperand p t op l e | rightVoid p t op l e =>
    exact .inr (.inr ⟨e, List.mem_singleton_self _, rfl⟩)
  | operand p t op e => exact .inr (.inr ⟨e, List.mem_singleton_self _, rfl⟩)
  | argument p t f expected found ha => exact .inr (.inr ⟨_, List.mem_of_getElem? ha, rfl⟩)
  | _ => exact .inl (.inl rfl)

/-- The parts that a node judges are its children. -/
theorem late_child {n : Node} {e : Expr} (h : e ∈ n.late) : expr e ∈ n.children := by
  cases n with
  | stmt s =>
    cases s with
    | conditional p test | loop p test =>
      cases List.mem_singleton.mp h
      exact List.mem_cons_self
    | _ => cases h
  | expr x =>
    cases x with
    | literal p t v => cases h
    | location p t x index => exact List.mem_map_of_mem h
    | binary p t op l r =>
      cases List.mem_singleton.mp h
      exact List.mem_cons_of_mem _ List.mem_cons_self
    | unary p t op e => exact List.mem_map_of_mem (f := expr) h
    | call p t f args => exact List.mem_map_of_mem h
  | _ => cases h

end Node

/-- Each of the diagnostics is about a node of the tree, and on its line. -/
def About (n : Node) (ds : List Diagnostic) : Prop :=
  ∀ d ∈ ds, ∃ m mistake, n.Has m ∧ m.Blamed mistake d.span ∧
    d = mistake.onLine m.place.line d.span

namespace About

variable {n c : Node} {ds es : List Diagnostic}

theorem nil : About n [] :=
  fun _ h => absurd h List.not_mem_nil

/-- A complaint about the node itself. -/
theorem single {mistake : Mistake} {span : Span} (h : n.Blamed mistake span) :
    About n [mistake.onLine n.place.line span] :=
  List.forall_mem_singleton.mpr ⟨n, mistake, .self, h, rfl⟩

/-- Findings about one node can be put together. -/
theorem append (hd : About n ds) (he : About n es) : About n (ds ++ es) :=
  List.forall_mem_append.mpr ⟨hd, he⟩

theorem ite {p : Prop} [Decidable p] (hd : About n ds) (he : About n es) :
    About n (if p then ds else es) := by
  split
  · exact hd
  · exact he

/-- It is enough to look at the items that the findings come from, one by one. -/
theorem flatMap {α : Type} {as : List α} {f : α → List Diagnostic} (h : ∀ a ∈ as, About n (f a)) :
    About n (as.flatMap f) :=
  List.forall_mem_flatMap.mpr h

/-- What is about a child is about the node it is in. -/
theorem inside (hc : c ∈ n.children) (h : About c ds) : About n ds := by
  intro d hd
  obtain ⟨m, mistake, hm, hblamed⟩ := h d hd
  exact ⟨m, mistake, hm.of_child hc, hblamed⟩

end About

namespace Reference

variable {frames : Frames} {p : Place} {t : Option Ty}

/-! ## Declarations -/

/-- A name that comes again is complained about at the child that repeats it. -/
theorem repeated_about {α : Type} {n : Node} {seen : List String} {as : List α} {line : Nat}
    {node : α → Node} {binding : α → Binding}
    (hblamed : ∀ a, (node a).Blamed (.duplicate (binding a).name line) (binding a).span)
    (hline : ∀ a, (node a).place.line = (binding a).line) (h : ∀ a ∈ as, node a ∈ n.children) :
    About n ((repeated (·.name) seen (as.map binding)).map fun b =>
      (Mistake.duplicate b.name line).onLine b.line b.span) := by
  intro d hd
  obtain ⟨b, hb, rfl⟩ := List.mem_map.mp hd
  obtain ⟨a, ha, rfl⟩ := List.mem_map.mp (repeated_sublist.subset hb)
  exact ⟨node a, _, Node.Has.self.child (h a ha), hblamed a, by rw [hline a]; rfl⟩

/-- A variable that is declared again is blamed itself, and it is a child of the node that opens
the scope. -/
theorem repeatedVariables_about {n : Node} {seen : List String} {line : Nat} {ds : List VarDecl}
    (h : ∀ d ∈ ds, .varDecl d ∈ n.children) :
    About n ((repeated (·.name) seen (ds.map (·.binding))).map fun b =>
      (Mistake.duplicate b.name line).onLine b.line b.span) :=
  repeated_about (fun d => .repeatedVariable d line) (fun _ => rfl) h

theorem varDecl_about (d : VarDecl) : About (.varDecl d) (varDecl d) :=
  .append (.ite (.single (.voidVariable d)) .nil) (.ite (.single (.emptyArray d)) .nil)

theorem param_about (x : Param) : About (.param x) (param x) :=
  .ite (.single (.voidParameter x)) .nil

theorem varDecls_about {n : Node} {ds : List VarDecl} (h : ∀ d ∈ ds, .varDecl d ∈ n.children) :
    About n (ds.flatMap varDecl) :=
  .flatMap fun d hd => .inside (h d hd) (varDecl_about d)

/-! ## Expressions -/

/-- A location is blamed as a whole for its name, and through its index for the type of that. -/
theorem location_about (x : String) (index : Option Expr) :
    About (.expr (.location p t x index)) (location frames p x index) := by
  unfold location
  cases meaningOf frames x with
  | none => exact .single (.undefinedVariable p t x index)
  | some m =>
    cases m with
    | scalar ty =>
      cases index with
      | none => exact .nil
      | some i => exact .single (.indexedScalar p t x i)
    | array ty =>
      cases index with
      | none => exact .single (.bareArray p t x)
      | some i => exact .ite (.single (.indexType p t x i)) .nil
    | function params result => exact .single (.functionAsVariable p t x index)

/-- An operator is blamed through one of its operands. -/
theorem binary_about (op : BinaryOp) (l r : Expr) :
    About (.expr (.binary p t op l r)) (binary frames p op l r) := by
  unfold binary
  cases operandType op with
  | some expected =>
    exact .append (.ite (.single (.leftOperand p t op l r expected _)) .nil)
      (.ite (.single (.rightOperand p t op l r expected _)) .nil)
  | none =>
    refine .ite (.append (.ite (.single (.leftVoid p t op l r)) .nil)
      (.ite (.single (.rightVoid p t op l r)) .nil)) (.ite .nil ?_)
    exact .ite (.single (.rightOperand p t op l r _ _)) .nil

theorem unary_about (op : UnaryOp) (e : Expr) (expected found : Ty) :
    About (.expr (.unary p t op e)) (operand expected found p.line e.span) :=
  .ite (.single (.operand p t op e expected found)) .nil

/-- The arguments are those of the call from `index` on. -/
theorem arguments_about {f : String} {all : List Expr} (index : Nat) (params : List Ty)
    {args : List Expr} (h : ∀ i a, args[i]? = some a → all[index + i]? = some a) :
    About (.expr (.call p t f all)) (arguments frames p f index params args) := by
  induction args generalizing index params with
  | nil =>
    cases params <;> exact .nil
  | cons a args ih =>
    cases params with
    | nil => exact .nil
    | cons ty params =>
      have hrest : ∀ i b, args[i]? = some b → all[index + 1 + i]? = some b := by
        intro i b hb
        rw [Nat.add_assoc, Nat.add_comm 1 i]
        exact h (i + 1) b hb
      exact .append (.ite (.single (.argument p t f ty _ (h 0 a rfl))) .nil)
        (ih (index + 1) params hrest)

/-- A call is blamed as a whole for its name and the number of its arguments, and through an
argument for a type. -/
theorem call_about (f : String) (args : List Expr) :
    About (.expr (.call p t f args)) (call frames p f args) := by
  unfold call
  cases meaningOf frames f with
  | none => exact .single (.undefinedFunction p t f args)
  | some m =>
    cases m with
    | scalar ty => exact .single (.notAFunction p t f args)
    | array ty => exact .single (.notAFunction p t f args)
    | function params result =>
      refine .ite (arguments_about 0 params fun i a ha => ?_) (.single (.argumentCount p t f args))
      rw [Nat.zero_add]
      exact ha

/-- Findings about the expressions of a list are findings about the node that they are children
of. -/
theorem exprs_about {n : Node} {es : List Expr} (hmem : ∀ e ∈ es, .expr e ∈ n.children)
    (h : ∀ e ∈ es, About (.expr e) (expr frames e)) : About n (exprs frames es) := by
  induction es with
  | nil => exact .nil
  | cons e es ih =>
    refine .append (.inside (hmem e List.mem_cons_self) (h e List.mem_cons_self)) (ih ?_ ?_)
    · exact fun x hx => hmem x (List.mem_cons_of_mem e hx)
    · exact fun x hx => h x (List.mem_cons_of_mem e hx)

/-- Whatever is found in an expression is about the expression or one below it. -/
theorem expr_about (e : Expr) : About (.expr e) (expr frames e) := by
  induction e using Expr.induction with
  | literal p t v => exact .nil
  | scalar p t x => exact location_about x none
  | element p t x i ih =>
    exact .append (.inside List.mem_cons_self ih) (location_about x (some i))
  | binary p t op l r ihl ihr =>
    refine .append (.inside List.mem_cons_self ihl) (.append (.inside ?_ ihr) (binary_about op l r))
    exact List.mem_cons_of_mem _ List.mem_cons_self
  | unary p t op e ih =>
    cases op with
    | neg => exact .append (.inside List.mem_cons_self ih) (unary_about .neg e .int _)
    | not => exact .append (.inside List.mem_cons_self ih) (unary_about .not e .bool _)
  | call p t f args ih =>
    exact .append (exprs_about (fun a ha => List.mem_map_of_mem ha) ih) (call_about f args)

/-! ## Statements -/

/-- An assignment is blamed as a whole; what its two sides are blamed for concerns these. -/
theorem assignment_about (target v : Expr) :
    About (.stmt (.assign p target v)) (assignment frames p target v) :=
  .ite (.single (.assignment p target v)) .nil

theorem stmts_about {n : Node} {result : Ty} {inLoop : Bool} {ss : List Stmt}
    (hmem : ∀ s ∈ ss, .stmt s ∈ n.children)
    (h : ∀ s ∈ ss, About (.stmt s) (stmt frames result inLoop s)) :
    About n (stmts frames result inLoop ss) := by
  induction ss with
  | nil => exact .nil
  | cons s ss ih =>
    refine .append (.inside (hmem s List.mem_cons_self) (h s List.mem_cons_self)) (ih ?_ ?_)
    · exact fun x hx => hmem x (List.mem_cons_of_mem s hx)
    · exact fun x hx => h x (List.mem_cons_of_mem s hx)

/-- Whatever is found in a statement is about the statement or a node below it. -/
theorem block_stmt_about :
    (∀ (b : Block) (frames : Frames) (result : Ty) (inLoop : Bool),
      About (.block b) (block frames result inLoop b)) ∧
    ∀ (s : Stmt) (frames : Frames) (result : Ty) (inLoop : Bool),
      About (.stmt s) (stmt frames result inLoop s) := by
  refine Block.induction ?mk ?assign ?call ?ifThen ?ifElse ?loop ?ret ?brk ?cont ?inner
  case mk =>
    intro locals statements p scope ih frames result inLoop
    have hlocal : ∀ d ∈ locals, .varDecl d ∈ (Node.block ⟨locals, statements, p, scope⟩).children :=
      fun d hd => List.mem_append_left _ (List.mem_map_of_mem hd)
    have hstmts := stmts_about (n := .block ⟨locals, statements, p, scope⟩)
      (fun s hs => List.mem_append_right _ (List.mem_map_of_mem hs))
      fun s hs => ih s hs (locals.map (·.binding) :: frames) result inLoop
    exact .append (repeatedVariables_about hlocal) (.append (varDecls_about hlocal) hstmts)
  case assign =>
    intro p target v frames result inLoop
    refine .append (.inside List.mem_cons_self (expr_about target)) (.append (.inside ?_
      (expr_about v)) (assignment_about target v))
    exact List.mem_cons_of_mem _ List.mem_cons_self
  case call =>
    intro p e frames result inLoop
    exact .inside List.mem_cons_self (expr_about e)
  case ifThen =>
    intro p test b ihb frames result inLoop
    refine .append (.inside List.mem_cons_self (expr_about test)) (.append (.inside ?_
      (ihb frames result inLoop)) (.ite (.single (.conditional p test b none)) .nil))
    exact List.mem_cons_of_mem _ List.mem_cons_self
  case ifElse =>
    intro p test b c ihb ihc frames result inLoop
    refine .append (.inside List.mem_cons_self (expr_about test)) (.append (.inside ?_
      (ihb frames result inLoop)) (.append (.inside ?_ (ihc frames result inLoop))
      (.ite (.single (.conditional p test b (some c))) .nil)))
    · exact List.mem_cons_of_mem _ List.mem_cons_self
    · exact List.mem_cons_of_mem _ (List.mem_cons_of_mem _ List.mem_cons_self)
  case loop =>
    intro p test b ihb frames result inLoop
    refine .append (.inside List.mem_cons_self (expr_about test)) (.append (.inside ?_
      (ihb frames result true)) (.ite (.single (.loop p test b)) .nil))
    exact List.mem_cons_of_mem _ List.mem_cons_self
  case ret =>
    intro p v frames result inLoop
    cases v with
    | none => exact .ite (.single (.returnType p none)) .nil
    | some e =>
      exact .append (.inside List.mem_cons_self (expr_about e))
        (.ite (.single (.returnType p (some e))) .nil)
  case brk =>
    intro p frames result inLoop
    exact .ite .nil (.single (.looseBreak p))
  case cont =>
    intro p frames result inLoop
    exact .ite .nil (.single (.looseContinue p))
  case inner =>
    intro p b ihb frames result inLoop
    exact .inside List.mem_cons_self (ihb frames result inLoop)

/-! ## Programs -/

/-- Whatever is found in a function is about the function, its parameters or its body. -/
theorem function_about (f : Function) : About (.function f) (function frames f) := by
  have hparam : ∀ x ∈ f.params, .param x ∈ (Node.function f).children :=
    fun x hx => List.mem_append_left _ (List.mem_map_of_mem hx)
  have hbody : .block f.body ∈ (Node.function f).children :=
    List.mem_append_right _ List.mem_cons_self
  refine .append (repeated_about (fun x => .repeatedParam x _) (fun _ => rfl) hparam)
    (.append ?_ ?_)
  · exact .flatMap fun x hx => .inside (hparam x hx) (param_about x)
  · exact .inside hbody (block_stmt_about.1 f.body _ _ _)

/-- A missing or wrong `main` is reported where the program begins. -/
theorem entryPoint_about (p : Program) : About (.program p) (entryPoint p) := by
  unfold entryPoint
  cases meaningOf [p.frame] "main" with
  | none => exact .single (.noMain p)
  | some m => exact .ite .nil (.single (.badMain p))

/-- What is wrong with a program is about one of its nodes. -/
theorem findings_about (p : Program) : About (.program p) (findings p) := by
  have hglobal : ∀ x ∈ p.globals, .varDecl x ∈ (Node.program p).children :=
    fun x hx => List.mem_append_left _ (List.mem_map_of_mem hx)
  have hfunction : ∀ f ∈ p.functions, .function f ∈ (Node.program p).children :=
    fun f hf => List.mem_append_right _ (List.mem_map_of_mem hf)
  -- the built-in functions stand nowhere in the text, but they do not repeat one another
  have hbuiltin : repeated (·.name) [] builtinFrame = [] := by decide
  have hduplicates : About (.program p) (duplicates p.place.line p.frame) := by
    unfold duplicates Program.frame
    rw [repeated_append_eq, repeated_append_eq, hbuiltin, List.nil_append, List.map_append]
    exact .append (repeatedVariables_about hglobal)
      (repeated_about (fun f => .repeatedFunction f _) (fun _ => rfl) hfunction)
  refine hduplicates.append (.append (varDecls_about hglobal) (.append ?_ ?_))
  · exact .flatMap fun f hf => .inside (hfunction f hf) (function_about f)
  · exact entryPoint_about p

end Reference

end Decaf
