import Mathlib.Data.List.Nodup
import Decaf.Proofs.Syntax.VisitOrder
import Decaf.Proofs.Syntax.Numbers
import Decaf.Proofs.Check.Positions

/-!
# Lengths of arrays

An array of length zero can be written, and the checker complains about its declaration.
Picked out by their wording, the complaints of this kind about a program are those about the
variables in it, one for each that has length zero, in order (`Reference.findings_lengths`).
Two variables of a program that was read never stand at the same place
(`Node.AllSound.declared_apart`), so no two of these complaints are the same, and every such
declaration is complained about once.
-/

namespace Decaf

/-! ## The variables in a node -/

/-- The variable that a step of a walk leaves, if it leaves one. -/
def Visit.leftVariable? : Visit → Option VarDecl
  | .leave (.varDecl d) => some d
  | _ => none

namespace Node

/-- The variables that are declared in a node, in the order of a walk. -/
def declared (n : Node) : List VarDecl :=
  n.visits.filterMap Visit.leftVariable?

/-- Induction over the children of nodes. -/
theorem childInduction {motive : Node → Prop}
    (step : ∀ n, (∀ c ∈ n.children, motive c) → motive n) (n : Node) : motive n := by
  -- a walk passes over statements that stand for a call or a block, so these come last
  have hwrapped : ∀ c : Node, motive c.unwrapped → motive c := by
    intro c h
    by_cases hc : c.unwrapped = c
    · exact hc ▸ h
    · cases c with
      | stmt s =>
        cases s with
        | call p e => exact step _ (List.forall_mem_singleton.mpr h)
        | block p b => exact step _ (List.forall_mem_singleton.mpr h)
        | _ => exact absurd rfl hc
      | _ => exact absurd rfl hc
  refine hwrapped n (Node.induction (motive := motive) (fun m _ ih => step m fun c hc => ?_) _
    n.unwrapped_unwrapped)
  exact hwrapped c (ih _ (List.mem_map_of_mem hc))

/-- What is declared in a node is declared in its children, unless it is a declaration. -/
theorem declared_eq {n : Node} (h : ∀ d, n ≠ varDecl d) :
    n.declared = n.children.flatMap declared := by
  by_cases hn : n.unwrapped = n
  · have hleave : Visit.leftVariable? (.leave n) = none := by
      cases n with
      | varDecl d => exact absurd rfl (h d)
      | _ => rfl
    rw [declared, visits_eq n hn, List.filterMap_cons_none rfl, List.filterMap_append,
      List.filterMap_cons_none hleave, List.filterMap_nil, List.append_nil, List.filterMap_flatMap]
    rfl
  · cases n with
    | stmt s =>
      cases s with
      | call p e =>
        rw [declared, ← visits_unwrapped]
        exact (List.append_nil _).symm
      | block p b =>
        rw [declared, ← visits_unwrapped]
        exact (List.append_nil _).symm
      | _ => exact absurd rfl hn
    | _ => exact absurd rfl hn

theorem child_expr {e : Expr} {c : Node} (h : c ∈ (expr e).children) : ∃ e', c = expr e' := by
  have hmap : ∀ es : List Expr, c ∈ es.map expr → ∃ e', c = expr e' := by
    intro es h
    obtain ⟨e', -, rfl⟩ := List.mem_map.mp h
    exact ⟨e', rfl⟩
  cases e with
  | literal p t v => cases h
  | location p t x index => exact hmap _ h
  | binary p t op l r => exact hmap [l, r] h
  | unary p t op e => exact hmap [e] h
  | call p t f args => exact hmap _ h

/-- Below an expression there are only expressions. -/
theorem has_expr {e : Expr} {m : Node} (h : (expr e).Has m) : ∃ e', m = expr e' := by
  induction h with
  | self => exact ⟨e, rfl⟩
  | child _ hc ih =>
    obtain ⟨e', rfl⟩ := ih
    exact child_expr hc

/-- The variables in a node are listed by the walk over it. -/
theorem has_iff_mem_declared {d : VarDecl} (n : Node) : n.Has (.varDecl d) ↔ d ∈ n.declared := by
  refine childInduction (motive := fun n => n.Has (.varDecl d) ↔ d ∈ n.declared) (fun n ih => ?_) n
  by_cases hn : ∃ e, n = varDecl e
  · obtain ⟨e, rfl⟩ := hn
    have hmem : d ∈ (varDecl e).declared ↔ d = e := List.mem_singleton
    rw [hmem]
    constructor
    · intro h
      rcases h.cases with heq | ⟨c, hc, -⟩
      · exact varDecl.inj heq
      · cases hc
    · rintro rfl
      exact .self
  · rw [declared_eq fun e he => hn ⟨e, he⟩, List.mem_flatMap]
    constructor
    · intro h
      rcases h.cases with heq | ⟨c, hc, h⟩
      · exact absurd ⟨d, heq.symm⟩ hn
      · exact ⟨c, hc, (ih c hc).mp h⟩
    · rintro ⟨c, hc, h⟩
      exact .of_child hc ((ih c hc).mpr h)

/-- An expression declares nothing. -/
theorem declared_expr (e : Expr) : (expr e).declared = [] := by
  refine List.eq_nil_iff_forall_not_mem.mpr fun d hd => ?_
  obtain ⟨e', he⟩ := has_expr ((has_iff_mem_declared _).mpr hd)
  cases he

variable {source : String} {n : Node}

/-- A node stands within every node that it is in. -/
theorem AllSound.within {m : Node} (h : n.AllSound source) (hm : n.Has m) :
    n.span.start ≤ m.span.start ∧ m.span.stop ≤ n.span.stop := by
  induction hm with
  | self => exact ⟨Nat.le_refl _, Nat.le_refl _⟩
  | child hhas hc ih =>
    have := (h _ hhas).inside _ hc
    omega

/-- Variables of a sound tree stand at places of their own. -/
theorem AllSound.declared_apart (n : Node) (h : n.AllSound source) :
    n.declared.Pairwise fun a b => a.place.span ≠ b.place.span := by
  refine childInduction (motive := fun n => n.AllSound source →
    n.declared.Pairwise fun a b => a.place.span ≠ b.place.span) (fun n ih h => ?_) n h
  by_cases hn : ∃ e, n = varDecl e
  · obtain ⟨e, rfl⟩ := hn
    exact List.pairwise_singleton _ e
  rw [declared_eq fun e he => hn ⟨e, he⟩, List.pairwise_flatMap]
  have hchild : ∀ c ∈ n.children, c.AllSound source := fun c hc m hm => h m (.of_child hc hm)
  refine ⟨fun c hc => ih c hc (hchild c hc), (h n .self).disjoint.imp_of_mem ?_⟩
  -- they are not empty, and inside children that do not overlap
  intro a b ha hb hab x hx y hy heq
  have hx := (has_iff_mem_declared a).mpr hx
  have hy := (has_iff_mem_declared b).mpr hy
  have hlt : x.place.span.start < x.place.span.stop := (h.proper ha hx).lt
  have hxa : _ ≤ x.place.span.start ∧ x.place.span.stop ≤ _ := (hchild a ha).within hx
  have hyb : _ ≤ y.place.span.start ∧ y.place.span.stop ≤ _ := (hchild b hb).within hy
  rw [← heq] at hyb
  omega

end Node

/-! ## The wording of complaints about lengths -/

/-- Whether a mistake is an array without elements. -/
def Mistake.isEmptyArray : Mistake → Bool
  | .emptyArray _ => true
  | _ => false

/-- Whether a report is about the length of an array, by its wording. -/
def Diagnostic.isLength (d : Diagnostic) : Bool :=
  " must have positive non-zero length".toList.isSuffixOf d.message.toList

theorem getLast?_toList_append {text more : String} {c : Char}
    (h : more.toList.getLast? = some c) : (text ++ more).toList.getLast? = some c := by
  rw [String.toList_append, List.getLast?_append, h, Option.some_or]

/-- A number ends with a digit, so a message that ends with one has another ending than that about
lengths. -/
theorem getLast?_toString_ne (n : Nat) : (toString n).toList.getLast? ≠ some 'h' := by
  intro h
  have hmem := List.mem_of_getLast? h
  rw [toList_toString] at hmem
  have hdigit : 'h'.isDigit := Nat.isDigit_of_mem_toDigits (by omega) (by omega) hmem
  exact absurd hdigit (by decide)

/-- The wording of all other mistakes ends in a number, or in another letter. -/
theorem Mistake.message_getLast?_ne {m : Mistake} (hm : m.isEmptyArray = false) (line : Nat) :
    (m.message line).toList.getLast? ≠ some 'h' := by
  have hnumber : ∀ (text : String) (n : Nat), (text ++ toString n).toList.getLast? ≠ some 'h' := by
    intro text n
    obtain ⟨c, hc⟩ : ∃ c, (toString n).toList.getLast? = some c := by
      rw [toList_toString]
      exact ⟨_, List.getLast?_eq_some_getLast Nat.toDigits_ne_nil⟩
    rw [getLast?_toList_append hc, ← hc]
    exact getLast?_toString_ne n
  cases m <;> dsimp only [Mistake.message]
  case emptyArray => cases hm
  case returnType =>
    rw [getLast?_toList_append (c := 'e') (by decide +kernel)]
    decide
  case outsideLoop =>
    rw [getLast?_toList_append (c := 'p') (by decide +kernel)]
    decide
  all_goals exact hnumber _ _

/-- No other mistake is worded like one about a length. -/
theorem Mistake.onLine_isLength_eq_false {m : Mistake} (hm : m.isEmptyArray = false) (line : Nat)
    (span : Span) : (m.onLine line span).isLength = false := by
  rw [Bool.eq_false_iff]
  intro h
  obtain ⟨more, hmore⟩ := List.isSuffixOf_iff_suffix.mp h
  refine Mistake.message_getLast?_ne hm line ?_
  rw [show (m.message line).toList = _ from hmore.symm, List.getLast?_append,
    show " must have positive non-zero length".toList.getLast? = some 'h' by decide +kernel,
    Option.some_or]

/-- A mistake about a length is recognized by its wording. -/
theorem Mistake.emptyArray_isLength (name : String) (line : Nat) (span : Span) :
    ((Mistake.emptyArray name).onLine line span).isLength = true := by
  refine List.isSuffixOf_iff_suffix.mpr ?_
  show _ <:+ ("Array '" ++ name ++ "' on line " ++ toString line ++
    " must have positive non-zero length").toList
  rw [String.toList_append]
  exact List.suffix_append _ _

/-! ## Complaints about lengths -/

/-- None of the reports is about the length of an array. -/
def Quiet (ds : List Diagnostic) : Prop :=
  ∀ d ∈ ds, d.isLength = false

namespace Quiet

theorem nil : Quiet [] :=
  fun _ h => absurd h List.not_mem_nil

/-- A mistake of another kind is of no account. -/
theorem single {m : Mistake} (hm : m.isEmptyArray = false) (line : Nat) (span : Span) :
    Quiet [m.onLine line span] :=
  List.forall_mem_singleton.mpr (Mistake.onLine_isLength_eq_false hm line span)

theorem ite {c : Prop} [Decidable c] {ds es : List Diagnostic} (hd : Quiet ds) (he : Quiet es) :
    Quiet (if c then ds else es) := by
  split
  · exact hd
  · exact he

theorem filter_eq_nil {ds : List Diagnostic} (h : Quiet ds) : ds.filter (·.isLength) = [] :=
  List.filter_eq_nil_iff.mpr fun d hd => by rw [h d hd]; exact Bool.false_ne_true

end Quiet

/-- The complaint about the length of a variable, if it is an array without elements. -/
def VarDecl.lengthMistake? (d : VarDecl) : Option Diagnostic :=
  if d.length = some 0 then some ((Mistake.emptyArray d.name).atNode d.place) else none

/-- Of the reports, those about lengths are the ones that the variables in some nodes give
rise to. -/
def ReportsLengths (ns : List Node) (ds : List Diagnostic) : Prop :=
  ds.filter (·.isLength) = (ns.flatMap Node.declared).filterMap VarDecl.lengthMistake?

namespace ReportsLengths

variable {ns ms : List Node} {ds es : List Diagnostic}

/-- Parts that report their lengths do so together, in order. -/
theorem append (h : ReportsLengths ns ds) (h' : ReportsLengths ms es) :
    ReportsLengths (ns ++ ms) (ds ++ es) := by
  rw [ReportsLengths, List.filter_append, h, h', List.flatMap_append, List.filterMap_append]

theorem quiet (h : Quiet ds) : ReportsLengths [] ds :=
  h.filter_eq_nil

/-- What is reported in front and is of another kind does not count. -/
theorem before (hd : Quiet ds) (h : ReportsLengths ns es) : ReportsLengths ns (ds ++ es) :=
  (quiet hd).append h

/-- What is reported behind and is of another kind does not count. -/
theorem behind (h : ReportsLengths ns ds) (he : Quiet es) : ReportsLengths ns (ds ++ es) :=
  List.append_nil ns ▸ h.append (quiet he)

/-- What the children of a node give rise to is what the node gives rise to. -/
theorem node {n : Node} (hn : ∀ d, n ≠ .varDecl d) (h : ReportsLengths n.children ds) :
    ReportsLengths [n] ds := by
  rw [ReportsLengths, List.flatMap_singleton, n.declared_eq hn]
  exact h

/-- Nodes that each report their lengths do so one after the other. -/
theorem flatMap {α : Type} {node : α → Node} {f : α → List Diagnostic} {as : List α}
    (h : ∀ a ∈ as, ReportsLengths [node a] (f a)) :
    ReportsLengths (as.map node) (as.flatMap f) := by
  induction as with
  | nil => rfl
  | cons a as ih =>
    rw [List.flatMap_cons]
    exact (h a List.mem_cons_self).append (ih fun b hb => h b (List.mem_cons_of_mem a hb))

end ReportsLengths

namespace Reference

variable {frames : Frames}

/-- A repeated name is never a matter of lengths. -/
theorem duplicates_quiet {line : Nat} {frame : Frame} : Quiet (duplicates line frame) := by
  intro d hd
  obtain ⟨b, -, rfl⟩ := List.mem_map.mp hd
  exact Mistake.onLine_isLength_eq_false rfl _ _

/-- The nodes of an expression are expressions, and no rule for these is about lengths. -/
theorem expr_quiet (e : Expr) : Quiet (expr frames e) := by
  intro d hd
  obtain ⟨m, mistake, hm, hblamed, hd⟩ := expr_about e d hd
  obtain ⟨e', rfl⟩ := Node.has_expr hm
  rw [hd]
  refine Mistake.onLine_isLength_eq_false ?_ _ _
  generalize d.span = span at hblamed
  cases hblamed <;> rfl

/-- An expression declares nothing, and nothing in it is worded like a mistake about a length. -/
theorem expr_lengths (e : Expr) : ReportsLengths [.expr e] (expr frames e) := by
  rw [ReportsLengths, List.flatMap_singleton, Node.declared_expr]
  exact (expr_quiet e).filter_eq_nil

theorem condition_quiet {place : Place} {test : Expr} : Quiet (condition frames place test) :=
  .ite (.single rfl _ _) .nil

theorem returned_quiet {result found : Ty} {place : Place} : Quiet (returned result found place) :=
  .ite (.single rfl _ _) .nil

/-- A variable reports its own length, if that is zero, and nothing else of this kind. -/
theorem varDecl_lengths (d : VarDecl) : ReportsLengths [.varDecl d] (varDecl d) := by
  have hvoid : Quiet
      (if d.type = .void then [(Mistake.voidVariable d.name).atNode d.place] else []) :=
    .ite (.single rfl _ _) .nil
  refine .before hvoid ?_
  show _ = List.filterMap VarDecl.lengthMistake? [d]
  by_cases hd : d.length = some 0
  · have hmistake : d.lengthMistake? = some ((Mistake.emptyArray d.name).atNode d.place) :=
      if_pos hd
    rw [if_pos hd, List.filterMap_cons_some hmistake, List.filterMap_nil]
    exact List.filter_eq_self.mpr (List.forall_mem_singleton.mpr (Mistake.emptyArray_isLength ..))
  · have hnone : d.lengthMistake? = none := if_neg hd
    rw [if_neg hd, List.filterMap_cons_none hnone]
    rfl

theorem stmts_lengths_of {ss : List Stmt}
    (h : ∀ s ∈ ss, ∀ (frames : Frames) (result : Ty) (inLoop : Bool),
      ReportsLengths [.stmt s] (stmt frames result inLoop s))
    (frames : Frames) (result : Ty) (inLoop : Bool) :
    ReportsLengths (ss.map .stmt) (stmts frames result inLoop ss) := by
  induction ss with
  | nil => rfl
  | cons s ss ih =>
    rw [stmts]
    exact (h s List.mem_cons_self frames result inLoop).append
      (ih fun x hx => h x (List.mem_cons_of_mem s hx))

/-- Of what is wrong in a block or a statement, the complaints about lengths are those about
the variables in it. -/
theorem block_stmt_lengths :
    (∀ (b : Block) (frames : Frames) (result : Ty) (inLoop : Bool),
      ReportsLengths [.block b] (block frames result inLoop b)) ∧
    ∀ (s : Stmt) (frames : Frames) (result : Ty) (inLoop : Bool),
      ReportsLengths [.stmt s] (stmt frames result inLoop s) := by
  refine Block.induction ?mk ?assign ?call ?ifThen ?ifElse ?loop ?ret ?brk ?cont ?inner
  case mk =>
    intro locals statements place scope ih frames result inLoop
    rw [block]
    refine .node (fun d h => by cases h) (.before duplicates_quiet ?_)
    exact (ReportsLengths.flatMap fun d _ => varDecl_lengths d).append
      (stmts_lengths_of ih _ result inLoop)
  case assign =>
    intro place target value frames result inLoop
    rw [stmt]
    refine .node (fun d h => by cases h) ((expr_lengths target).append ?_)
    exact (expr_lengths value).behind (.ite (.single rfl _ _) .nil)
  case call =>
    intro place e frames result inLoop
    rw [stmt]
    exact .node (fun d h => by cases h) (expr_lengths e)
  case ifThen =>
    intro place test b ihb frames result inLoop
    rw [stmt]
    refine .node (fun d h => by cases h) ((expr_lengths test).append ?_)
    exact (ihb frames result inLoop).behind condition_quiet
  case ifElse =>
    intro place test b c ihb ihc frames result inLoop
    rw [stmt]
    refine .node (fun d h => by cases h) ((expr_lengths test).append ?_)
    exact (ihb frames result inLoop).append ((ihc frames result inLoop).behind condition_quiet)
  case loop =>
    intro place test b ihb frames result inLoop
    rw [stmt]
    refine .node (fun d h => by cases h) ((expr_lengths test).append ?_)
    exact (ihb frames result true).behind condition_quiet
  case ret =>
    intro place value frames result inLoop
    cases value with
    | none =>
      rw [stmt]
      exact .node (fun d h => by cases h) (.quiet returned_quiet)
    | some e =>
      rw [stmt]
      exact .node (fun d h => by cases h) ((expr_lengths e).behind returned_quiet)
  case brk =>
    intro place frames result inLoop
    rw [stmt]
    exact .node (fun d h => by cases h) (.quiet (.ite .nil (.single rfl _ _)))
  case cont =>
    intro place frames result inLoop
    rw [stmt]
    exact .node (fun d h => by cases h) (.quiet (.ite .nil (.single rfl _ _)))
  case inner =>
    intro place b ihb frames result inLoop
    rw [stmt]
    exact .node (fun d h => by cases h) (ihb frames result inLoop)

/-- In a function the lengths are those of the variables in its body. -/
theorem function_lengths (frames : Frames) (f : Function) :
    ReportsLengths [.function f] (function frames f) := by
  have hparams : ReportsLengths (f.params.map .param) (f.params.flatMap param) :=
    .flatMap fun x _ => .node (fun d h => by cases h) (.quiet (.ite (.single rfl _ _) .nil))
  refine .node (fun d h => by cases h) (.before duplicates_quiet ?_)
  exact hparams.append (block_stmt_lengths.1 f.body _ _ _)

/-- Of what is wrong in a program, the complaints about lengths are those about the variables
in it. -/
theorem findings_lengths (p : Program) : ReportsLengths [.program p] (findings p) := by
  have hentry : Quiet (entryPoint p) := by
    unfold entryPoint
    split
    · exact .single rfl _ _
    · exact .ite .nil (.single rfl _ _)
  refine .node (fun d h => by cases h) (.before duplicates_quiet ?_)
  exact (ReportsLengths.flatMap fun d _ => varDecl_lengths d).append
    ((ReportsLengths.flatMap fun f _ => function_lengths [p.frame] f).behind hentry)

end Reference

/-! ## Every number by itself -/

/-- The complaint about a variable is there exactly if its length is zero, and it names the
variable where it stands. -/
theorem VarDecl.lengthMistake?_eq_some_iff {d : VarDecl} {x : Diagnostic} :
    d.lengthMistake? = some x ↔
      d.length = some 0 ∧ (Mistake.emptyArray d.name).atNode d.place = x := by
  unfold lengthMistake?
  split
  · next h => exact Option.some_inj.trans (and_iff_right h).symm
  · next h => exact ⟨fun hx => (by cases hx), fun hx => absurd hx.1 h⟩

/-- A variable of a program that was read is complained about once if it has length zero, and
else not at all. -/
theorem checkProgram_count_emptyArray {source : String} {p : Program} (h : parse source = .ok p)
    {d : VarDecl} (hd : (Node.program p).Has (.varDecl d)) :
    (checkProgram p).errors.toList.count ((Mistake.emptyArray d.name).atNode d.place) =
      if d.length = some 0 then 1 else 0 := by
  have hfindings := (checkProgram_untyped p).2
  rw [parse_untyped h] at hfindings
  have hlengths := Reference.findings_lengths p
  rw [ReportsLengths, List.flatMap_singleton] at hlengths
  have hdeclared := (Node.has_iff_mem_declared _).mp hd
  have hapart := Node.AllSound.declared_apart _ (parse_allSound h)
  have hnodup : ((Node.program p).declared.filterMap VarDecl.lengthMistake?).Nodup := by
    refine hapart.filterMap _ fun a b hab x hx y hy hxy => hab ?_
    obtain ⟨-, rfl⟩ := VarDecl.lengthMistake?_eq_some_iff.mp hx
    obtain ⟨-, rfl⟩ := VarDecl.lengthMistake?_eq_some_iff.mp hy
    exact congrArg Diagnostic.span hxy
  rw [hfindings, ← List.count_filter (p := (·.isLength)) (Mistake.emptyArray_isLength ..), hlengths,
    hnodup.count]
  refine if_congr ?_ rfl rfl
  rw [List.mem_filterMap]
  constructor
  · rintro ⟨a, ha, hx⟩
    obtain ⟨hlength, hx⟩ := VarDecl.lengthMistake?_eq_some_iff.mp hx
    -- the complaint gives the place away, and there is one variable at this place
    have hplaces : ((Node.program p).declared.map (·.place.span)).Nodup :=
      List.pairwise_map.mpr hapart
    have hsame : a = d :=
      List.inj_on_of_nodup_map hplaces ha hdeclared (congrArg Diagnostic.span hx)
    exact hsame ▸ hlength
  · exact fun hlength => ⟨d, hdeclared, VarDecl.lengthMistake?_eq_some_iff.mpr ⟨hlength, rfl⟩⟩

/-- Number literals denote their exact values. They are accumulated without going past the
limit that the value is held against. A literal that stands in a text is read to its last digit. As
an expression it is the value of its digits, or an error about the literal if that is larger than
an integer can be. As the length of an array it is the value of its digits, zero included, or an
error about the literal if that is larger than a length can be, unless the text behind it is
unreadable. And a variable of a program that was read is complained about exactly once if its
length is zero. -/
theorem numbers_exact :
    ((∀ text, intOfDecimal? text = accumulate? 9223372036854775807 10 text.toList) ∧
      (∀ text, intOfHex? text = accumulate? 9223372036854775807 16 (text.toList.drop 2)) ∧
      ∀ text, lengthOfDecimal? text = accumulate? 18446744073709551615 10 text.toList) ∧
    (∀ (text : String) (base : Nat) (digits : List Char), Numeral text base digits →
      (∀ (lexer : Lexer) (rest : List Char), lexer.peeked = none →
        lexer.rest = text.toList ++ rest → Longest text rest →
        lexer.next =
          (.ok ⟨numeralKind base text, ⟨lexer.offset, lexer.offset + text.utf8ByteSize⟩⟩,
            lexer.skip rest text.utf8ByteSize)) ∧
      ∀ (r : Reading) (t : Token) (tokens : List Token), t.kind = numeralKind base text →
        (positional base digits ≤ 9223372036854775807 → Parser.NoOperator tokens →
          Parser.expr r (t :: tokens) = do
            r.reach tokens
            return ⟨.literal (r.place t.span) none (.int (positional base digits)), tokens,
              Parsed.tail_lt t tokens⟩) ∧
        (9223372036854775807 < positional base digits →
          ∃ e, Parser.expr r (t :: tokens) = .error e ∧
            e.fault = .parser ("integer literal '" ++ text ++ "' out of range") t.span)) ∧
    (∀ (text : String) (digits : List Char), Numeral text 10 digits →
      ∀ (r : Reading) (name : String) (ty : Ty) (start : Span) (bracket t : Token),
        bracket.kind = .sign .openBracket → t.kind = .decLiteral text →
        (positional 10 digits ≤ 18446744073709551615 →
          ∀ (close last : Token) (rest : List Token), close.kind = .sign .closeBracket →
            last.kind = .sign .semicolon → r.reach rest = .ok () →
            Gives (Parser.varRest r name ty start (bracket :: t :: close :: last :: rest))
              ⟨name, ty, some (positional 10 digits), r.place (start.merge last.span)⟩ rest) ∧
        (18446744073709551615 < positional 10 digits →
          ∀ tokens, r.reach tokens = .ok () →
            ∃ e, Parser.varRest r name ty start (bracket :: t :: tokens) = .error e ∧
              e.fault = .parser ("invalid array length '" ++ text ++ "'") t.span)) ∧
    ∀ (source : String) (p : Program), parse source = .ok p →
      ∀ d, (Node.program p).Has (.varDecl d) →
        (checkProgram p).errors.toList.count ((Mistake.emptyArray d.name).atNode d.place) =
          if d.length = some 0 then 1 else 0 := by
  refine ⟨⟨intOfDecimal?_eq, intOfHex?_eq, lengthOfDecimal?_eq⟩, ?expression, ?length,
    fun source p h d hd => checkProgram_count_emptyArray h hd⟩
  case expression =>
    intro text base digits hnumeral
    refine ⟨fun lexer rest hpeeked hrest hlongest => ?_, fun r t tokens ht => ⟨fun hle hnext => ?_,
      fun hlt => ⟨.integerTooLarge text t.span, ?_, rfl⟩⟩⟩
    · have hnext := Lexer.next_fronts hpeeked (hrest ▸ fronts_numeral hnumeral hlongest)
      rw [hnumeral.spelling, byteLength_toList] at hnext
      exact hnext
    · refine Parser.expr_literal r ?_ hnext
      exact (Parser.literal?_numeral hnumeral ht).trans (congrArg some (if_pos hle))
    · refine Parser.expr_literal_error r ?_
      exact (Parser.literal?_numeral hnumeral ht).trans
        (congrArg some (if_neg (Nat.not_le_of_lt hlt)))
  case length =>
    intro text digits hnumeral r name ty start bracket t hb ht
    refine ⟨fun hle close last rest hclose hlast hreach =>
      Parser.varRest_numeral hnumeral ht hle hb hclose hlast hreach,
      fun hlt tokens hreach => ⟨.lengthTooLarge text t.span, ?_, rfl⟩⟩
    rw [Parser.varRest_numeral_error hnumeral ht hlt hb, hreach]
    rfl

/-- The first integer that is too large, in a text that goes on; the largest one, behind zeros;
the largest length and the first that is too large; and an array with two zeros for its length. -/
theorem numbers_exact_atLimits :
    (Lexer.ofSource "0X8000000000000000;").next.1 =
      .ok ⟨.hexLiteral "0X8000000000000000", ⟨0, 18⟩⟩ ∧
    (∀ r, ∃ e, Parser.expr r [⟨.hexLiteral "0X8000000000000000", ⟨0, 18⟩⟩] = .error e ∧
      e.fault = .parser "integer literal '0X8000000000000000' out of range" ⟨0, 18⟩) ∧
    (∀ lines ending, Parser.expr ⟨lines, ending, none⟩
        [⟨.decLiteral "009223372036854775807", ⟨0, 21⟩⟩] =
      .ok ⟨.literal ⟨⟨0, 21⟩, lines.lineOf 0⟩ none (.int 9223372036854775807), [], Nat.one_pos⟩) ∧
    (∀ lines ending, Gives (Parser.varRest ⟨lines, ending, none⟩ "a" .int ⟨0, 3⟩
        [⟨.sign .openBracket, ⟨5, 6⟩⟩, ⟨.decLiteral "18446744073709551615", ⟨6, 26⟩⟩,
          ⟨.sign .closeBracket, ⟨26, 27⟩⟩, ⟨.sign .semicolon, ⟨27, 28⟩⟩])
      ⟨"a", .int, some 18446744073709551615, ⟨⟨0, 28⟩, lines.lineOf 0⟩⟩ []) ∧
    (∀ lines ending, ∃ e, Parser.varRest ⟨lines, ending, none⟩ "a" .int ⟨0, 3⟩
        [⟨.sign .openBracket, ⟨5, 6⟩⟩, ⟨.decLiteral "18446744073709551616", ⟨6, 26⟩⟩] = .error e ∧
      e.fault = .parser "invalid array length '18446744073709551616'" ⟨6, 26⟩) ∧
    ∃ p, parse "int a[00];" = .ok p ∧
      (checkProgram p).errors.toList.count
        ⟨"Array 'a' on line 1 must have positive non-zero length", 1, ⟨0, 10⟩⟩ = 1 := by
  have hdecimal : ∀ text : String, text.toList ≠ [] → text.toList.all Char.isDigit = true →
      Numeral text 10 text.toList :=
    fun text hne hall => .decimal hne (List.all_eq_true.mp hall)
  have hhex : Numeral "0X8000000000000000" 16 "8000000000000000".toList :=
    .hex (by decide) (.inr rfl) (by decide) (List.all_eq_true.mp (by decide))
  have hlongest : Longest "0X8000000000000000" [';'] := by
    intro more hne hmore base digits h
    have hmore : more = [';'] := by
      rcases List.prefix_cons_iff.mp hmore with hnil | ⟨more', rfl, hmore'⟩
      · exact absurd hnil hne
      · rw [List.prefix_nil.mp hmore']
    subst hmore
    cases h with
    | decimal _ hdigits => exact absurd (hdigits ';' (by decide)) (by decide)
    | hex ht _ _ hdigits =>
      have hdrop :
          List.drop 2 (String.ofList ("0X8000000000000000".toList ++ [';'])).toList = digits :=
        congrArg (List.drop 2) ht
      rw [← hdrop] at hdigits
      exact absurd (hdigits ';' (by decide)) (by decide)
  obtain ⟨-, hexpr, hlength, hzero⟩ := numbers_exact
  refine ⟨?_, fun r => ?_, fun lines ending => ?_, fun lines ending => ?_, fun lines ending => ?_,
    ?_⟩
  · exact congrArg Prod.fst ((hexpr _ _ _ hhex).1 (.ofSource "0X8000000000000000;") [';'] rfl
      (by decide) hlongest)
  · exact ((hexpr _ _ _ hhex).2 r _ [] rfl).2 (by decide +kernel)
  · exact ((hexpr _ _ _ (hdecimal "009223372036854775807" (by decide) (by decide))).2
      ⟨lines, ending, none⟩ ⟨.decLiteral "009223372036854775807", ⟨0, 21⟩⟩ [] rfl).1
      (by decide +kernel) (fun t ht => by cases ht)
  · exact (hlength _ _ (hdecimal "18446744073709551615" (by decide) (by decide))
      ⟨lines, ending, none⟩ _ _ _ _ _ rfl rfl).1 (by decide +kernel) _ _ _ rfl rfl rfl
  · exact (hlength _ _ (hdecimal "18446744073709551616" (by decide) (by decide))
      ⟨lines, ending, none⟩ _ _ _ _ _ rfl rfl).2 (by decide +kernel) [] rfl
  · have hglobals : (parse "int a[00];").toOption.map Program.globals =
        some [⟨"a", .int, some 0, ⟨⟨0, 10⟩, 1⟩⟩] := by decide +kernel
    cases hp : parse "int a[00];" with
    | error e =>
      rw [hp] at hglobals
      cases hglobals
    | ok p =>
      rw [hp] at hglobals
      refine ⟨p, rfl, hzero _ p hp ⟨"a", .int, some 0, ⟨⟨0, 10⟩, 1⟩⟩ (Node.Has.self.child ?_)⟩
      rw [Node.children, Option.some.inj hglobals]
      exact List.mem_cons_self

end Decaf
