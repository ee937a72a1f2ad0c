import Decaf.Proofs.Check.Repeated

/-!
# What a single type can change

Every rule stays silent about an operand of which nothing is known, and about one that is
known it makes at most one complaint that depends on its type. Here this is said of whole
programs: take one occurrence of an expression, write `unknown` into it in one copy of the
program and some other type in another, and analyze both. What is found in the first copy
is found in the second, in that order, with at most one thing more; and no other expression
gets another type (`analyze_preset`).

The type of an expression is read by the rule of the construct it is an operand of, and by
no other: `Tolerant` is what that rule has to satisfy. Further out the two copies look the
same to every rule, since a construct has its type from its operator or its name and not
from its operands.
-/

namespace Decaf

/-! ## One complaint more -/

/-- `more` is `ds` with at most one complaint added somewhere. -/
structure Gains (ds more : List Diagnostic) : Prop where
  sublist : ds.Sublist more
  length_le : more.length ≤ ds.length + 1

namespace Gains

variable {ds more : List Diagnostic}

theorem refl (ds : List Diagnostic) : Gains ds ds :=
  ⟨.refl ds, Nat.le_succ _⟩

theorem of_eq (h : ds = more) : Gains ds more :=
  h ▸ refl ds

/-- Where nothing was found there may be one complaint now. -/
theorem of_length_le_one (h : more.length ≤ 1) : Gains [] more :=
  ⟨List.nil_sublist more, h⟩

/-- What comes before does not matter, nor what comes behind. -/
theorem append_left (h : Gains ds more) (cs : List Diagnostic) : Gains (cs ++ ds) (cs ++ more) := by
  refine ⟨h.sublist.append_left cs, ?_⟩
  have := h.length_le
  rw [List.length_append, List.length_append]
  omega

theorem append_right (h : Gains ds more) (cs : List Diagnostic) :
    Gains (ds ++ cs) (more ++ cs) := by
  refine ⟨h.sublist.append_right cs, ?_⟩
  have := h.length_le
  rw [List.length_append, List.length_append]
  omega

end Gains

theorem length_ite_single_le (c : Prop) [Decidable c] (d : Diagnostic) :
    (if c then [d] else []).length ≤ 1 := by
  by_cases h : c
  · rw [if_pos h]
    exact Nat.le_refl 1
  · rw [if_neg h]
    exact Nat.zero_le 1

/-! ## Rules as functions of one operand -/

/-- Expressions that look the same to a rule but for their types. -/
structure Expr.Alike (x y : Expr) : Prop where
  span : x.span = y.span
  name : x.locationName? = y.locationName?

/-- A rule, as a function of one operand, that asks for nothing but its type, and that makes
at most one complaint more about it than if nothing were known of it. -/
structure Tolerant (rule : Expr → List Diagnostic) : Prop where
  same : ∀ {x y : Expr}, x.Alike y → x.type = y.type → rule x = rule y
  gains : ∀ {x y : Expr}, x.Alike y → x.type = .unknown → Gains (rule x) (rule y)

/-- A rule that does not look at the operand tolerates any. -/
theorem Tolerant.constant (ds : List Diagnostic) : Tolerant fun _ => ds where
  same _ _ := rfl
  gains _ _ := .refl ds

/-- Nor does it matter what else a rule complains about first. -/
theorem Tolerant.after {rule : Expr → List Diagnostic} (h : Tolerant rule)
    (ds : List Diagnostic) : Tolerant fun x => ds ++ rule x where
  same hxy hty := congrArg (ds ++ ·) (h.same hxy hty)
  gains hxy hty := (h.gains hxy hty).append_left ds

namespace Rules

/-- An operand of which nothing is known is never wrong. -/
theorem expectType_unknown (expected : Ty) (line : Nat) (span : Span) :
    expectType expected .unknown line span = [] := rfl

/-- An operand is complained about at most once. -/
theorem length_expectType_le (expected found : Ty) (line : Nat) (span : Span) :
    (expectType expected found line span).length ≤ 1 :=
  length_ite_single_le _ _

/-- The condition of a loop or a conditional is read once, by its own rule. -/
theorem condition_tolerant (place : Place) : Tolerant (condition place) where
  same hxy hty := by rw [condition, condition, hxy.span, hty]
  gains {x y} _ hty := by
    have hx : condition place x = [] := by rw [condition, hty]; rfl
    rw [hx]
    exact .of_length_le_one (length_ite_single_le _ _)

/-- The value of a `return` is compared with the result of the function, if there is one around. -/
theorem returned_tolerant (expected : Option Ty) (place : Place) :
    Tolerant fun x => returned expected place (some x) where
  same {x y} _ hty := by
    cases expected with
    | none => rfl
    | some expected => simp only [returned, hty]
  gains {x y} _ hty := by
    cases expected with
    | none => exact .refl _
    | some expected =>
      have hx : returned (some expected) place (some x) = [] := by simp only [returned, hty]; rfl
      rw [hx]
      exact .of_length_le_one (length_ite_single_le _ _)

/-- The type of the target is what the value is compared with. If it is unknown, nothing is. -/
theorem assignment_target_tolerant (place : Place) (value : Expr) :
    Tolerant fun x => assignment place x value where
  same hxy hty := by rw [assignment, assignment, hxy.name, hty]
  gains {x y} _ hty := by
    have hx : assignment place x value = [] := by rw [assignment, hty]; rfl
    rw [hx]
    exact .of_length_le_one (length_ite_single_le _ _)

theorem assignment_value_tolerant (place : Place) (target : Expr) :
    Tolerant (assignment place target) where
  same hxy hty := by rw [assignment, assignment, hty]
  gains {x y} _ hty := by
    have hx : assignment place target x = [] := by
      rw [assignment, hty]
      cases target.type <;> rfl
    rw [hx]
    exact .of_length_le_one (length_ite_single_le _ _)

/-- An index has to be an integer, whatever the symbol is. -/
theorem location_tolerant (symbol : Option Symbol) (place : Place) (name : String) :
    Tolerant fun x => location symbol place name (some x) where
  same {x y} hxy hty := by
    cases symbol with
    | none => rfl
    | some s =>
      simp only [location]
      cases s.kind <;> simp only [hxy.span, hty]
  gains {x y} _ hty := by
    cases symbol with
    | none => exact .refl _
    | some s =>
      simp only [location]
      cases s.kind with
      | array n =>
        simp only [hty]
        exact .of_length_le_one (length_ite_single_le _ _)
      | _ => exact .refl _

theorem unary_tolerant (place : Place) (op : UnaryOp) : Tolerant (unary place op) where
  same hxy hty := by rw [unary, unary, hxy.span, hty]
  gains {x y} _ hty := by
    rw [unary, hty, expectType_unknown]
    exact .of_length_le_one (length_expectType_le _ _ _ _)

/-- The complaint about a void operand of an equality. -/
def voidOperand (place : Place) (e : Expr) : List Diagnostic :=
  if e.type.isVoid then [Mistake.voidOperand.onLine place.line e.span] else []

theorem length_voidOperand_le (place : Place) (e : Expr) : (voidOperand place e).length ≤ 1 :=
  length_ite_single_le _ _

/-- Only `void` is complained about on either side of an equality. -/
theorem voidOperand_eq_nil {place : Place} {e : Expr} (h : e.type.isVoid = false) :
    voidOperand place e = [] := by
  rw [voidOperand, h]
  rfl

/-- An operator with one type of operand asks both sides for it, one after the other. -/
theorem binary_of_operandType {op : BinaryOp} {expected : Ty}
    (h : op.operandType? = some expected) (place : Place) (left right : Expr) :
    binary place op left right = expectType expected left.type place.line left.span ++
      expectType expected right.type place.line right.span := by
  simp only [binary, h]

/-- An equality compares its right side with its left one, unless one of them is `void` or the
left one unknown. -/
theorem binary_of_equality {op : BinaryOp} (h : op.operandType? = none) (place : Place)
    (left right : Expr) :
    binary place op left right =
      if left.type.isVoid || right.type.isVoid then
        voidOperand place left ++ voidOperand place right
      else if left.type.isKnown then expectType left.type right.type place.line right.span
      else [] := by
  simp only [binary, h]
  rfl

/-- An equality whose operands are not void is complained about at most once. -/
theorem length_binary_le {op : BinaryOp} (h : op.operandType? = none) (place : Place)
    {left right : Expr} (hvoid : left.type.isVoid = false ∨ right.type.isVoid = false) :
    (binary place op left right).length ≤ 1 := by
  rw [binary_of_equality h]
  split
  · rcases hvoid with hl | hr
    · rw [voidOperand_eq_nil hl]
      exact length_voidOperand_le place right
    · rw [voidOperand_eq_nil hr, List.append_nil]
      exact length_voidOperand_le place left
  · split
    · exact length_expectType_le _ _ _ _
    · exact Nat.zero_le 1

/-- Between equality and `void` it takes a case analysis: what the left side is changes what is
asked of the right one. -/
theorem binary_left_tolerant (place : Place) (op : BinaryOp) (right : Expr) :
    Tolerant fun x => binary place op x right where
  same hxy hty := by simp only [binary, hxy.span, hty]
  gains {x y} hxy hty := by
    cases hop : op.operandType? with
    | some expected =>
      rw [binary_of_operandType hop, binary_of_operandType hop, hty, expectType_unknown]
      exact (Gains.of_length_le_one (length_expectType_le _ _ _ _)).append_right _
    | none =>
      -- next to an unknown operand an equality complains about a void one only
      have hx : binary place op x right = voidOperand place right := by
        rw [binary_of_equality hop, voidOperand_eq_nil (by rw [hty]; rfl), hty]
        cases hr : right.type.isVoid with
        | false => exact (voidOperand_eq_nil hr).symm
        | true => rfl
      rw [hx]
      cases hr : right.type.isVoid with
      | false =>
        rw [voidOperand_eq_nil hr]
        exact .of_length_le_one (length_binary_le hop place (.inr hr))
      | true =>
        rw [binary_of_equality hop, hr, Bool.or_true, if_pos rfl]
        exact (Gains.of_length_le_one (length_voidOperand_le place y)).append_right _

theorem binary_right_tolerant (place : Place) (op : BinaryOp) (left : Expr) :
    Tolerant (binary place op left) where
  same hxy hty := by simp only [binary, hxy.span, hty]
  gains {x y} hxy hty := by
    cases hop : op.operandType? with
    | some expected =>
      rw [binary_of_operandType hop, binary_of_operandType hop, hty, expectType_unknown]
      exact (Gains.of_length_le_one (length_expectType_le _ _ _ _)).append_left _
    | none =>
      have hx : binary place op left x = voidOperand place left := by
        rw [binary_of_equality hop, voidOperand_eq_nil (e := x) (by rw [hty]; rfl), hty,
          expectType_unknown]
        cases hl : left.type.isVoid with
        | false =>
          rw [voidOperand_eq_nil hl]
          cases left.type.isKnown <;> rfl
        | true => exact List.append_nil _
      rw [hx]
      cases hl : left.type.isVoid with
      | false =>
        rw [voidOperand_eq_nil hl]
        exact .of_length_le_one (length_binary_le hop place (.inl hl))
      | true =>
        rw [binary_of_equality hop, hl, Bool.true_or, if_pos rfl]
        have hgain := (Gains.of_length_le_one (length_voidOperand_le place y)).append_left
          (voidOperand place left)
        rwa [List.append_nil] at hgain

/-- The type of one argument is read once; the others are compared with their own parameters. -/
theorem arguments_tolerant (place : Place) (name : String) (index : Nat) (params : List Ty)
    (before after : List Expr) :
    Tolerant fun x => arguments place name index params (before ++ x :: after) := by
  induction before generalizing index params with
  | nil =>
    cases params with
    | nil => exact .constant []
    | cons param params =>
      refine ⟨fun hxy hty => ?_, fun {x y} hxy hty => ?_⟩
      · simp only [List.nil_append, arguments, hxy.span, hty]
      · have hx : arguments place name index (param :: params) (x :: after) =
            arguments place name (index + 1) params after := by
          simp only [arguments, hty]
          rfl
        rw [List.nil_append, List.nil_append, hx, arguments]
        exact (Gains.of_length_le_one (length_ite_single_le _ _)).append_right _
  | cons arg before ih =>
    cases params with
    | nil => exact .constant []
    | cons param params =>
      -- what is said about `arg` does not depend on the arguments behind it
      exact (ih (index + 1) params).after _

/-- If the number of arguments is wrong, none of them is looked at. -/
theorem call_tolerant (symbol : Option Symbol) (place : Place) (name : String)
    (before after : List Expr) :
    Tolerant fun x => call symbol place name (before ++ x :: after) := by
  cases symbol with
  | none => exact .constant _
  | some s =>
    simp only [call, List.length_append, List.length_cons]
    cases s.kind.params? with
    | none => exact .constant _
    | some params =>
      by_cases hlen : params.length ≠ before.length + (after.length + 1)
      · simp only [if_pos hlen]
        exact .constant _
      · simp only [if_neg hlen]
        exact arguments_tolerant place name 0 params before after

end Rules

/-! ## Two copies of an expression -/

variable {look : String → Option Symbol}

namespace Expr

/-- A type that is there beforehand is kept, and what is inside is typed as it would be. -/
theorem typed_withType? (e : Expr) (ty : Ty) :
    (e.withType? (some ty)).typed look = (e.typed look).withType? (some ty) := by
  cases e with
  | location p t x index => cases index <;> rfl
  | _ => rfl

/-- What is found inside an expression does not depend on the type written into it. -/
theorem mistakes_withType? (e : Expr) (t : Option Ty) :
    (e.withType? t).mistakes look = e.mistakes look := by
  cases e with
  | location p u x index => cases index <;> rfl
  | _ => rfl

theorem type?_withType? (e : Expr) (t : Option Ty) : (e.withType? t).type? = t := by
  cases e <;> rfl

/-- Two copies of an expression with different types look the same from inside. -/
theorem alike_withType? (e : Expr) (t u : Option Ty) : (e.withType? t).Alike (e.withType? u) := by
  cases e <;> exact ⟨rfl, rfl⟩

/-- Filling in types keeps two copies alike. -/
theorem Alike.typed {x y : Expr} (h : x.Alike y) : (x.typed look).Alike (y.typed look) := by
  have hspan : ∀ e : Expr, (e.typed look).span = e.span := by
    intro e
    cases e with
    | location p t x index => cases index <;> rfl
    | _ => rfl
  have hname : ∀ e : Expr, (e.typed look).locationName? = e.locationName? := by
    intro e
    cases e with
    | location p t x index => cases index <;> rfl
    | _ => rfl
  exact ⟨by rw [hspan, hspan, h.span], by rw [hname, hname, h.name]⟩

/-- Two copies of an expression that differ in the type of one occurrence: either it is the
expression itself, then the same is found inside and nothing is known of the first copy; or
it is further inside, then what is found may differ and the types do not. -/
structure Touched (look : String → Option Symbol) (x y : Expr) : Prop where
  alike : x.Alike y
  cases : x.mistakes look = y.mistakes look ∧ (x.typed look).type = .unknown ∨
    Gains (x.mistakes look) (y.mistakes look) ∧ (x.typed look).type = (y.typed look).type

/-- Around the changed expression every rule sees the same, up to the one that reads its type. -/
theorem Touched.gains {x y : Expr} (h : Touched look x y) :
    Gains (x.mistakes look) (y.mistakes look) := by
  rcases h.cases with ⟨heq, _⟩ | ⟨hgain, _⟩
  · exact .of_eq heq
  · exact hgain

/-- Whichever it is, the rule for the construct around the expression finds at most one
thing more, and no more if something was found inside. -/
theorem Touched.gains_rule {x y : Expr} (h : Touched look x y) {rule : Expr → List Diagnostic}
    (hrule : Tolerant rule) :
    Gains (x.mistakes look ++ rule (x.typed look)) (y.mistakes look ++ rule (y.typed look)) := by
  rcases h.cases with ⟨heq, hunknown⟩ | ⟨hgain, hsame⟩
  · rw [heq]
    exact (hrule.gains h.alike.typed hunknown).append_left _
  · rw [hrule.same h.alike.typed hsame]
    exact hgain.append_right _

/-- Around the occurrence: a construct has its type and its place from elsewhere. -/
theorem Hole.touched (hole : Hole) (e : Expr) (ty : Ty) :
    Touched look (hole.fill (e.withType? (some .unknown))) (hole.fill (e.withType? (some ty))) := by
  induction hole with
  | here =>
    refine ⟨e.alike_withType? _ _, .inl ⟨?_, ?_⟩⟩
    · rw [fill, fill, mistakes_withType?, mistakes_withType?]
    · rw [fill, typed_withType?, type, type?_withType?]
      rfl
  | index p t x hole ih =>
    refine ⟨⟨rfl, rfl⟩, .inr ⟨?_, rfl⟩⟩
    exact ih.gains_rule (Rules.location_tolerant (look x) p x)
  | left p t op hole r ih =>
    refine ⟨⟨rfl, rfl⟩, .inr ⟨?_, rfl⟩⟩
    exact ih.gains_rule ((Rules.binary_left_tolerant p op (r.typed look)).after (r.mistakes look))
  | right p t op l hole ih =>
    refine ⟨⟨rfl, rfl⟩, .inr ⟨?_, rfl⟩⟩
    exact (ih.gains_rule (Rules.binary_right_tolerant p op (l.typed look))).append_left _
  | operand p t op hole ih =>
    refine ⟨⟨rfl, rfl⟩, .inr ⟨?_, rfl⟩⟩
    exact ih.gains_rule (Rules.unary_tolerant p op)
  | argument p t f before hole after ih =>
    refine ⟨⟨rfl, rfl⟩, .inr ⟨?_, rfl⟩⟩
    -- the arguments behind the occurrence are walked before the rule is applied
    have hrule := Rules.call_tolerant (look f) p f (typedExprs look before) (typedExprs look after)
    have hgain := (ih.gains_rule (hrule.after (exprsMistakes look after))).append_left
      (exprsMistakes look before)
    simp only [fill, mistakes, Rules.expr, typedExprs_eq_map, exprsMistakes_eq_flatMap,
      List.map_append, List.map_cons, List.flatMap_append, List.flatMap_cons,
      List.append_assoc] at hgain ⊢
    exact hgain

end Expr

/-! ## Two copies of a program -/

variable {tables : Tables}

/-- What more is found in a statement is found in the block around it, in whatever context it
stands. -/
theorem Block.Hole.gains (around : Block.Hole) {s s' : Stmt}
    (h : ∀ c, Gains (s.mistakes tables c) (s'.mistakes tables c)) (c : Context) :
    Gains ((around.fill s).mistakes tables c) ((around.fill s').mistakes tables c) := by
  rw [fill, fill, Block.mistakes, Block.mistakes, stmtsMistakes_eq_flatMap,
    stmtsMistakes_eq_flatMap, List.flatMap_append, List.flatMap_append, List.flatMap_cons,
    List.flatMap_cons]
  exact ((((h _).append_right _).append_left _).append_left _).append_left _

/-- The same from an expression to the statement that it stands in. If the expression is the
operand of the statement, this is where its type is read. -/
theorem Stmt.Hole.gains (hole : Stmt.Hole) (e : Expr) (ty : Ty) (c : Context) :
    Gains ((hole.fill (e.withType? (some .unknown))).mistakes tables c)
      ((hole.fill (e.withType? (some ty))).mistakes tables c) := by
  induction hole generalizing c with
  | target p hole v =>
    exact (hole.touched e ty).gains_rule
      ((Rules.assignment_target_tolerant p (v.typed (c.lookup tables))).after _)
  | value p x hole =>
    exact ((hole.touched e ty).gains_rule
      (Rules.assignment_value_tolerant p (x.typed (c.lookup tables)))).append_left _
  | call p hole => exact (hole.touched e ty).gains
  | ifTest p hole b d =>
    -- so are the blocks, between the condition and its rule
    cases d with
    | none => exact (hole.touched e ty).gains_rule ((Rules.condition_tolerant p).after _)
    | some d =>
      exact (hole.touched e ty).gains_rule (((Rules.condition_tolerant p).after _).after _)
  | loopTest p hole b =>
    exact (hole.touched e ty).gains_rule ((Rules.condition_tolerant p).after _)
  | ret p hole => exact (hole.touched e ty).gains_rule (Rules.returned_tolerant c.returnType? p)
  | thenBlock p test around hole d ih =>
    cases d with
    | none => exact ((around.gains ih c).append_right _).append_left _
    | some d => exact ((around.gains ih c).append_right _).append_left _
  | elseBlock p test b around hole ih =>
    exact (((around.gains ih c).append_right _).append_left _).append_left _
  | body p test around hole ih =>
    exact ((around.gains ih c.inLoopBody).append_right _).append_left _
  | inner p around hole ih => exact around.gains ih c

/-- From the occurrence to the whole program there is at most one complaint more. -/
theorem Program.Hole.gains (h : Program.Hole) (e : Expr) (ty : Ty) (c : Context) :
    Gains ((h.fill (e.withType? (some .unknown))).mistakes tables c)
      ((h.fill (e.withType? (some ty))).mistakes tables c) := by
  rw [fill, fill, Program.mistakes, Program.mistakes, List.flatMap_append, List.flatMap_append,
    List.flatMap_cons, List.flatMap_cons]
  refine Gains.append_left (Gains.append_left (Gains.append_right ?_ _) _) _
  refine Gains.append_left (Gains.append_right ?_ _) _
  exact ((h.around.gains (h.hole.gains e ty) _).append_left _).append_left _

/-! ## The types around an occurrence -/

/-- A hole with the types around it filled in. -/
def Expr.Hole.typed (look : String → Option Symbol) : Expr.Hole → Expr.Hole
  | .here => .here
  | .index p t x hole => .index p (t.or (some (Rules.locationType (look x)))) x (hole.typed look)
  | .left p t op hole r => .left p (t.or (some op.resultType)) op (hole.typed look) (r.typed look)
  | .right p t op l hole => .right p (t.or (some op.resultType)) op (l.typed look) (hole.typed look)
  | .operand p t op hole => .operand p (t.or (some op.type)) op (hole.typed look)
  | .argument p t f before hole after =>
    .argument p (t.or (some (Rules.callType (look f)))) f (typedExprs look before)
      (hole.typed look) (typedExprs look after)

/-- To fill in the types is to do so around an occurrence and in it. -/
theorem Expr.Hole.typed_fill (hole : Expr.Hole) (e : Expr) :
    (hole.fill e).typed look = (hole.typed look).fill (e.typed look) := by
  induction hole with
  | here => rfl
  | index p t x hole ih => rw [fill, Expr.typed, ih]; rfl
  | left p t op hole r ih => rw [fill, Expr.typed, ih]; rfl
  | right p t op l hole ih => rw [fill, Expr.typed, ih]; rfl
  | operand p t op hole ih => rw [fill, Expr.typed, ih]; rfl
  | argument p t f before hole after ih =>
    rw [fill, Expr.typed, typedExprs_eq_map, List.map_append, List.map_cons, ih, Hole.typed,
      typedExprs_eq_map, typedExprs_eq_map]
    rfl

/-- A hole stays where it is. -/
theorem Expr.Hole.untyped_fill_typed (hole : Expr.Hole) (e : Expr) :
    ((hole.typed look).fill e).relabel .untyped = (hole.fill e).relabel .untyped := by
  induction hole with
  | here => rfl
  | index p t x hole ih => rw [typed, fill, fill, relabel, relabel, ih]; rfl
  | left p t op hole r ih =>
    rw [typed, fill, fill, relabel, relabel, ih, r.typed_relabel_untyped]; rfl
  | right p t op l hole ih =>
    rw [typed, fill, fill, relabel, relabel, ih, l.typed_relabel_untyped]; rfl
  | operand p t op hole ih => rw [typed, fill, fill, relabel, relabel, ih]; rfl
  | argument p t f before hole after ih =>
    have hsame : ∀ es : List Expr, (typedExprs look es).map (·.relabel .untyped) =
        es.map (·.relabel .untyped) := by
      intro es
      rw [typedExprs_eq_map, List.map_map]
      exact List.map_congr_left fun x _ => x.typed_relabel_untyped
    rw [typed, fill, fill, relabel, relabel, relabelExprs_eq_map, relabelExprs_eq_map,
      List.map_append, List.map_append, List.map_cons, List.map_cons, ih, hsame, hsame]
    rfl

/-- A block with the types around a statement filled in. -/
def Block.Hole.typed (tables : Tables) (c : Context) (around : Block.Hole) : Block.Hole :=
  { around with
    before := typedStmts tables (c.within around.scope) around.before
    after := typedStmts tables (c.within around.scope) around.after }

/-- Types are filled in around a hole as they are without it, in the context that the hole has. -/
theorem Block.Hole.typed_fill (around : Block.Hole) (s : Stmt) (c : Context) :
    (around.fill s).typed tables c =
      (around.typed tables c).fill (s.typed tables (c.within around.scope)) := by
  rw [fill, Block.typed, typedStmts_eq_map, List.map_append, List.map_cons, Hole.typed,
    typedStmts_eq_map, typedStmts_eq_map]
  rfl

/-- What the analysis knows at the occurrence in a statement. -/
def Stmt.Hole.context (c : Context) : Stmt.Hole → Context
  | .thenBlock _ _ around hole _ => hole.context (c.within around.scope)
  | .elseBlock _ _ _ around hole => hole.context (c.within around.scope)
  | .body _ _ around hole => hole.context (c.inLoopBody.within around.scope)
  | .inner _ around hole => hole.context (c.within around.scope)
  | _ => c

/-- A statement with the types around an occurrence filled in. -/
def Stmt.Hole.typed (tables : Tables) (c : Context) : Stmt.Hole → Stmt.Hole
  | .target p hole v => .target p (hole.typed (c.lookup tables)) (v.typed (c.lookup tables))
  | .value p x hole => .value p (x.typed (c.lookup tables)) (hole.typed (c.lookup tables))
  | .call p hole => .call p (hole.typed (c.lookup tables))
  | .ifTest p hole b d =>
    .ifTest p (hole.typed (c.lookup tables)) (b.typed tables c) (d.map (·.typed tables c))
  | .loopTest p hole b => .loopTest p (hole.typed (c.lookup tables)) (b.typed tables c.inLoopBody)
  | .ret p hole => .ret p (hole.typed (c.lookup tables))
  | .thenBlock p test around hole d =>
    .thenBlock p (test.typed (c.lookup tables)) (around.typed tables c)
      (hole.typed tables (c.within around.scope)) (d.map (·.typed tables c))
  | .elseBlock p test b around hole =>
    .elseBlock p (test.typed (c.lookup tables)) (b.typed tables c) (around.typed tables c)
      (hole.typed tables (c.within around.scope))
  | .body p test around hole =>
    .body p (test.typed (c.lookup tables)) (around.typed tables c.inLoopBody)
      (hole.typed tables (c.inLoopBody.within around.scope))
  | .inner p around hole =>
    .inner p (around.typed tables c) (hole.typed tables (c.within around.scope))

/-- The same for a hole in a statement. -/
theorem Stmt.Hole.typed_fill (hole : Stmt.Hole) (e : Expr) (c : Context) :
    (hole.fill e).typed tables c =
      (hole.typed tables c).fill (e.typed ((hole.context c).lookup tables)) := by
  induction hole generalizing c with
  | target p hole v => rw [fill, Stmt.typed, hole.typed_fill]; rfl
  | value p x hole => rw [fill, Stmt.typed, hole.typed_fill]; rfl
  | call p hole => rw [fill, Stmt.typed, hole.typed_fill]; rfl
  | ifTest p hole b d => cases d <;> rw [fill, Stmt.typed, hole.typed_fill] <;> rfl
  | loopTest p hole b => rw [fill, Stmt.typed, hole.typed_fill]; rfl
  | ret p hole => rw [fill, Stmt.typed, Option.map_some, hole.typed_fill]; rfl
  | thenBlock p test around hole d ih =>
    cases d <;> rw [fill, Stmt.typed, around.typed_fill, ih] <;> rfl
  | elseBlock p test b around hole ih => rw [fill, Stmt.typed, around.typed_fill, ih]; rfl
  | body p test around hole ih => rw [fill, Stmt.typed, around.typed_fill, ih]; rfl
  | inner p around hole ih => rw [fill, Stmt.typed, around.typed_fill, ih]; rfl

/-- Types that are filled in around a hole can be taken out again. -/
theorem Block.Hole.untyped_fill_typed (around : Block.Hole) {s s' : Stmt}
    (h : s.relabel .untyped = s'.relabel .untyped) (c : Context) :
    ((around.typed tables c).fill s).relabel .untyped = (around.fill s').relabel .untyped := by
  have hsame : ∀ ss : List Stmt, (typedStmts tables (c.within around.scope) ss).map
      (·.relabel .untyped) = ss.map (·.relabel .untyped) := by
    intro ss
    rw [typedStmts_eq_map, List.map_map]
    exact List.map_congr_left fun x _ => block_stmt_typed_relabel_untyped.2 x _
  rw [typed, fill, fill, Block.relabel, Block.relabel, relabelStmts_eq_map, relabelStmts_eq_map,
    List.map_append, List.map_append, List.map_cons, List.map_cons, h, hsame, hsame]

theorem Stmt.Hole.untyped_fill_typed (hole : Stmt.Hole) (e : Expr) (c : Context) :
    ((hole.typed tables c).fill e).relabel .untyped = (hole.fill e).relabel .untyped := by
  have hblock : ∀ (b : Block) (c : Context), (b.typed tables c).relabel .untyped =
      b.relabel .untyped := block_stmt_typed_relabel_untyped.1
  induction hole generalizing c with
  | target p hole v =>
    rw [typed, fill, fill, relabel, relabel, hole.untyped_fill_typed, v.typed_relabel_untyped]
  | value p x hole =>
    rw [typed, fill, fill, relabel, relabel, hole.untyped_fill_typed, x.typed_relabel_untyped]
  | call p hole => rw [typed, fill, fill, relabel, relabel, hole.untyped_fill_typed]
  | ifTest p hole b d =>
    cases d with
    | none =>
      rw [typed, fill, fill, Option.map_none, relabel, relabel, hole.untyped_fill_typed, hblock]
    | some d =>
      rw [typed, fill, fill, Option.map_some, relabel, relabel, hole.untyped_fill_typed, hblock,
        hblock]
  | loopTest p hole b =>
    rw [typed, fill, fill, relabel, relabel, hole.untyped_fill_typed, hblock]
  | ret p hole =>
    rw [typed, fill, fill, relabel, relabel, Option.map_some, Option.map_some,
      hole.untyped_fill_typed]
  | thenBlock p test around hole d ih =>
    cases d with
    | none =>
      rw [typed, fill, fill, Option.map_none, relabel, relabel, test.typed_relabel_untyped,
        around.untyped_fill_typed (ih _)]
    | some d =>
      rw [typed, fill, fill, Option.map_some, relabel, relabel, test.typed_relabel_untyped,
        around.untyped_fill_typed (ih _), hblock]
  | elseBlock p test b around hole ih =>
    rw [typed, fill, fill, relabel, relabel, test.typed_relabel_untyped, hblock,
      around.untyped_fill_typed (ih _)]
  | body p test around hole ih =>
    rw [typed, fill, fill, relabel, relabel, test.typed_relabel_untyped,
      around.untyped_fill_typed (ih _)]
  | inner p around hole ih =>
    rw [typed, fill, fill, relabel, relabel, around.untyped_fill_typed (ih _)]

/-! ## Programs -/

namespace Program.Hole

/-- What the analysis knows in the function where an occurrence stands. -/
def functionContext (h : Hole) (c : Context) : Context :=
  h.function.context (c.within h.program.scope)

/-- What the analysis knows at an occurrence. -/
def context (h : Hole) (c : Context) : Context :=
  h.hole.context ((h.functionContext c).within h.around.scope)

/-- A program with the types around an occurrence filled in. -/
def typed (tables : Tables) (c : Context) (h : Hole) : Hole :=
  { h with
    before := h.before.map (·.typed tables (c.within h.program.scope))
    around := h.around.typed tables (h.functionContext c)
    hole := h.hole.typed tables ((h.functionContext c).within h.around.scope)
    after := h.after.map (·.typed tables (c.within h.program.scope)) }

/-- The same for a hole in a program. -/
theorem typed_fill (h : Hole) (e : Expr) (c : Context) :
    (h.fill e).typed tables c =
      (h.typed tables c).fill (e.typed ((h.context c).lookup tables)) := by
  have hbody : (h.around.fill (h.hole.fill e)).typed tables (h.functionContext c) =
      (h.around.typed tables (h.functionContext c)).fill
        ((h.hole.typed tables ((h.functionContext c).within h.around.scope)).fill
          (e.typed ((h.context c).lookup tables))) := by
    rw [h.around.typed_fill, h.hole.typed_fill]
    rfl
  rw [fill, Program.typed, List.map_append, List.map_cons, Function.typed]
  exact congrArg (fun body : Block => ({ h.program with
    functions := (h.typed tables c).before ++ { h.function with body := body } ::
      (h.typed tables c).after } : Program)) hbody

theorem untyped_fill_typed (h : Hole) (e : Expr) (c : Context) :
    ((h.typed tables c).fill e).relabel .untyped = (h.fill e).relabel .untyped := by
  have hsame : ∀ fs : List Function, (fs.map (·.typed tables (c.within h.program.scope))).map
      (·.relabel .untyped) = fs.map (·.relabel .untyped) := by
    intro fs
    rw [List.map_map]
    exact List.map_congr_left fun f _ => f.typed_relabel_untyped _
  rw [typed, fill, fill, Program.relabel, Program.relabel, List.map_append, List.map_append,
    List.map_cons, List.map_cons, hsame, hsame, Function.relabel, Function.relabel,
    h.around.untyped_fill_typed (h.hole.untyped_fill_typed e _)]

end Program.Hole

/-- Let `unknown` be written into one occurrence of an expression in one copy of a program,
and `ty` in another. What is found in the first copy is found in the second, in that order,
and there is at most one thing more. The analyzed copies differ in the type of that
occurrence and in nothing else. Every expression of a program is such an occurrence. -/
theorem analyze_preset (tables : Tables) :
    (∀ (p : Program) (e : Expr), e ∈ p.exprs ↔ ∃ hole : Program.Hole, hole.fill e = p) ∧
    ∀ (hole : Program.Hole) (e : Expr) (ty : Ty),
      let unknown := analyze tables (hole.fill (e.withType? (some .unknown)))
      let known := analyze tables (hole.fill (e.withType? (some ty)))
      unknown.2.toList.Sublist known.2.toList ∧
      known.2.toList.length ≤ unknown.2.toList.length + 1 ∧
      ∃ (typed : Program.Hole) (inside : Expr),
        unknown.1 = typed.fill (inside.withType? (some .unknown)) ∧
        known.1 = typed.fill (inside.withType? (some ty)) ∧
        ∀ x, (typed.fill x).relabel .untyped = (hole.fill x).relabel .untyped := by
  refine ⟨Program.mem_exprs_iff, fun hole e ty => ?_⟩
  have hgain : Gains ((hole.fill (e.withType? (some .unknown))).mistakes tables ⟨none, none⟩)
      ((hole.fill (e.withType? (some ty))).mistakes tables ⟨none, none⟩) := hole.gains e ty _
  simp only [analyze_eq, ErrorList.toList_reportAll, ErrorList.toList_empty, List.nil_append]
  refine ⟨hgain.sublist, hgain.length_le, hole.typed tables ⟨none, none⟩,
    e.typed ((hole.context ⟨none, none⟩).lookup tables), ?_, ?_,
    fun x => hole.untyped_fill_typed x _⟩
  · rw [hole.typed_fill, Expr.typed_withType?]
  · rw [hole.typed_fill, Expr.typed_withType?]

end Decaf
