import Decaf.Proofs.Check.Agreement
import Decaf.Proofs.Syntax.Shape

/-!
# Well-formed programs

The static semantics as a judgement: `Expr.HasType` gives an expression a type,
`Stmt.WellFormed` and `Block.WellFormed` accept statements and blocks, and
`Program.WellFormed` accepts a program. The judgement knows nothing but lexical frames. There
is no unknown type in it and no recovery: an expression with something wrong in it has
no type at all.

The check accepts exactly the well-formed programs among those that can be read. The
one thing to be shown beyond a rule by rule comparison is that the check, which says
nothing about a type it does not know, cannot overlook a mistake that way: as long as
nothing is found in an expression its type is known (`Expr.HasType.known`), because
every declaration of a program that was read says a type (`Regular`).
-/

namespace Decaf

/-! ## The judgement -/

/-- No name is bound twice. -/
def Distinct (frame : Frame) : Prop :=
  (frame.map (·.name)).Nodup

/-- A name stands for something: it is bound in the innermost frame, or it is not and
stands for that in the frames around it. -/
inductive Resolves : Frames → String → Meaning → Prop
  | here {frame : Frame} {frames : Frames} {b : Binding} :
    b ∈ frame → Resolves (frame :: frames) b.name b.meaning
  | outer {frame : Frame} {frames : Frames} {x : String} {m : Meaning} :
    (∀ b ∈ frame, b.name ≠ x) → Resolves frames x m → Resolves (frame :: frames) x m

/-- The type of both operands and the type of the result, for operators other than the
equalities. -/
inductive BinaryOp.Takes : BinaryOp → Ty → Ty → Prop
  | arithmetic {op : BinaryOp} : op ∈ [.add, .sub, .mul, .div, .mod] → Takes op .int .int
  | order {op : BinaryOp} : op ∈ [.lt, .le, .gt, .ge] → Takes op .int .bool
  | logic {op : BinaryOp} : op ∈ [.and, .or] → Takes op .bool .bool

mutual

/-- An expression has a type. -/
inductive Expr.HasType (frames : Frames) : Expr → Ty → Prop
  | int {p : Place} {t : Option Ty} {n : Int} : Expr.HasType frames (.literal p t (.int n)) .int
  | bool {p : Place} {t : Option Ty} {b : Bool} : Expr.HasType frames (.literal p t (.bool b)) .bool
  | str {p : Place} {t : Option Ty} {s : String} : Expr.HasType frames (.literal p t (.str s)) .str
  | scalar {p : Place} {t : Option Ty} {x : String} {type : Ty} :
    Resolves frames x (.scalar type) → Expr.HasType frames (.location p t x none) type
  | element {p : Place} {t : Option Ty} {x : String} {i : Expr} {type : Ty} :
    Resolves frames x (.array type) → Expr.HasType frames i .int →
    Expr.HasType frames (.location p t x (some i)) type
  | binary {p : Place} {t : Option Ty} {op : BinaryOp} {l r : Expr} {operand result : Ty} :
    op.Takes operand result → Expr.HasType frames l operand → Expr.HasType frames r operand →
    Expr.HasType frames (.binary p t op l r) result
  | equality {p : Place} {t : Option Ty} {op : BinaryOp} {l r : Expr} {type : Ty} :
    op ∈ [.eq, .ne] → Expr.HasType frames l type → Expr.HasType frames r type → type ≠ .void →
    Expr.HasType frames (.binary p t op l r) .bool
  | neg {p : Place} {t : Option Ty} {e : Expr} :
    Expr.HasType frames e .int → Expr.HasType frames (.unary p t .neg e) .int
  | not {p : Place} {t : Option Ty} {e : Expr} :
    Expr.HasType frames e .bool → Expr.HasType frames (.unary p t .not e) .bool
  | call {p : Place} {t : Option Ty} {f : String} {args : List Expr} {params : List Ty}
      {result : Ty} :
    Resolves frames f (.function params result) → HaveTypes frames args params →
    Expr.HasType frames (.call p t f args) result

/-- Expressions have types, one for one. -/
inductive HaveTypes (frames : Frames) : List Expr → List Ty → Prop
  | nil : HaveTypes frames [] []
  | cons {e : Expr} {es : List Expr} {type : Ty} {types : List Ty} :
    Expr.HasType frames e type → HaveTypes frames es types →
    HaveTypes frames (e :: es) (type :: types)

end

/-- A variable is not void, and an array has room. -/
structure VarDecl.WellFormed (d : VarDecl) : Prop where
  type_ne : d.type ≠ .void
  length_ne : d.length ≠ some 0

mutual

/-- A block is well-formed inside a function with a return type, inside a loop of the
function or not. -/
inductive Block.WellFormed : Frames → Ty → Bool → Block → Prop
  | mk {frames : Frames} {result : Ty} {inLoop : Bool} {locals : List VarDecl}
      {statements : List Stmt} {p : Place} {scope : Option ScopeId} :
    Distinct (locals.map (·.binding)) → (∀ d ∈ locals, d.WellFormed) →
    (∀ s ∈ statements, Stmt.WellFormed (locals.map (·.binding) :: frames) result inLoop s) →
    Block.WellFormed frames result inLoop ⟨locals, statements, p, scope⟩

/-- A statement is well-formed inside a function with a return type, inside a loop of
the function or not. -/
inductive Stmt.WellFormed : Frames → Ty → Bool → Stmt → Prop
  | assign {frames : Frames} {result : Ty} {inLoop : Bool} {p : Place} {target value : Expr}
      {type : Ty} :
    target.HasType frames type → value.HasType frames type →
    Stmt.WellFormed frames result inLoop (.assign p target value)
  | call {frames : Frames} {result : Ty} {inLoop : Bool} {p : Place} {e : Expr} {type : Ty} :
    e.HasType frames type → Stmt.WellFormed frames result inLoop (.call p e)
  | ifThen {frames : Frames} {result : Ty} {inLoop : Bool} {p : Place} {test : Expr} {b : Block} :
    test.HasType frames .bool → Block.WellFormed frames result inLoop b →
    Stmt.WellFormed frames result inLoop (.conditional p test b none)
  | ifElse {frames : Frames} {result : Ty} {inLoop : Bool} {p : Place} {test : Expr}
      {b c : Block} :
    test.HasType frames .bool → Block.WellFormed frames result inLoop b →
    Block.WellFormed frames result inLoop c →
    Stmt.WellFormed frames result inLoop (.conditional p test b (some c))
  | loop {frames : Frames} {result : Ty} {inLoop : Bool} {p : Place} {test : Expr} {b : Block} :
    test.HasType frames .bool → Block.WellFormed frames result true b →
    Stmt.WellFormed frames result inLoop (.loop p test b)
  | bareReturn {frames : Frames} {inLoop : Bool} {p : Place} :
    Stmt.WellFormed frames .void inLoop (.ret p none)
  | ret {frames : Frames} {result : Ty} {inLoop : Bool} {p : Place} {e : Expr} :
    e.HasType frames result → Stmt.WellFormed frames result inLoop (.ret p (some e))
  | brk {frames : Frames} {result : Ty} {p : Place} :
    Stmt.WellFormed frames result true (.break p)
  | cont {frames : Frames} {result : Ty} {p : Place} :
    Stmt.WellFormed frames result true (.continue p)
  | inner {frames : Frames} {result : Ty} {inLoop : Bool} {p : Place} {b : Block} :
    Block.WellFormed frames result inLoop b → Stmt.WellFormed frames result inLoop (.block p b)

end

/-- A function is well-formed: its parameters are distinct and not void, and its body is
well-formed, outside of any loop. -/
structure Function.WellFormed (frames : Frames) (f : Function) : Prop where
  distinct : Distinct f.frame
  params : ∀ p ∈ f.params, p.type ≠ .void
  body : f.body.WellFormed (f.frame :: frames) f.returnType false

/-- A program is well-formed: what it declares is distinct and well-formed, and `main` is
a function that takes nothing and gives an integer. -/
structure Program.WellFormed (p : Program) : Prop where
  distinct : Distinct p.frame
  globals : ∀ d ∈ p.globals, d.WellFormed
  functions : ∀ f ∈ p.functions, f.WellFormed [p.frame]
  main : Resolves [p.frame] "main" (.function [] .int)

/-! ## Frames of programs that were read -/

/-- The type that a use of a name has. -/
def Meaning.type : Meaning → Ty
  | .scalar type => type
  | .array type => type
  | .function _ result => result

/-- Frames in which names are distinct and have types that are known. -/
structure Regular (frames : Frames) : Prop where
  distinct : ∀ frame ∈ frames, Distinct frame
  known : ∀ frame ∈ frames, ∀ b ∈ frame, b.meaning.type ≠ .unknown

theorem regular_nil : Regular [] where
  distinct _ hframe := absurd hframe List.not_mem_nil
  known _ hframe := absurd hframe List.not_mem_nil

/-- A frame in front must bind its names once and to known types. -/
theorem Regular.cons {frame : Frame} {frames : Frames} (hd : Distinct frame)
    (hk : ∀ b ∈ frame, b.meaning.type ≠ .unknown) (h : Regular frames) :
    Regular (frame :: frames) where
  distinct := List.forall_mem_cons.mpr ⟨hd, h.distinct⟩
  known := List.forall_mem_cons.mpr ⟨hk, h.known⟩

theorem Regular.tail {frame : Frame} {frames : Frames} (h : Regular (frame :: frames)) :
    Regular frames where
  distinct := (List.forall_mem_cons.mp h.distinct).2
  known := (List.forall_mem_cons.mp h.known).2

/-- If no name is bound twice, every binding is the one that counts for its name. -/
theorem meaningIn_of_mem {frame : Frame} (h : Distinct frame) {b : Binding} (hb : b ∈ frame) :
    meaningIn frame b.name = some b.meaning := by
  induction frame with
  | nil => cases hb
  | cons a frame ih =>
    rw [Distinct, List.map_cons, List.nodup_cons] at h
    rcases List.mem_cons.mp hb with rfl | hb
    · rw [meaningIn, List.find?_cons_of_pos (by simp), Option.map_some]
    · have hne : a.name ≠ b.name := fun he => h.1 (he ▸ List.mem_map_of_mem hb)
      rw [meaningIn, List.find?_cons_of_neg (by simpa using hne)]
      exact ih h.2 hb

/-- A name without a meaning in a frame is a name not bound there. -/
theorem meaningIn_eq_none_iff (frame : Frame) (x : String) :
    meaningIn frame x = none ↔ ∀ b ∈ frame, b.name ≠ x := by
  rw [meaningIn, Option.map_eq_none_iff, List.find?_eq_none]
  simp only [beq_iff_eq, ne_eq]

/-- The meaning of a name in a frame comes from one of its bindings. -/
theorem exists_of_meaningIn {frame : Frame} {x : String} {m : Meaning}
    (h : meaningIn frame x = some m) : ∃ b ∈ frame, b.name = x ∧ b.meaning = m := by
  obtain ⟨b, hb, hm⟩ := Option.map_eq_some_iff.mp h
  have hname := List.find?_some hb
  exact ⟨b, List.mem_of_find?_eq_some hb, beq_iff_eq.mp hname, hm⟩

/-- Where names are distinct, the first declaration of a name is the only one. -/
theorem meaningOf_eq_some_iff {frames : Frames} (h : Regular frames) (x : String) (m : Meaning) :
    meaningOf frames x = some m ↔ Resolves frames x m := by
  induction frames with
  | nil =>
    constructor
    · intro hx
      cases hx
    · intro hx
      cases hx
  | cons frame frames ih =>
    rw [meaningOf_cons]
    constructor
    · intro hx
      cases hin : meaningIn frame x with
      | none =>
        rw [hin, Option.none_or] at hx
        exact .outer ((meaningIn_eq_none_iff frame x).mp hin) ((ih h.tail).mp hx)
      | some m' =>
        rw [hin, Option.some_or] at hx
        cases hx
        obtain ⟨b, hb, rfl, rfl⟩ := exists_of_meaningIn hin
        exact .here hb
    · intro hx
      cases hx with
      | here hb => rw [meaningIn_of_mem (h.distinct frame List.mem_cons_self) hb, Option.some_or]
      | outer hne hx =>
        rw [(meaningIn_eq_none_iff frame x).mpr hne, Option.none_or]
        exact (ih h.tail).mpr hx

/-- In regular frames a name never stands for something of unknown type. -/
theorem Resolves.known {frames : Frames} {x : String} {m : Meaning} (hr : Resolves frames x m)
    (h : Regular frames) : m.type ≠ .unknown := by
  induction hr with
  | here hb => exact h.known _ List.mem_cons_self _ hb
  | outer _ _ ih => exact ih h.tail

/-- An expression that has a type has a known one. -/
theorem Expr.HasType.known {frames : Frames} (h : Regular frames) {e : Expr} {type : Ty}
    (he : e.HasType frames type) : type ≠ .unknown := by
  cases he with
  | scalar hx => exact hx.known h
  | element hx _ => exact hx.known h
  | call hf _ => exact hf.known h
  | binary hop _ _ => cases hop <;> nofun
  | _ => nofun

/-! ## Expressions -/

namespace Reference

/-- Nothing is complained about a known type exactly if it is the expected one. -/
theorem complaint_eq_nil_iff {expected found : Ty} (hf : found ≠ .unknown) (d : Diagnostic) :
    (if mismatch expected found then [d] else []) = [] ↔ found = expected := by
  simp [mismatch, hf]

/-- With a known type, silence about an operand means that it has the expected type. -/
theorem operand_eq_nil_iff {expected found : Ty} (hf : found ≠ .unknown) (line : Nat)
    (span : Span) : operand expected found line span = [] ↔ found = expected :=
  complaint_eq_nil_iff hf _

/-- Arguments without findings have the types of the parameters. -/
theorem haveTypes_of_arguments {frames : Frames} (h : Regular frames) {place : Place} {f : String}
    {args : List Expr} (hargs : ∀ a ∈ args, a.HasType frames (typeOf frames a)) {index : Nat}
    {params : List Ty} (hlen : params.length = args.length)
    (hfound : arguments frames place f index params args = []) :
    HaveTypes frames args params := by
  induction args generalizing index params with
  | nil =>
    rw [List.length_nil, List.length_eq_zero_iff] at hlen
    rw [hlen]
    exact .nil
  | cons a args ih =>
    cases params with
    | nil => cases hlen
    | cons param params =>
      rw [arguments, List.append_eq_nil_iff] at hfound
      obtain ⟨hhead, htail⟩ := hfound
      have ha := hargs a List.mem_cons_self
      have htype := (complaint_eq_nil_iff (ha.known h) _).mp hhead
      refine .cons (htype ▸ ha) (ih (fun b hb => hargs b (List.mem_cons_of_mem a hb)) ?_ htail)
      exact Nat.succ.inj hlen

theorem exprs_eq_nil_iff (frames : Frames) (es : List Expr) :
    exprs frames es = [] ↔ ∀ e ∈ es, expr frames e = [] := by
  induction es with
  | nil => simp [exprs]
  | cons e es ih => rw [exprs, List.append_eq_nil_iff, ih, List.forall_mem_cons]

/-- Operands without findings, of an operator that asks for a type. -/
theorem binary_eq_nil_iff {frames : Frames} {op : BinaryOp} {expected : Ty}
    (hop : operandType op = some expected) {l r : Expr} (hl : typeOf frames l ≠ .unknown)
    (hr : typeOf frames r ≠ .unknown) (place : Place) :
    binary frames place op l r = [] ↔ typeOf frames l = expected ∧ typeOf frames r = expected := by
  rw [binary, hop]
  show _ ++ _ = [] ↔ _
  rw [List.append_eq_nil_iff, operand_eq_nil_iff hl, operand_eq_nil_iff hr]

/-- Operands without findings, of an equality. -/
theorem equality_eq_nil_iff {frames : Frames} {op : BinaryOp} (hop : operandType op = none)
    {l r : Expr} (hl : typeOf frames l ≠ .unknown) (hr : typeOf frames r ≠ .unknown)
    (place : Place) :
    binary frames place op l r = [] ↔
      typeOf frames r = typeOf frames l ∧ typeOf frames l ≠ .void := by
  rw [binary, hop]
  show ite _ _ _ = [] ↔ _
  by_cases hlv : typeOf frames l = .void
  · simp [hlv]
  · by_cases hrv : typeOf frames r = .void
    · simp [hlv, hrv, Ne.symm hlv]
    · simp only [hlv, hrv, or_self, if_false, hl, operand_eq_nil_iff hr, ne_eq, not_false_eq_true,
        and_true]

end Reference

open Reference (typeOf)

/-- The operators that the judgement lists with types of operands and result are those that the
check treats so. -/
theorem BinaryOp.Takes.typing {op : BinaryOp} {operand result : Ty} (hop : op.Takes operand result)
    (frames : Frames) (p : Place) (t : Option Ty) (l r : Expr) :
    Reference.operandType op = some operand ∧ typeOf frames (.binary p t op l r) = result := by
  cases hop with
  | arithmetic hop =>
    simp only [List.mem_cons, List.not_mem_nil, or_false] at hop
    rcases hop with rfl | rfl | rfl | rfl | rfl <;> exact ⟨rfl, rfl⟩
  | order hop =>
    simp only [List.mem_cons, List.not_mem_nil, or_false] at hop
    rcases hop with rfl | rfl | rfl | rfl <;> exact ⟨rfl, rfl⟩
  | logic hop =>
    simp only [List.mem_cons, List.not_mem_nil, or_false] at hop
    rcases hop with rfl | rfl <;> exact ⟨rfl, rfl⟩

/-- Equality expects no type in particular and gives a truth value. -/
theorem Reference.equality_typing {op : BinaryOp} (hop : op ∈ [.eq, .ne])
    (frames : Frames) (p : Place) (t : Option Ty) (l r : Expr) :
    operandType op = none ∧ typeOf frames (.binary p t op l r) = .bool := by
  simp only [List.mem_cons, List.not_mem_nil, or_false] at hop
  rcases hop with rfl | rfl <;> exact ⟨rfl, rfl⟩

/-- Every operator takes operands of a certain type, or is an equality. -/
theorem BinaryOp.takes_or_equality (op : BinaryOp) :
    (∃ operand result, op.Takes operand result) ∨ op ∈ [.eq, .ne] := by
  cases op with
  | add | sub | mul | div | mod => exact .inl ⟨_, _, .arithmetic (by decide)⟩
  | lt | le | gt | ge => exact .inl ⟨_, _, .order (by decide)⟩
  | and | or => exact .inl ⟨_, _, .logic (by decide)⟩
  | eq | ne => exact .inr (by decide)

/-- If the operands have types and nothing is found at the operator, the operation has a type. -/
theorem Expr.HasType.of_binary {frames : Frames} (h : Regular frames) {p : Place} {t : Option Ty}
    {op : BinaryOp} {l r : Expr} (hl : l.HasType frames (typeOf frames l))
    (hr : r.HasType frames (typeOf frames r)) (hfound : Reference.binary frames p op l r = []) :
    HasType frames (.binary p t op l r) (typeOf frames (.binary p t op l r)) := by
  rcases op.takes_or_equality with ⟨operand, result, hop⟩ | hop
  · obtain ⟨hoperand, htype⟩ := hop.typing frames p t l r
    rw [Reference.binary_eq_nil_iff hoperand (hl.known h) (hr.known h)] at hfound
    rw [htype]
    exact .binary hop (hfound.1 ▸ hl) (hfound.2 ▸ hr)
  · obtain ⟨hoperand, htype⟩ := Reference.equality_typing hop frames p t l r
    rw [Reference.equality_eq_nil_iff hoperand (hl.known h) (hr.known h)] at hfound
    rw [htype]
    exact .equality hop hl (hfound.1 ▸ hr) hfound.2

/-- An expression in which nothing is found has the type that is written into it. -/
theorem Expr.hasType_of_expr {frames : Frames} (h : Regular frames) (e : Expr)
    (he : Reference.expr frames e = []) : e.HasType frames (typeOf frames e) := by
  induction e using Expr.induction with
  | literal p t v =>
    cases v with
    | int n => exact .int
    | bool b => exact .bool
    | str s => exact .str
  | scalar p t x =>
    rw [Reference.expr, Reference.location.eq_def] at he
    rw [typeOf]
    cases hx : meaningOf frames x with
    | none => rw [hx] at he; cases he
    | some m =>
      rw [hx] at he
      cases m with
      | scalar type => exact .scalar ((meaningOf_eq_some_iff h x _).mp hx)
      | array type => cases he
      | function params result => cases he
  | element p t x i ih =>
    rw [Reference.expr, List.append_eq_nil_iff, Reference.location.eq_def] at he
    obtain ⟨hi, hloc⟩ := he
    rw [typeOf]
    cases hx : meaningOf frames x with
    | none => rw [hx] at hloc; cases hloc
    | some m =>
      rw [hx] at hloc
      cases m with
      | scalar type => cases hloc
      | array type =>
        -- the type of the index is known, so that a wrong one would have been found
        have htype := (Reference.complaint_eq_nil_iff ((ih hi).known h) _).mp hloc
        exact .element ((meaningOf_eq_some_iff h x _).mp hx) (htype ▸ ih hi)
      | function params result => cases hloc
  | binary p t op l r ihl ihr =>
    rw [Reference.expr, List.append_eq_nil_iff, List.append_eq_nil_iff] at he
    obtain ⟨hl, hr, hop⟩ := he
    exact Expr.HasType.of_binary h (ihl hl) (ihr hr) hop
  | unary p t op e ih =>
    cases op with
    | neg =>
      rw [Reference.expr, List.append_eq_nil_iff] at he
      obtain ⟨he, hop⟩ := he
      rw [Reference.operand_eq_nil_iff ((ih he).known h)] at hop
      exact .neg (hop ▸ ih he)
    | not =>
      rw [Reference.expr, List.append_eq_nil_iff] at he
      obtain ⟨he, hop⟩ := he
      rw [Reference.operand_eq_nil_iff ((ih he).known h)] at hop
      exact .not (hop ▸ ih he)
  | call p t f args ih =>
    rw [Reference.expr, List.append_eq_nil_iff, Reference.exprs_eq_nil_iff, Reference.call] at he
    obtain ⟨hargs, hcall⟩ := he
    rw [typeOf]
    cases hf : meaningOf frames f with
    | none => rw [hf] at hcall; cases hcall
    | some m =>
      rw [hf] at hcall
      cases m with
      | scalar type => cases hcall
      | array type => cases hcall
      | function params result =>
        refine .call ((meaningOf_eq_some_iff h f _).mp hf) ?_
        by_cases hlen : params.length = args.length
        · exact Reference.haveTypes_of_arguments h (fun a ha => ih a ha (hargs a ha)) hlen
            ((if_pos hlen).symm.trans hcall)
        · have hcount := (if_neg hlen).symm.trans hcall
          cases hcount

mutual

/-- Nothing is found in an expression that has a type, and that type is written into
it. -/
theorem Expr.HasType.expr_eq_nil {frames : Frames} (h : Regular frames) :
    ∀ {e : Expr} {type : Ty}, e.HasType frames type →
      Reference.expr frames e = [] ∧ typeOf frames e = type
  | _, _, .int => ⟨rfl, rfl⟩
  | _, _, .bool => ⟨rfl, rfl⟩
  | _, _, .str => ⟨rfl, rfl⟩
  | _, _, .scalar (x := x) hx => by
    have hm := (meaningOf_eq_some_iff h x _).mpr hx
    rw [Reference.expr, Reference.location.eq_def, typeOf, hm]
    exact ⟨rfl, rfl⟩
  | _, _, .element (x := x) hx hi => by
    have hm := (meaningOf_eq_some_iff h x _).mpr hx
    obtain ⟨hfound, htype⟩ := Expr.HasType.expr_eq_nil h hi
    rw [Reference.expr, Reference.location.eq_def, typeOf, hm, hfound, List.nil_append]
    refine ⟨?_, rfl⟩
    exact (Reference.complaint_eq_nil_iff (htype ▸ hi.known h) _).mpr htype
  | _, _, .binary (p := p) (t := t) (l := l) (r := r) hop hl hr => by
    obtain ⟨hoperand, htype⟩ := hop.typing frames p t l r
    obtain ⟨hfoundl, htypel⟩ := Expr.HasType.expr_eq_nil h hl
    obtain ⟨hfoundr, htyper⟩ := Expr.HasType.expr_eq_nil h hr
    rw [Reference.expr, hfoundl, hfoundr, List.nil_append, List.nil_append,
      Reference.binary_eq_nil_iff hoperand (htypel ▸ hl.known h) (htyper ▸ hr.known h)]
    exact ⟨⟨htypel, htyper⟩, htype⟩
  | _, _, .equality (p := p) (t := t) (l := l) (r := r) hop hl hr hvoid => by
    obtain ⟨hoperand, htype⟩ := Reference.equality_typing hop frames p t l r
    obtain ⟨hfoundl, htypel⟩ := Expr.HasType.expr_eq_nil h hl
    obtain ⟨hfoundr, htyper⟩ := Expr.HasType.expr_eq_nil h hr
    rw [Reference.expr, hfoundl, hfoundr, List.nil_append, List.nil_append,
      Reference.equality_eq_nil_iff hoperand (htypel ▸ hl.known h) (htyper ▸ hr.known h)]
    exact ⟨⟨htyper.trans htypel.symm, htypel ▸ hvoid⟩, htype⟩
  | _, _, .neg he => by
    obtain ⟨hfound, htype⟩ := Expr.HasType.expr_eq_nil h he
    rw [Reference.expr, hfound, List.nil_append,
      Reference.operand_eq_nil_iff (htype ▸ he.known h)]
    exact ⟨htype, rfl⟩
  | _, _, .not he => by
    obtain ⟨hfound, htype⟩ := Expr.HasType.expr_eq_nil h he
    rw [Reference.expr, hfound, List.nil_append,
      Reference.operand_eq_nil_iff (htype ▸ he.known h)]
    exact ⟨htype, rfl⟩
  | _, _, .call (p := p) (f := f) hf hargs => by
    have hm := (meaningOf_eq_some_iff h f _).mpr hf
    obtain ⟨hfound, hlen, hfounds⟩ := HaveTypes.exprs_eq_nil h hargs p f 0
    rw [Reference.expr, Reference.call, typeOf, hm, hfound, List.nil_append]
    exact ⟨(if_pos hlen).trans hfounds, rfl⟩

/-- Nothing is found in arguments that have the types of the parameters. -/
theorem HaveTypes.exprs_eq_nil {frames : Frames} (h : Regular frames) :
    ∀ {es : List Expr} {types : List Ty}, HaveTypes frames es types →
      ∀ (place : Place) (f : String) (index : Nat), Reference.exprs frames es = [] ∧
        types.length = es.length ∧ Reference.arguments frames place f index types es = []
  | _, _, .nil => fun _ _ _ => ⟨rfl, rfl, rfl⟩
  | _, _, .cons he hes => by
    intro place f index
    obtain ⟨hfound, htype⟩ := Expr.HasType.expr_eq_nil h he
    obtain ⟨hfounds, hlen, harguments⟩ := HaveTypes.exprs_eq_nil h hes place f (index + 1)
    rw [Reference.exprs, Reference.arguments, hfound, hfounds, harguments, List.nil_append,
      List.append_nil, Reference.complaint_eq_nil_iff (htype ▸ he.known h)]
    exact ⟨rfl, congrArg (· + 1) hlen, htype⟩

end

/-- An expression has a type exactly if nothing is found in it and that type is written
into it. -/
theorem Expr.hasType_iff {frames : Frames} (h : Regular frames) (e : Expr) (type : Ty) :
    e.HasType frames type ↔ Reference.expr frames e = [] ∧ typeOf frames e = type := by
  constructor
  · exact fun he => he.expr_eq_nil h
  · rintro ⟨he, rfl⟩
    exact e.hasType_of_expr h he

/-! ## Blocks and statements -/

/-- A type that can be written is a known one. -/
theorem Ty.Declarable.known {ty : Ty} (h : ty.Declarable) : ty ≠ .unknown := by
  rcases h with rfl | rfl | rfl <;> nofun

/-- A variable that was read is bound to a known type. -/
theorem VarDecl.WellShaped.known {d : VarDecl} (h : d.WellShaped) :
    d.binding.meaning.type ≠ .unknown := by
  have htype : d.binding.meaning.type = d.type := by
    rw [VarDecl.binding]
    cases d.length <;> rfl
  rw [htype]
  exact h.type.known

/-- The variables of a program that was read are bound to known types. -/
theorem known_of_wellShaped {ds : List VarDecl} (h : ∀ d ∈ ds, d.WellShaped) :
    ∀ b ∈ ds.map (·.binding), b.meaning.type ≠ .unknown :=
  List.forall_mem_map.mpr fun d hd => (h d hd).known

namespace Reference

/-- There is no complaint about a frame exactly if no name is bound twice. -/
theorem duplicates_eq_nil_iff (line : Nat) (frame : Frame) :
    duplicates line frame = [] ↔ Distinct frame := by
  rw [duplicates, List.map_eq_nil_iff, repeated_eq_nil_iff, Distinct]
  simp only [List.not_mem_nil, not_false_eq_true, implies_true, and_true]

/-- There is no complaint about variables exactly if each of them is well-formed. -/
theorem varDecls_eq_nil_iff (ds : List VarDecl) :
    ds.flatMap varDecl = [] ↔ ∀ d ∈ ds, d.WellFormed := by
  rw [List.flatMap_eq_nil_iff]
  refine forall₂_congr fun d _ => ?_
  rw [varDecl, List.append_eq_nil_iff]
  constructor
  · rintro ⟨htype, hlength⟩
    exact ⟨by simpa using htype, by simpa using hlength⟩
  · rintro ⟨htype, hlength⟩
    exact ⟨if_neg htype, if_neg hlength⟩

theorem params_eq_nil_iff (ps : List Param) :
    ps.flatMap param = [] ↔ ∀ p ∈ ps, p.type ≠ .void := by
  rw [List.flatMap_eq_nil_iff]
  refine forall₂_congr fun p _ => ?_
  rw [param]
  simp

/-- There is nothing wrong with statements in a row exactly if there is nothing wrong with any of
them. -/
theorem stmts_eq_nil_iff (frames : Frames) (result : Ty) (inLoop : Bool) (ss : List Stmt) :
    stmts frames result inLoop ss = [] ↔ ∀ s ∈ ss, stmt frames result inLoop s = [] := by
  induction ss with
  | nil => simp [stmts]
  | cons s ss ih => rw [stmts, List.append_eq_nil_iff, ih, List.forall_mem_cons]

variable {frames : Frames}

/-- A condition in and with which nothing is wrong is a truth value. -/
theorem test_iff (h : Regular frames) (p : Place) (test : Expr) :
    (expr frames test = [] ∧ condition frames p test = []) ↔ test.HasType frames .bool := by
  rw [Expr.hasType_iff h]
  refine and_congr_right fun htest => ?_
  exact complaint_eq_nil_iff ((test.hasType_of_expr h htest).known h) _

/-- A value in which and with whose return nothing is wrong has the return type. -/
theorem returned_iff (h : Regular frames) (result : Ty) (p : Place) (e : Expr) :
    (expr frames e = [] ∧ returned result (typeOf frames e) p = []) ↔
      e.HasType frames result := by
  rw [Expr.hasType_iff h]
  refine and_congr_right fun he => ?_
  exact complaint_eq_nil_iff ((e.hasType_of_expr h he).known h) _

/-- The two sides of an assignment in and with which nothing is wrong have one type. -/
theorem assignment_iff (h : Regular frames) (p : Place) (target value : Expr) :
    (expr frames target = [] ∧ expr frames value = [] ∧ assignment frames p target value = []) ↔
      ∃ type, target.HasType frames type ∧ value.HasType frames type := by
  constructor
  · rintro ⟨htarget, hvalue, hfound⟩
    have hl := target.hasType_of_expr h htarget
    have hr := value.hasType_of_expr h hvalue
    have hsame : typeOf frames value = typeOf frames target := by
      simpa [assignment, mismatch, hl.known h, hr.known h] using hfound
    exact ⟨_, hl, hsame ▸ hr⟩
  · rintro ⟨type, hl, hr⟩
    obtain ⟨htarget, htype⟩ := hl.expr_eq_nil h
    obtain ⟨hvalue, hsame⟩ := hr.expr_eq_nil h
    exact ⟨htarget, hvalue, by simp [assignment, mismatch, htype, hsame]⟩

end Reference

/-- Nothing is found in a block or a statement exactly if it is well-formed. -/
theorem block_stmt_eq_nil_iff :
    (∀ b : Block, b.WellShaped → ∀ (frames : Frames) (result : Ty) (inLoop : Bool),
      Regular frames →
      (Reference.block frames result inLoop b = [] ↔ b.WellFormed frames result inLoop)) ∧
    ∀ s : Stmt, s.WellShaped → ∀ (frames : Frames) (result : Ty) (inLoop : Bool),
      Regular frames →
      (Reference.stmt frames result inLoop s = [] ↔ s.WellFormed frames result inLoop) := by
  refine Block.induction ?mk ?assign ?call ?ifThen ?ifElse ?loop ?ret ?brk ?cont ?inner
  case mk =>
    rintro locals statements p scope ih ⟨hlocals, hstatements⟩ frames result inLoop h
    -- the statements can be compared only once the names of the block are distinct
    rw [Reference.block, List.append_eq_nil_iff, List.append_eq_nil_iff,
      Reference.duplicates_eq_nil_iff, Reference.varDecls_eq_nil_iff, Reference.stmts_eq_nil_iff]
    constructor
    · rintro ⟨hdistinct, hvars, hfound⟩
      have hinner := Regular.cons hdistinct (known_of_wellShaped hlocals) h
      exact .mk hdistinct hvars fun s hs =>
        (ih s hs (hstatements s hs) _ result inLoop hinner).mp (hfound s hs)
    · rintro ⟨hdistinct, hvars, hwell⟩
      have hinner := Regular.cons hdistinct (known_of_wellShaped hlocals) h
      exact ⟨hdistinct, hvars, fun s hs =>
        (ih s hs (hstatements s hs) _ result inLoop hinner).mpr (hwell s hs)⟩
  case assign =>
    intro p target value _ frames result inLoop h
    rw [Reference.stmt, List.append_eq_nil_iff, List.append_eq_nil_iff,
      Reference.assignment_iff h]
    constructor
    · rintro ⟨type, htarget, hvalue⟩
      exact .assign htarget hvalue
    · rintro (⟨htarget, hvalue⟩ | _)
      exact ⟨_, htarget, hvalue⟩
  case call =>
    intro p e _ frames result inLoop h
    rw [Reference.stmt]
    constructor
    · exact fun he => .call (e.hasType_of_expr h he)
    · rintro (_ | he)
      exact (he.expr_eq_nil h).1
  case ifThen =>
    intro p test b ihb hs frames result inLoop h
    cases hs with
    | ifThen _ hb =>
      rw [Reference.stmt, List.append_eq_nil_iff, List.append_eq_nil_iff,
        and_left_comm, Reference.test_iff h, ihb hb frames result inLoop h]
      constructor
      · rintro ⟨hwell, htest⟩
        exact .ifThen htest hwell
      · intro hwell
        cases hwell with
        | ifThen htest hwell => exact ⟨hwell, htest⟩
  case ifElse =>
    intro p test b c ihb ihc hs frames result inLoop h
    cases hs with
    | ifElse _ hb hc =>
      rw [Reference.stmt, List.append_eq_nil_iff, List.append_eq_nil_iff, List.append_eq_nil_iff,
        ihb hb frames result inLoop h, ihc hc frames result inLoop h]
      constructor
      · rintro ⟨hfound, hwellb, hwellc, htest⟩
        exact .ifElse ((Reference.test_iff h p test).mp ⟨hfound, htest⟩) hwellb hwellc
      · intro hwell
        cases hwell with
        | ifElse htest hwellb hwellc =>
          obtain ⟨hfound, htest⟩ := (Reference.test_iff h p test).mpr htest
          exact ⟨hfound, hwellb, hwellc, htest⟩
  case loop =>
    intro p test b ihb hs frames result inLoop h
    cases hs with
    | loop _ hb =>
      rw [Reference.stmt, List.append_eq_nil_iff, List.append_eq_nil_iff,
        and_left_comm, Reference.test_iff h, ihb hb frames result true h]
      constructor
      · rintro ⟨hwell, htest⟩
        exact .loop htest hwell
      · intro hwell
        cases hwell with
        | loop htest hwell => exact ⟨hwell, htest⟩
  case ret =>
    intro p value _ frames result inLoop h
    cases value with
    | none =>
      have hvoid : Ty.void ≠ .unknown := by decide
      rw [Reference.stmt, Reference.returned, Reference.complaint_eq_nil_iff hvoid]
      constructor
      · rintro rfl
        exact .bareReturn
      · intro hwell
        cases hwell
        rfl
    | some e =>
      rw [Reference.stmt, List.append_eq_nil_iff, Reference.returned_iff h]
      constructor
      · exact .ret
      · intro hwell
        cases hwell with
        | ret he => exact he
  case brk =>
    intro p _ frames result inLoop h
    rw [Reference.stmt]
    constructor
    · intro hfound
      cases inLoop with
      | false => cases hfound
      | true => exact .brk
    · rintro ⟨⟩
      rfl
  case cont =>
    intro p _ frames result inLoop h
    rw [Reference.stmt]
    constructor
    · intro hfound
      cases inLoop with
      | false => cases hfound
      | true => exact .cont
    · rintro ⟨⟩
      rfl
  case inner =>
    intro p b ihb hs frames result inLoop h
    cases hs with
    | inner hb =>
      rw [Reference.stmt, ihb hb frames result inLoop h]
      constructor
      · exact .inner
      · intro hwell
        cases hwell with
        | inner hwell => exact hwell

/-! ## Functions and programs -/

/-- The parameters of a function that was read are bound to known types. -/
theorem Function.WellShaped.known_frame {f : Function} (h : f.WellShaped) :
    ∀ b ∈ f.frame, b.meaning.type ≠ .unknown :=
  List.forall_mem_map.mpr fun p hp => (h.params p hp).type.known

/-- All names of a program that was read, those built in included, are bound to known types. -/
theorem Program.WellShaped.known_frame {p : Program} (h : p.WellShaped) :
    ∀ b ∈ p.frame, b.meaning.type ≠ .unknown := by
  have hbuiltin : ∀ b ∈ builtinFrame, b.meaning.type ≠ .unknown := by decide
  have hfunctions : ∀ b ∈ p.functions.map (·.binding), b.meaning.type ≠ .unknown :=
    List.forall_mem_map.mpr fun f hf => (h.functions f hf).returnType.known
  exact List.forall_mem_append.mpr
    ⟨List.forall_mem_append.mpr ⟨hbuiltin, known_of_wellShaped h.globals⟩, hfunctions⟩

/-- Nothing is found in a function exactly if the judgement accepts it. -/
theorem Function.eq_nil_iff {f : Function} (hf : f.WellShaped) {frames : Frames}
    (h : Regular frames) : Reference.function frames f = [] ↔ f.WellFormed frames := by
  rw [Reference.function, List.append_eq_nil_iff, List.append_eq_nil_iff,
    Reference.duplicates_eq_nil_iff, Reference.params_eq_nil_iff]
  constructor
  · rintro ⟨hdistinct, hparams, hbody⟩
    have hinner := Regular.cons hdistinct hf.known_frame h
    exact ⟨hdistinct, hparams, (block_stmt_eq_nil_iff.1 f.body hf.body _ _ _ hinner).mp hbody⟩
  · rintro ⟨hdistinct, hparams, hbody⟩
    have hinner := Regular.cons hdistinct hf.known_frame h
    exact ⟨hdistinct, hparams, (block_stmt_eq_nil_iff.1 f.body hf.body _ _ _ hinner).mpr hbody⟩

/-- The entry point is accepted exactly if `main` is a function without parameters that gives a
number. -/
theorem Reference.entryPoint_eq_nil_iff (p : Program) :
    entryPoint p = [] ↔ meaningOf [p.frame] "main" = some (.function [] .int) := by
  rw [entryPoint]
  cases meaningOf [p.frame] "main" with
  | none => simp
  | some m => simp

/-- Nothing is found in a program exactly if it is well-formed. -/
theorem Program.findings_eq_nil_iff {p : Program} (hp : p.WellShaped) :
    Reference.findings p = [] ↔ p.WellFormed := by
  rw [Reference.findings, List.append_eq_nil_iff, List.append_eq_nil_iff, List.append_eq_nil_iff,
    Reference.duplicates_eq_nil_iff, Reference.varDecls_eq_nil_iff, List.flatMap_eq_nil_iff,
    Reference.entryPoint_eq_nil_iff]
  have hregular : Distinct p.frame → Regular [p.frame] := fun hdistinct =>
    Regular.cons hdistinct hp.known_frame regular_nil
  constructor
  · rintro ⟨hdistinct, hglobals, hfunctions, hmain⟩
    have h := hregular hdistinct
    exact ⟨hdistinct, hglobals,
      fun f hf => (Function.eq_nil_iff (hp.functions f hf) h).mp (hfunctions f hf),
      (meaningOf_eq_some_iff h _ _).mp hmain⟩
  · rintro ⟨hdistinct, hglobals, hfunctions, hmain⟩
    have h := hregular hdistinct
    exact ⟨hdistinct, hglobals,
      fun f hf => (Function.eq_nil_iff (hp.functions f hf) h).mpr (hfunctions f hf),
      (meaningOf_eq_some_iff h _ _).mpr hmain⟩

/-- A text that is read is read however it is presented: that its tokens can be dumped
is no further condition. -/
theorem readProgram_eq_ok {source : String} {p : Program} (h : parse source = .ok p)
    (how : Presentation) : readProgram how source = .ok p := by
  obtain ⟨items, ⟨tokens, last, htokens, -⟩, -⟩ := parse_derives h
  rw [readProgram.eq_def, htokens, h]
  cases how.dumpTokens <;> rfl

/-- A text that is read gets the verdict of the checker on what was read. -/
theorem checkText_verdict {source : String} {p : Program} (h : parse source = .ok p)
    (how : Presentation) (file : String) :
    (checkText how file source).verdict = .ok (checkProgram p) := by
  rw [checkText, readProgram_eq_ok h how]

theorem ErrorList.isEmpty_iff (list : ErrorList) : list.isEmpty ↔ list.toList = [] := by
  rw [isEmpty, toList, Array.isEmpty_iff, Array.toList_eq_nil_iff]

/-- A text that is read as a program is checked, and nothing is found exactly if the
program is well-formed. -/
theorem checkText_accepts_iff_wellFormed (source : String) (p : Program) (h : parse source = .ok p)
    (how : Presentation) (file : String) :
    ∃ checked, (checkText how file source).verdict = .ok checked ∧
      (checked.errors.isEmpty ↔ p.WellFormed) := by
  refine ⟨checkProgram p, checkText_verdict h how file, ?_⟩
  obtain ⟨-, hfound⟩ := checkProgram_untyped p
  rw [parse_untyped h] at hfound
  rw [ErrorList.isEmpty_iff, hfound]
  exact Program.findings_eq_nil_iff (parse_wellShaped h)

/-- A text in which names are declared anew inside functions and blocks. -/
def shadowing : String :=
  "int x[3]; int main() { x[0] = -x[2]; return x[0]; } " ++
  "bool f(int x) { while (x < 9) { bool x; x = true; if (x == f(1)) { break; } } return !f(x); }"

/-- A text in which a variable is used as what the one that it hides is. -/
def misused : String :=
  "int x[3]; bool f(int x) { return x[0] == 1; } int main() { return 0; }"

theorem exists_of_parse_map {source : String} {empty : Bool}
    (h : (parse source).toOption.map (fun p => (checkProgram p).errors.isEmpty) = some empty) :
    ∃ p, parse source = .ok p ∧ (checkProgram p).errors.isEmpty = empty := by
  cases hp : parse source with
  | error e => rw [hp] at h; cases h
  | ok p => rw [hp] at h; exact ⟨p, rfl, Option.some.inj h⟩

/-- A program in which names hide one another is well-formed, and one that misuses a name is not. -/
theorem shadowing_wellFormed_misused_not :
    (∃ p, parse shadowing = .ok p ∧ p.WellFormed) ∧
      ∃ p, parse misused = .ok p ∧ ¬ p.WellFormed := by
  constructor
  · obtain ⟨p, hp, hempty⟩ :
        ∃ p, parse shadowing = .ok p ∧ (checkProgram p).errors.isEmpty = true :=
      exists_of_parse_map (by decide +kernel)
    obtain ⟨checked, hverdict, hiff⟩ :=
      checkText_accepts_iff_wellFormed shadowing p hp .default ""
    rw [checkText_verdict hp] at hverdict
    cases hverdict
    exact ⟨p, hp, hiff.mp hempty⟩
  · obtain ⟨p, hp, hempty⟩ : ∃ p, parse misused = .ok p ∧ (checkProgram p).errors.isEmpty = false :=
      exists_of_parse_map (by decide +kernel)
    obtain ⟨checked, hverdict, hiff⟩ := checkText_accepts_iff_wellFormed misused p hp .default ""
    rw [checkText_verdict hp] at hverdict
    cases hverdict
    exact ⟨p, hp, fun hwell => Bool.false_ne_true (hempty.symm.trans (hiff.mpr hwell))⟩

end Decaf
