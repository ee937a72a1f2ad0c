import Decaf.Proofs.Syntax.Acceptance

/-!
# The shape of the trees that are read

The types of trees allow more than the parser makes: an assignment to any
expression, a call statement around one that is no call, names that no text can
hold. `Program.WellShaped` says what a tree has to respect, and every tree that is
read does (`parse_wellShaped`). Nothing is written into such a tree either: it has
no types and no scopes yet (`parse_cleared`).

Both are facts about derivations. A tree that the grammar derives from well spelled
tokens is well shaped and carries no labels; a tree that was read differs from a
derived one only by its places.
-/

namespace Decaf

/-! ## Well shaped trees -/

/-- The types that a declaration can have. -/
def Ty.Declarable (ty : Ty) : Prop :=
  ty = .int ∨ ty = .bool ∨ ty = .void

/-- Integers are not negative and fit into 64 bits with a sign. -/
def Literal.InRange : Literal → Prop
  | .int n => 0 ≤ n ∧ n ≤ 9223372036854775807
  | .bool _ => True
  | .str _ => True

/-- Whether an expression is a variable or an element of an array. -/
def Expr.isLocation : Expr → Bool
  | .location .. => true
  | _ => false

/-- Whether an expression is a call. -/
def Expr.isCall : Expr → Bool
  | .call .. => true
  | _ => false

/-- Expressions that can be written down. -/
inductive Expr.WellShaped : Expr → Prop
  | literal {p : Place} {t : Option Ty} {v : Literal} :
    v.InRange → WellShaped (.literal p t v)
  | scalar {p : Place} {t : Option Ty} {x : String} :
    IsName x → WellShaped (.location p t x none)
  | element {p : Place} {t : Option Ty} {x : String} {i : Expr} :
    IsName x → WellShaped i → WellShaped (.location p t x (some i))
  | binary {p : Place} {t : Option Ty} {op : BinaryOp} {l r : Expr} :
    WellShaped l → WellShaped r → WellShaped (.binary p t op l r)
  | unary {p : Place} {t : Option Ty} {op : UnaryOp} {e : Expr} :
    WellShaped e → WellShaped (.unary p t op e)
  | call {p : Place} {t : Option Ty} {f : String} {args : List Expr} :
    IsName f → (∀ a ∈ args, WellShaped a) → WellShaped (.call p t f args)

/-- Declarations of variables that can be written down. -/
structure VarDecl.WellShaped (d : VarDecl) : Prop where
  name : IsName d.name
  type : d.type.Declarable
  length : ∀ n ∈ d.length, n ≤ 18446744073709551615

/-- Parameters that can be written down. -/
structure Param.WellShaped (p : Param) : Prop where
  name : IsName p.name
  type : p.type.Declarable

mutual

/-- Blocks that can be written down. -/
inductive Block.WellShaped : Block → Prop
  | mk {locals : List VarDecl} {statements : List Stmt} {p : Place} {scope : Option ScopeId} :
    (∀ d ∈ locals, d.WellShaped) → (∀ s ∈ statements, Stmt.WellShaped s) →
    Block.WellShaped ⟨locals, statements, p, scope⟩

/-- Statements that can be written down. -/
inductive Stmt.WellShaped : Stmt → Prop
  | assign {p : Place} {target value : Expr} :
    target.isLocation → target.WellShaped → value.WellShaped →
    Stmt.WellShaped (.assign p target value)
  | call {p : Place} {e : Expr} : e.isCall → e.WellShaped → Stmt.WellShaped (.call p e)
  | ifThen {p : Place} {test : Expr} {b : Block} :
    test.WellShaped → Block.WellShaped b → Stmt.WellShaped (.conditional p test b none)
  | ifElse {p : Place} {test : Expr} {b c : Block} :
    test.WellShaped → Block.WellShaped b → Block.WellShaped c →
    Stmt.WellShaped (.conditional p test b (some c))
  | loop {p : Place} {test : Expr} {b : Block} :
    test.WellShaped → Block.WellShaped b → Stmt.WellShaped (.loop p test b)
  | ret {p : Place} {value : Option Expr} :
    (∀ e ∈ value, e.WellShaped) → Stmt.WellShaped (.ret p value)
  | brk {p : Place} : Stmt.WellShaped (.break p)
  | cont {p : Place} : Stmt.WellShaped (.continue p)
  | inner {p : Place} {b : Block} : Block.WellShaped b → Stmt.WellShaped (.block p b)

end

/-- Functions that can be written down. -/
structure Function.WellShaped (f : Function) : Prop where
  name : IsName f.name
  returnType : f.returnType.Declarable
  params : ∀ p ∈ f.params, p.WellShaped
  body : f.body.WellShaped

/-- Programs that can be written down. -/
structure Program.WellShaped (p : Program) : Prop where
  globals : ∀ d ∈ p.globals, d.WellShaped
  functions : ∀ f ∈ p.functions, f.WellShaped

/-! ## Labels do not matter -/

theorem map_eq_self {α : Type} {f : α → α} {xs : List α} (h : ∀ x ∈ xs, f x = x) :
    xs.map f = xs :=
  (List.map_congr_left h).trans (List.map_id' xs)

/-- Whether an expression is well shaped does not depend on its labels. -/
theorem Expr.WellShaped.of_relabel {f : Relabel} {e : Expr} :
    (e.relabel f).WellShaped → e.WellShaped := by
  induction e using Expr.induction with
  | literal p t v =>
    rw [Expr.relabel]
    rintro (hv | _)
    exact .literal hv
  | scalar p t x =>
    rw [Expr.relabel]
    rintro (_ | hx)
    exact .scalar hx
  | element p t x i ih =>
    rw [Expr.relabel]
    rintro (_ | _ | ⟨hx, hi⟩)
    exact .element hx (ih hi)
  | binary p t op l r ihl ihr =>
    rw [Expr.relabel]
    rintro (_ | _ | _ | ⟨hl, hr⟩)
    exact .binary (ihl hl) (ihr hr)
  | unary p t op e ih =>
    rw [Expr.relabel]
    rintro (_ | _ | _ | _ | he)
    exact .unary (ih he)
  | call p t g args ih =>
    rw [Expr.relabel, relabelExprs_eq_map]
    rintro (_ | _ | _ | _ | _ | ⟨hg, hargs⟩)
    exact .call hg fun a ha => ih a ha (hargs _ (List.mem_map_of_mem ha))

/-- Labels do not make or unmake a location. -/
theorem Expr.isLocation_relabel (f : Relabel) (e : Expr) :
    (e.relabel f).isLocation = e.isLocation := by
  cases e using Expr.induction <;> rw [Expr.relabel] <;> rfl

theorem Expr.isCall_relabel (f : Relabel) (e : Expr) : (e.relabel f).isCall = e.isCall := by
  cases e using Expr.induction <;> rw [Expr.relabel] <;> rfl

/-- Nothing was written into an expression if nothing is in it once places are
forgotten. -/
theorem Expr.cleared_of_unplaced {e : Expr} :
    (e.relabel .unplaced).relabel .cleared = e.relabel .unplaced → e.relabel .cleared = e := by
  induction e using Expr.induction with
  | literal p t v =>
    simp only [Expr.relabel]
    intro h
    injection h with _ ht _
    rw [← show none = t from ht]
    rfl
  | scalar p t x =>
    simp only [Expr.relabel]
    intro h
    injection h with _ ht _
    rw [← show none = t from ht]
    rfl
  | element p t x i ih =>
    simp only [Expr.relabel]
    intro h
    injection h with _ ht _ hi
    rw [← show none = t from ht, ih (Option.some.inj hi)]
    rfl
  | binary p t op l r ihl ihr =>
    simp only [Expr.relabel]
    intro h
    injection h with _ ht _ hl hr
    rw [← show none = t from ht, ihl hl, ihr hr]
    rfl
  | unary p t op e ih =>
    simp only [Expr.relabel]
    intro h
    injection h with _ ht _ he
    rw [← show none = t from ht, ih he]
    rfl
  | call p t g args ih =>
    simp only [Expr.relabel, relabelExprs_eq_map, List.map_map]
    intro h
    injection h with _ ht _ hargs
    rw [← show none = t from ht]
    exact congrArg (Expr.call p none g)
      (map_eq_self fun a ha => ih a ha (List.map_inj_left.mp hargs a ha))

theorem VarDecl.WellShaped.of_relabel {f : Relabel} {d : VarDecl} (h : (d.relabel f).WellShaped) :
    d.WellShaped :=
  ⟨h.name, h.type, h.length⟩

theorem Param.WellShaped.of_relabel {f : Relabel} {p : Param} (h : (p.relabel f).WellShaped) :
    p.WellShaped :=
  ⟨h.name, h.type⟩

theorem of_forall_mem_map {α β : Type} {P : α → Prop} {Q : β → Prop} {f : α → β} {xs : List α}
    (hPQ : ∀ x ∈ xs, Q (f x) → P x) (h : ∀ y ∈ xs.map f, Q y) : ∀ x ∈ xs, P x :=
  fun x hx => hPQ x hx (h _ (List.mem_map_of_mem hx))

/-- The same for blocks and statements, by induction over both. -/
theorem wellShaped_of_relabel (f : Relabel) :
    (∀ b : Block, (b.relabel f).WellShaped → b.WellShaped) ∧
      ∀ s : Stmt, (s.relabel f).WellShaped → s.WellShaped := by
  refine Block.induction ?mk ?assign ?call ?ifThen ?ifElse ?loop ?ret ?brk ?cont ?inner
  case mk =>
    intro locals statements p scope ih h
    rw [Block.relabel, relabelStmts_eq_map] at h
    obtain ⟨hlocals, hstatements⟩ := h
    exact .mk (of_forall_mem_map (fun _ _ => .of_relabel) hlocals)
      (of_forall_mem_map ih hstatements)
  case assign =>
    intro p target value h
    rw [Stmt.relabel] at h
    cases h with
    | assign hl ht hv =>
      rw [Expr.isLocation_relabel] at hl
      exact .assign hl ht.of_relabel hv.of_relabel
  case call =>
    intro p e h
    rw [Stmt.relabel] at h
    cases h with
    | call hc he =>
      rw [Expr.isCall_relabel] at hc
      exact .call hc he.of_relabel
  case ifThen =>
    intro p test b ihb h
    rw [Stmt.relabel] at h
    cases h with
    | ifThen ht hb => exact .ifThen ht.of_relabel (ihb hb)
  case ifElse =>
    intro p test b c ihb ihc h
    rw [Stmt.relabel] at h
    cases h with
    | ifElse ht hb hc => exact .ifElse ht.of_relabel (ihb hb) (ihc hc)
  case loop =>
    intro p test b ihb h
    rw [Stmt.relabel] at h
    cases h with
    | loop ht hb => exact .loop ht.of_relabel (ihb hb)
  case ret =>
    intro p value h
    rw [Stmt.relabel] at h
    cases h with
    | ret hv => exact .ret fun e he => (hv _ (Option.mem_map_of_mem _ he)).of_relabel
  case brk =>
    intro p _
    exact .brk
  case cont =>
    intro p _
    exact .cont
  case inner =>
    intro p b ihb h
    rw [Stmt.relabel] at h
    cases h with
    | inner hb => exact .inner (ihb hb)

/-- If no types and scopes are there once places are left out, then none were there before. -/
theorem cleared_of_unplaced :
    (∀ b : Block, (b.relabel .unplaced).relabel .cleared = b.relabel .unplaced →
        b.relabel .cleared = b) ∧
      ∀ s : Stmt, (s.relabel .unplaced).relabel .cleared = s.relabel .unplaced →
        s.relabel .cleared = s := by
  refine Block.induction ?mk ?assign ?call ?ifThen ?ifElse ?loop ?ret ?brk ?cont ?inner
  case mk =>
    intro locals statements p scope ih h
    simp only [Block.relabel, relabelStmts_eq_map, List.map_map] at h ⊢
    injection h with _ hstatements _ hscope
    have hlocals : locals.map (·.relabel .cleared) = locals := map_eq_self fun _ _ => rfl
    rw [map_eq_self fun s hs => ih s hs (List.map_inj_left.mp hstatements s hs), hlocals,
      ← show none = scope from hscope]
    rfl
  case assign =>
    intro p target value h
    simp only [Stmt.relabel] at h ⊢
    injection h with _ ht hv
    rw [Expr.cleared_of_unplaced ht, Expr.cleared_of_unplaced hv]
    rfl
  case call =>
    intro p e h
    simp only [Stmt.relabel] at h ⊢
    injection h with _ he
    rw [Expr.cleared_of_unplaced he]
    rfl
  case ifThen =>
    intro p test b ihb h
    simp only [Stmt.relabel] at h ⊢
    injection h with _ ht hb _
    rw [Expr.cleared_of_unplaced ht, ihb hb]
    rfl
  case ifElse =>
    intro p test b c ihb ihc h
    simp only [Stmt.relabel] at h ⊢
    injection h with _ ht hb hc
    rw [Expr.cleared_of_unplaced ht, ihb hb, ihc (Option.some.inj hc)]
    rfl
  case loop =>
    intro p test b ihb h
    simp only [Stmt.relabel] at h ⊢
    injection h with _ ht hb
    rw [Expr.cleared_of_unplaced ht, ihb hb]
    rfl
  case ret =>
    intro p value h
    simp only [Stmt.relabel] at h ⊢
    injection h with _ hv
    cases value with
    | none => rfl
    | some e =>
      rw [Option.map_some, Expr.cleared_of_unplaced (Option.some.inj hv)]
      rfl
  case brk =>
    intro p _
    rw [Stmt.relabel]
    rfl
  case cont =>
    intro p _
    rw [Stmt.relabel]
    rfl
  case inner =>
    intro p b ihb h
    simp only [Stmt.relabel] at h ⊢
    injection h with _ hb
    rw [ihb hb]
    rfl

theorem Function.WellShaped.of_relabel {r : Relabel} {f : Function}
    (h : (f.relabel r).WellShaped) : f.WellShaped :=
  ⟨h.name, h.returnType, of_forall_mem_map (fun _ _ => .of_relabel) h.params,
    (wellShaped_of_relabel r).1 f.body h.body⟩

/-- Whether a program is well shaped does not depend on its labels. -/
theorem Program.WellShaped.of_relabel {r : Relabel} {p : Program} (h : (p.relabel r).WellShaped) :
    p.WellShaped :=
  ⟨of_forall_mem_map (fun _ _ => .of_relabel) h.globals,
    of_forall_mem_map (fun _ _ => .of_relabel) h.functions⟩

theorem Function.cleared_of_unplaced {f : Function}
    (h : (f.relabel .unplaced).relabel .cleared = f.relabel .unplaced) :
    f.relabel .cleared = f := by
  obtain ⟨name, returnType, params, body, place, scope⟩ := f
  injection h with _ _ _ hbody _ hscope
  have hparams : params.map (·.relabel .cleared) = params := map_eq_self fun _ _ => rfl
  rw [Function.relabel, Decaf.cleared_of_unplaced.1 body hbody, hparams,
    ← show none = scope from hscope]
  rfl

/-! ## Derived trees -/

namespace Grammar

/-- Every token of the row is well spelled. -/
def Spelled (a : Word) : Prop :=
  ∀ k ∈ a, k.WellSpelled

/-- What comes later in a well spelled row is well spelled. Derivations go from rows to suffixes,
so this is all that is needed of a row. -/
theorem Spelled.suffix {a b : Word} (h : Spelled a) (hb : b <:+ a) : Spelled b :=
  fun k hk => h k (hb.mem hk)

theorem Spelled.tail {k : Token.Kind} {a : Word} (h : Spelled (k :: a)) : Spelled a :=
  h.suffix (List.suffix_cons k a)

/-- A name in a well spelled row is a name. -/
theorem Spelled.name {x : String} {a : Word} (h : Spelled (.identifier x :: a)) : IsName x :=
  h _ List.mem_cons_self

/-- What a word of the grammar names can be declared. -/
theorem TypeName.declarable {k : Token.Kind} {ty : Ty} (h : TypeName k ty) : ty.Declarable := by
  cases h with
  | int => exact .inl rfl
  | bool => exact .inr (.inl rfl)
  | void => exact .inr (.inr rfl)

/-- A literal denotes a value that is in range. -/
theorem Denotes.inRange {k : Token.Kind} {v : Literal} (h : Denotes k v) : v.InRange := by
  cases h with
  | dec hle => exact ⟨Int.natCast_nonneg _, by omega⟩
  | hex hle => exact ⟨Int.natCast_nonneg _, by omega⟩
  | _ => exact trivial

mutual

/-- From well spelled tokens the grammar derives well shaped expressions without labels. All forms
of expressions are followed together. -/
theorem ExprAt.shaped : ∀ {n : Nat} {a b : Word} {e : Expr}, ExprAt n a e b → Spelled a →
    e.WellShaped ∧ e.relabel .cleared = e
  | _, _, _, _, .tighter _ h => fun hs => h.shaped hs
  | _, _, _, _, .binary _ hl hr => by
    intro hs
    obtain ⟨hl₁, hl₂⟩ := hl.shaped hs
    obtain ⟨hr₁, hr₂⟩ := hr.shaped (hs.suffix hl.suffix).tail
    exact ⟨.binary hl₁ hr₁, by rw [Expr.relabel, hl₂, hr₂]; rfl⟩
  | _, _, _, _, .unary h => by
    intro hs
    obtain ⟨h₁, h₂⟩ := h.shaped hs.tail
    exact ⟨.unary h₁, by rw [Expr.relabel, h₂]; rfl⟩
  | _, _, _, _, .primary h => fun hs => h.shaped hs

theorem Primary.shaped : ∀ {a b : Word} {e : Expr}, Primary a e b → Spelled a →
    e.WellShaped ∧ e.relabel .cleared = e
  | _, _, _, .parens h => fun hs => h.shaped hs.tail
  | _, _, _, .literal h => fun _ => ⟨.literal h.inRange, by rw [Expr.relabel]; rfl⟩
  | _, _, _, .location h => fun hs => h.shaped hs
  | _, _, _, .call h => fun hs => h.shaped hs

theorem Location.shaped : ∀ {a b : Word} {e : Expr}, Location a e b → Spelled a →
    e.WellShaped ∧ e.relabel .cleared = e
  | _, _, _, .scalar => fun hs => ⟨.scalar hs.name, by rw [Expr.relabel]; rfl⟩
  | _, _, _, .element h => by
    intro hs
    obtain ⟨h₁, h₂⟩ := h.shaped hs.tail.tail
    exact ⟨.element hs.name h₁, by rw [Expr.relabel, h₂]; rfl⟩

theorem Call.shaped : ∀ {a b : Word} {e : Expr}, Call a e b → Spelled a →
    e.WellShaped ∧ e.relabel .cleared = e
  | _, _, _, .mk h => by
    intro hs
    have hargs := h.shaped hs.tail.tail
    refine ⟨.call hs.name fun a ha => (hargs a ha).1, ?_⟩
    rw [Expr.relabel, relabelExprs_eq_map, map_eq_self fun a ha => (hargs a ha).2]
    rfl

theorem Arguments.shaped : ∀ {a b : Word} {es : List Expr}, Arguments a es b → Spelled a →
    ∀ e ∈ es, e.WellShaped ∧ e.relabel .cleared = e
  | _, _, _, .none => fun _ _ he => absurd he List.not_mem_nil
  | _, _, _, .some h => fun hs => h.shaped hs

theorem ArgumentList.shaped : ∀ {a b : Word} {es : List Expr}, ArgumentList a es b → Spelled a →
    ∀ e ∈ es, e.WellShaped ∧ e.relabel .cleared = e
  | _, _, _, .one h => by
    intro hs e he
    rw [List.mem_singleton.mp he]
    exact h.shaped hs
  | _, _, _, .more h hmore => by
    intro hs e he
    rcases List.mem_cons.mp he with he | he
    · rw [he]
      exact h.shaped hs
    · exact hmore.shaped (hs.suffix h.suffix).tail e he

end

/-- What the grammar derives as a location is one. -/
theorem Location.isLocation {a b : Word} {e : Expr} (h : Location a e b) : e.isLocation := by
  cases h <;> rfl

/-- What the grammar derives as a call is one. -/
theorem Call.isCall {a b : Word} {e : Expr} (h : Call a e b) : e.isCall := by
  cases h
  rfl

/-- A declaration that is derived has a name and a type that can be declared. -/
theorem Variable.shaped {a b : Word} {d : VarDecl} (h : Variable a d b) (hs : Spelled a) :
    d.WellShaped := by
  cases h with
  | scalar hk => exact ⟨hs.tail.name, hk.declarable, fun _ hn => absurd hn (by simp)⟩
  | array hk hle =>
    refine ⟨hs.tail.name, hk.declarable, fun n hn => ?_⟩
    cases hn
    omega

theorem Variables.shaped {a b : Word} {ds : List VarDecl} (h : Variables a ds b) (hs : Spelled a) :
    ∀ d ∈ ds, d.WellShaped := by
  induction h with
  | nil => exact fun _ hd => absurd hd List.not_mem_nil
  | cons h _ ih =>
    intro d hd
    rcases List.mem_cons.mp hd with rfl | hd
    · exact h.shaped hs
    · exact ih (hs.suffix h.suffix) d hd

mutual

/-- The same for blocks and statements; the targets of assignments are locations because the rule
says so. -/
theorem Braces.shaped : ∀ {a c : Word} {b : Block}, Braces a b c → Spelled a →
    b.WellShaped ∧ b.relabel .cleared = b
  | _, _, _, .mk hv hs => by
    intro h
    have hlocals := hv.shaped h.tail
    have hstatements := hs.shaped (h.tail.suffix hv.suffix)
    refine ⟨.mk hlocals fun s hs => (hstatements s hs).1, ?_⟩
    rw [Block.relabel, relabelStmts_eq_map, map_eq_self fun s hs => (hstatements s hs).2]
    exact congrArg (Block.mk · _ _ _) (map_eq_self fun _ _ => rfl)

theorem Statement.shaped : ∀ {a b : Word} {s : Stmt}, Statement a s b → Spelled a →
    s.WellShaped ∧ s.relabel .cleared = s
  | _, _, _, .assign ht hv => by
    intro h
    obtain ⟨ht₁, ht₂⟩ := ht.shaped h
    obtain ⟨hv₁, hv₂⟩ := hv.shaped (h.suffix ht.suffix).tail
    exact ⟨.assign ht.isLocation ht₁ hv₁, by rw [Stmt.relabel, ht₂, hv₂]; rfl⟩
  | _, _, _, .call hc => by
    intro h
    obtain ⟨hc₁, hc₂⟩ := hc.shaped h
    exact ⟨.call hc.isCall hc₁, by rw [Stmt.relabel, hc₂]; rfl⟩
  | _, _, _, .ifThen ht hb => by
    intro h
    obtain ⟨ht₁, ht₂⟩ := ht.shaped h.tail.tail
    obtain ⟨hb₁, hb₂⟩ := hb.shaped (h.tail.tail.suffix ht.suffix).tail
    exact ⟨.ifThen ht₁ hb₁, by rw [Stmt.relabel, ht₂, hb₂]; rfl⟩
  | _, _, _, .ifElse ht hb hc => by
    intro h
    have h' := (h.tail.tail.suffix ht.suffix).tail
    obtain ⟨ht₁, ht₂⟩ := ht.shaped h.tail.tail
    obtain ⟨hb₁, hb₂⟩ := hb.shaped h'
    obtain ⟨hc₁, hc₂⟩ := hc.shaped (h'.suffix hb.suffix).tail
    exact ⟨.ifElse ht₁ hb₁ hc₁, by rw [Stmt.relabel, ht₂, hb₂, hc₂]; rfl⟩
  | _, _, _, .loop ht hb => by
    intro h
    obtain ⟨ht₁, ht₂⟩ := ht.shaped h.tail.tail
    obtain ⟨hb₁, hb₂⟩ := hb.shaped (h.tail.tail.suffix ht.suffix).tail
    exact ⟨.loop ht₁ hb₁, by rw [Stmt.relabel, ht₂, hb₂]; rfl⟩
  | _, _, _, .give hv => by
    intro h
    obtain ⟨hv₁, hv₂⟩ := hv.shaped h.tail
    refine ⟨.ret fun e he => ?_, by rw [Stmt.relabel, Option.map_some, hv₂]; rfl⟩
    rw [← Option.some.inj he]
    exact hv₁
  | _, _, _, .giveNothing => fun _ =>
    ⟨.ret fun _ he => absurd he (by simp), by rw [Stmt.relabel]; rfl⟩
  | _, _, _, .leave => fun _ => ⟨.brk, by rw [Stmt.relabel]; rfl⟩
  | _, _, _, .again => fun _ => ⟨.cont, by rw [Stmt.relabel]; rfl⟩
  | _, _, _, .braces hb => by
    intro h
    obtain ⟨hb₁, hb₂⟩ := hb.shaped h
    exact ⟨.inner hb₁, by rw [Stmt.relabel, hb₂]; rfl⟩

theorem Statements.shaped : ∀ {a b : Word} {ss : List Stmt}, Statements a ss b → Spelled a →
    ∀ s ∈ ss, s.WellShaped ∧ s.relabel .cleared = s
  | _, _, _, .nil => fun _ _ hs => absurd hs List.not_mem_nil
  | _, _, _, .cons h hmore => by
    intro ha s hs
    rcases List.mem_cons.mp hs with hs | hs
    · rw [hs]
      exact h.shaped ha
    · exact hmore.shaped (ha.suffix h.suffix) s hs

end

/-- Parameters that are derived are well shaped. -/
theorem ParameterList.shaped {a b : Word} {ps : List Param} (h : ParameterList a ps b)
    (hs : Spelled a) : ∀ p ∈ ps, p.WellShaped := by
  induction h with
  | one hk =>
    intro p hp
    rw [List.mem_singleton.mp hp]
    exact ⟨hs.tail.name, hk.declarable⟩
  | more hk _ ih =>
    intro p hp
    rcases List.mem_cons.mp hp with rfl | hp
    · exact ⟨hs.tail.name, hk.declarable⟩
    · exact ih hs.tail.tail.tail p hp

theorem Parameters.shaped {a b : Word} {ps : List Param} (h : Parameters a ps b)
    (hs : Spelled a) : ∀ p ∈ ps, p.WellShaped := by
  cases h with
  | none => exact fun _ hp => absurd hp List.not_mem_nil
  | some h => exact h.shaped hs

/-- A global variable that is derived is well shaped. -/
theorem Item.shaped_global {a b : Word} {d : VarDecl} (h : Item a (.global d) b) (hs : Spelled a) :
    d.WellShaped := by
  cases h with
  | global h => exact h.shaped hs

/-- A function that is derived is well shaped, and has no scope yet. -/
theorem Item.shaped_function {a b : Word} {f : Function} (h : Item a (.function f) b)
    (hs : Spelled a) : f.WellShaped ∧ f.relabel .cleared = f := by
  cases h with
  | function hk hp hb =>
    have hs' := hs.tail.tail.tail
    obtain ⟨hb₁, hb₂⟩ := hb.shaped (hs'.suffix hp.suffix).tail
    refine ⟨⟨hs.tail.name, hk.declarable, hp.shaped hs', hb₁⟩, ?_⟩
    rw [Function.relabel, hb₂]
    exact congrArg (Function.mk _ _ · _ _ _) (map_eq_self fun _ _ => rfl)

/-- Each item of a program is derived from well spelled tokens. -/
theorem Items.mem {a : Word} {ts : List Parser.TopLevel} (h : Items a ts) (hs : Spelled a) :
    ∀ t ∈ ts, ∃ b c, Item b t c ∧ Spelled b := by
  induction h with
  | nil => exact fun _ ht => absurd ht List.not_mem_nil
  | plain h _ ih =>
    intro t ht
    rcases List.mem_cons.mp ht with rfl | ht
    · exact ⟨_, _, h, hs⟩
    · exact ih (hs.suffix h.suffix) t ht
  | defined h _ ih =>
    intro t ht
    rcases List.mem_cons.mp ht with rfl | ht
    · exact ⟨_, _, h, hs.tail⟩
    · exact ih (hs.tail.suffix h.suffix) t ht

/-- The program that is derived from a text is well shaped, and nothing is written
into it. -/
theorem Derives.shaped {source : String} {items : List Parser.TopLevel} (h : Derives source items) :
    (program items).WellShaped ∧ ∀ f ∈ (program items).functions, f.relabel .cleared = f := by
  obtain ⟨tokens, last, ht, _, hitems⟩ := h
  obtain ⟨_, rfl, _⟩ := tokenize_eq_ok_iff.mp ht
  have hspelled : Spelled (kinds (Stream.ofSource source).tokens) := by
    intro k hk
    obtain ⟨t, ht, rfl⟩ := List.mem_map.mp hk
    exact Stream.scan_wellSpelled 0 source.toList t ht
  have hmem := hitems.mem hspelled
  have hglobal : ∀ d ∈ (program items).globals, d.WellShaped := by
    intro d hd
    obtain ⟨t, ht, hd⟩ := List.mem_filterMap.mp hd
    obtain ⟨_, _, hitem, hs⟩ := hmem t ht
    cases t with
    | global d' =>
      cases hd
      exact hitem.shaped_global hs
    | function f => cases hd
  have hfunction : ∀ f ∈ (program items).functions, f.WellShaped ∧ f.relabel .cleared = f := by
    intro f hf
    obtain ⟨t, ht, hf⟩ := List.mem_filterMap.mp hf
    obtain ⟨_, _, hitem, hs⟩ := hmem t ht
    cases t with
    | global d => cases hf
    | function f' =>
      cases hf
      exact hitem.shaped_function hs
  exact ⟨⟨hglobal, fun f hf => (hfunction f hf).1⟩, fun f hf => (hfunction f hf).2⟩

end Grammar

/-- Every tree that is read from a text is well shaped. -/
theorem parse_wellShaped {source : String} {p : Program} (h : parse source = .ok p) :
    p.WellShaped := by
  obtain ⟨items, hitems, htree⟩ := parse_derives h
  exact .of_relabel (htree ▸ hitems.shaped.1)

/-- A tree that is read from a text has no types and no scopes in it. -/
theorem parse_cleared {source : String} {p : Program} (h : parse source = .ok p) :
    p.relabel .cleared = p := by
  obtain ⟨items, hitems, htree⟩ := parse_derives h
  obtain ⟨_, hcleared⟩ := hitems.shaped
  rw [← htree] at hcleared
  obtain ⟨globals, functions, place, scope⟩ := p
  have hscope : scope = none := congrArg Program.scope htree
  have hglobals : globals.map (·.relabel .cleared) = globals := map_eq_self fun _ _ => rfl
  have hfunctions : functions.map (·.relabel .cleared) = functions :=
    map_eq_self fun f hf => Function.cleared_of_unplaced (hcleared _ (List.mem_map_of_mem hf))
  rw [Program.relabel, hglobals, hfunctions, hscope]
  rfl

/-- A tree that is read from a text has no types in it. -/
theorem parse_untyped {source : String} {p : Program} (h : parse source = .ok p) :
    p.relabel .untyped = p :=
  calc p.relabel .untyped
    _ = (p.relabel .cleared).relabel .untyped := by rw [parse_cleared h]
    _ = p.relabel .cleared := p.relabel_relabel .untyped .cleared
    _ = p := parse_cleared h

end Decaf
