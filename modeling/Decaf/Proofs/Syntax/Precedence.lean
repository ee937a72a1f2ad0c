import Mathlib.Data.Nat.Init
import Decaf.Proofs.Syntax.Grammar

/-!
# Chains of operators and the levels of the grammar

The grammar groups operators by levels, while expressions are read as flat chains
of operands that `Chain.assemble` settles level by level, tightest first. This
file shows that the two agree, in both directions:

> `ExprAt.of_chain`: the tree of a chain of operands is an expression.
> `ExprAt.settles`: every expression is the tree of a chain of operands.

Both rest on what a single pass of `Chain.settle` does. The pass of level `n` turns
operands of level `n + 1` into operands of level `n` (`ExprAt.settle`), and an
operator of a lower level divides a chain into two that are settled each for
itself (`Chain.settleFrom_append`).
-/

namespace Decaf

theorem BinaryOp.precedence_pos (op : BinaryOp) : 0 < op.precedence := by
  cases op <;> decide

theorem BinaryOp.precedence_lt (op : BinaryOp) : op.precedence < 7 := by
  cases op <;> decide

/-! ## Passes over a chain -/

namespace Chain

variable (join : BinaryOp → Expr → Expr → Expr)

theorem settle_cons_eq {level : Nat} {op : BinaryOp} (h : op.precedence = level)
    (first operand : Expr) (rest : Tail) :
    settle join level first ((op, operand) :: rest) =
      settle join level (join op first operand) rest := by
  rw [settle, if_pos h]

theorem settle_cons_ne {level : Nat} {op : BinaryOp} (h : op.precedence ≠ level)
    (first operand : Expr) (rest : Tail) :
    settle join level first ((op, operand) :: rest) =
      (first, (op, (settle join level operand rest).1) :: (settle join level operand rest).2) := by
  rw [settle, if_neg h]

/-- Settles the levels of a chain from 6 down to `n`. -/
def settleFrom (n : Nat) (first : Expr) (rest : Tail) : Expr × Tail :=
  (List.range' n (7 - n)).foldr (fun level c => settle join level c.1 c.2) (first, rest)

theorem settleFrom_lt {n : Nat} (h : n < 7) (first : Expr) (rest : Tail) :
    settleFrom join n first rest =
      settle join n (settleFrom join (n + 1) first rest).1
        (settleFrom join (n + 1) first rest).2 := by
  have hn : 7 - n = (7 - (n + 1)) + 1 := by omega
  rw [settleFrom, hn, List.range'_succ, List.foldr_cons]
  rfl

/-- A pass goes over the two sides of an operator of another level one by one. -/
theorem settle_append {level : Nat} {op : BinaryOp} (h : op.precedence ≠ level)
    (first operand : Expr) (left right : Tail) :
    settle join level first (left ++ (op, operand) :: right) =
      ((settle join level first left).1, (settle join level first left).2 ++
        (op, (settle join level operand right).1) :: (settle join level operand right).2) := by
  induction left generalizing first with
  | nil => exact settle_cons_ne join h first operand right
  | cons x left ih =>
    obtain ⟨op', e⟩ := x
    rw [List.cons_append]
    by_cases hx : op'.precedence = level
    · rw [settle_cons_eq join hx, settle_cons_eq join hx, ih]
    · rw [settle_cons_ne join hx, settle_cons_ne join hx, ih]
      rfl

theorem settleFrom_append {n : Nat} {op : BinaryOp} (h : op.precedence < n) (hn : n ≤ 7)
    (first operand : Expr) (left right : Tail) :
    settleFrom join n first (left ++ (op, operand) :: right) =
      ((settleFrom join n first left).1, (settleFrom join n first left).2 ++
        (op, (settleFrom join n operand right).1) :: (settleFrom join n operand right).2) := by
  induction hn using Nat.decreasingInduction with
  | self => rfl
  | of_succ n hlt ih =>
    have hne : op.precedence ≠ n := by omega
    rw [settleFrom_lt join hlt, ih (by omega), settle_append join hne,
      ← settleFrom_lt join hlt, ← settleFrom_lt join hlt]

/-- A pass takes the operators of its own level one after the other. -/
theorem settle_level_append {level : Nat} (first : Expr) (left right : Tail)
    (h : ∀ x ∈ left, x.1.precedence = level) :
    settle join level first (left ++ right) =
      settle join level (settle join level first left).1 right := by
  induction left generalizing first with
  | nil => rfl
  | cons x left ih =>
    have hx := h x (List.mem_cons_self ..)
    rw [List.cons_append, settle_cons_eq join hx, settle_cons_eq join hx]
    exact ih _ (fun y hy => h y (List.mem_cons_of_mem _ hy))

/-- The operators that a pass leaves are of another level, and stood in the
chain before. -/
theorem mem_settle {level : Nat} {first : Expr} {rest : Tail} {x : BinaryOp × Expr}
    (hx : x ∈ (settle join level first rest).2) :
    x.1.precedence ≠ level ∧ ∃ y ∈ rest, y.1 = x.1 := by
  induction rest generalizing first with
  | nil => cases hx
  | cons y rest ih =>
    obtain ⟨op, e⟩ := y
    by_cases hy : op.precedence = level
    · rw [settle_cons_eq join hy] at hx
      obtain ⟨hne, z, hz, hzx⟩ := ih hx
      exact ⟨hne, z, List.mem_cons_of_mem _ hz, hzx⟩
    · rw [settle_cons_ne join hy] at hx
      rcases List.mem_cons.mp hx with rfl | hx
      · exact ⟨hy, _, List.mem_cons_self .., rfl⟩
      · obtain ⟨hne, z, hz, hzx⟩ := ih hx
        exact ⟨hne, z, List.mem_cons_of_mem _ hz, hzx⟩

/-- Once the levels down to `n` are settled, the operators that are left are
those of the levels below. -/
theorem mem_settleFrom {n : Nat} (hn : n ≤ 7) {first : Expr} {rest : Tail} :
    ∀ x ∈ (settleFrom join n first rest).2, x.1.precedence < n ∧ ∃ y ∈ rest, y.1 = x.1 := by
  induction hn using Nat.decreasingInduction with
  | self =>
    intro x hx
    exact ⟨x.1.precedence_lt, x, hx, rfl⟩
  | of_succ n hlt ih =>
    intro x hx
    rw [settleFrom_lt join hlt] at hx
    obtain ⟨hne, y, hy, hyx⟩ := mem_settle join hx
    obtain ⟨hlt', z, hz, hzy⟩ := ih y hy
    rw [hyx] at hlt' hzy
    exact ⟨by omega, z, hz, hzy⟩

/-- The operands of a chain, each replaced. -/
def mapTail (f : Expr → Expr) (rest : Tail) : Tail :=
  rest.map fun x => (x.1, f x.2)

theorem map_settle {join join' : BinaryOp → Expr → Expr → Expr} {f : Expr → Expr}
    (hf : ∀ op l r, f (join op l r) = join' op (f l) (f r)) (level : Nat) (first : Expr)
    (rest : Tail) :
    (f (settle join level first rest).1, mapTail f (settle join level first rest).2) =
      settle join' level (f first) (mapTail f rest) := by
  induction rest generalizing first with
  | nil => rfl
  | cons x rest ih =>
    obtain ⟨op, e⟩ := x
    by_cases h : op.precedence = level
    · rw [settle_cons_eq join h, ih, hf]
      exact (settle_cons_eq join' h ..).symm
    · rw [settle_cons_ne join h]
      have hr := ih e
      exact (congrArg (fun c => (f first, (op, c.1) :: c.2)) hr).trans
        (settle_cons_ne join' h ..).symm

/-- Whatever commutes with joining commutes with settling a chain. -/
theorem map_assemble {join join' : BinaryOp → Expr → Expr → Expr} {f : Expr → Expr}
    (hf : ∀ op l r, f (join op l r) = join' op (f l) (f r)) (first : Expr) (rest : Tail) :
    f (assemble join first rest) = assemble join' (f first) (mapTail f rest) := by
  have settled : ∀ n ≤ 7, (f (settleFrom join n first rest).1,
      mapTail f (settleFrom join n first rest).2) =
      settleFrom join' n (f first) (mapTail f rest) := by
    intro n hn
    induction hn using Nat.decreasingInduction with
    | self => rfl
    | of_succ n hlt ih => rw [settleFrom_lt join hlt, map_settle hf, settleFrom_lt join' hlt, ← ih]
  exact congrArg Prod.fst (settled 1 (by omega))

end Chain

/-! ## Levels -/

namespace Grammar

/-- Joins two expressions by an operator. -/
def join (op : BinaryOp) (l r : Expr) : Expr :=
  .binary .nowhere none op l r

/-- The operators of a chain, each with the operand on its right, an expression
of level `n`. -/
inductive Operators (n : Nat) : Word → Chain.Tail → Word → Prop
  | nil {a : Word} : Operators n a [] a
  | cons {op : BinaryOp} {a b c : Word} {e : Expr} {rest : Chain.Tail} :
    ExprAt n a e b → Operators n b rest c → Operators n (.sign op.sign :: a) ((op, e) :: rest) c

theorem Operators.append {n : Nat} {a b c : Word} {left right : Chain.Tail}
    (hl : Operators n a left b) (hr : Operators n b right c) : Operators n a (left ++ right) c := by
  induction hl with
  | nil => exact hr
  | cons he _ ih => exact .cons he (ih hr)

/-- Settling the operators of level `n` makes expressions of level `n` out of
those of the level above. -/
theorem ExprAt.settle {n : Nat} (hn : n < 7) {a b c : Word} {first : Expr} {rest : Chain.Tail}
    (hf : ExprAt n a first b) (hr : Operators (n + 1) b rest c) :
    ∃ b', ExprAt n a (Chain.settle join n first rest).1 b' ∧
      Operators n b' (Chain.settle join n first rest).2 c := by
  induction rest generalizing a b first with
  | nil =>
    cases hr
    exact ⟨_, hf, .nil⟩
  | cons x rest ih =>
    obtain ⟨op, e⟩ := x
    cases hr with
    | cons he hrest =>
      by_cases hop : op.precedence = n
      · rw [Chain.settle_cons_eq join hop]
        exact ih (.binary hop hf he) hrest
      · rw [Chain.settle_cons_ne join hop]
        obtain ⟨b', hfirst, hrest'⟩ := ih (.tighter hn he) hrest
        exact ⟨_, hf, .cons hfirst hrest'⟩

/-- The tree of a chain of operands is an expression. -/
theorem ExprAt.of_chain {a b c : Word} {first : Expr} {rest : Chain.Tail}
    (hf : ExprAt 7 a first b) (hr : Operators 7 b rest c) :
    ExprAt 1 a (Chain.assemble join first rest) c := by
  have settled : ∀ n ≤ 7, ∃ b', ExprAt n a (Chain.settleFrom join n first rest).1 b' ∧
      Operators n b' (Chain.settleFrom join n first rest).2 c := by
    intro n hn
    induction hn using Nat.decreasingInduction with
    | self => exact ⟨b, hf, hr⟩
    | of_succ n hlt ih =>
      obtain ⟨b', hf', hr'⟩ := ih
      rw [Chain.settleFrom_lt join hlt]
      exact ExprAt.settle hlt (.tighter hlt hf') hr'
  obtain ⟨b', hf', hr'⟩ := settled 1 (by omega)
  -- no operator binds looser than level 1, so none is left
  have hnil : (Chain.settleFrom join 1 first rest).2 = [] := by
    rw [List.eq_nil_iff_forall_not_mem]
    intro x hx
    have hlt := (Chain.mem_settleFrom join (by omega) x hx).1
    have hpos := x.1.precedence_pos
    omega
  rw [hnil] at hr'
  cases hr'
  exact hf'

/-- Every expression of level `n` is what a chain of operands settles to, and
the operators of the chain bind at least as tightly as the level. -/
theorem ExprAt.settles : ∀ {n : Nat} {a c : Word} {e : Expr}, ExprAt n a e c → n ≤ 7 →
    ∃ first rest b, ExprAt 7 a first b ∧ Operators 7 b rest c ∧
      (∀ x ∈ rest, n ≤ x.1.precedence) ∧ Chain.settleFrom join n first rest = (e, [])
  | n, a, c, e, .tighter hlt h, _ => by
    obtain ⟨first, rest, b, hf, hr, hle, hs⟩ := ExprAt.settles h hlt
    refine ⟨first, rest, b, hf, hr, fun x hx => Nat.le_of_succ_le (hle x hx), ?_⟩
    rw [Chain.settleFrom_lt join hlt, hs]
    rfl
  | n, a, c, _, @ExprAt.binary _ op _ _ _ _ _ hop hl hr, hn => by
    have hlt : n < 7 := hop ▸ op.precedence_lt
    obtain ⟨first, left, b, hf, hleft, hle, hs⟩ := ExprAt.settles hl hn
    obtain ⟨operand, right, d, ho, hright, hle', hs'⟩ := ExprAt.settles hr hlt
    refine ⟨first, left ++ (op, operand) :: right, b, hf, hleft.append (.cons ho hright), ?_, ?_⟩
    · intro x hx
      rcases List.mem_append.mp hx with hx | hx
      · exact hle x hx
      · rcases List.mem_cons.mp hx with rfl | hx
        · exact Nat.le_of_eq hop.symm
        · exact Nat.le_of_succ_le (hle' x hx)
    · -- the levels above `n` settle either side of `op` for itself, and what is
      -- left on the left side is all of level `n`
      have hlevel : ∀ x ∈ (Chain.settleFrom join (n + 1) first left).2, x.1.precedence = n := by
        intro x hx
        obtain ⟨hlt', y, hy, hyx⟩ := Chain.mem_settleFrom join hlt x hx
        have := hle y hy
        rw [hyx] at this
        omega
      rw [Chain.settleFrom_lt join hlt] at hs
      rw [Chain.settleFrom_lt join hlt, Chain.settleFrom_append join (by omega) hlt, hs',
        Chain.settle_level_append join _ _ _ hlevel, hs, Chain.settle_cons_eq join hop]
      rfl
  | _, _, c, _, .unary h, _ =>
    ⟨_, [], c, .unary h, .nil, fun _ hx => absurd hx List.not_mem_nil, rfl⟩
  | _, _, c, e, .primary h, _ =>
    ⟨e, [], c, .primary h, .nil, fun _ hx => absurd hx List.not_mem_nil, rfl⟩

end Grammar

end Decaf
