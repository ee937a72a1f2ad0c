import Decaf.Proofs.Syntax.Climbing

/-!
# How a chain of operands is grouped

Operands with operators between them can be grouped in many ways. A `Grouping` is one of
them: read from left to right it is the chain again (`first` and `rest`), and its operators are
those of the chain only, not those that an operand has inside its parentheses. It follows the
precedences if every operator has none on its left that binds more loosely and only tighter
ones on its right (`ByPrecedence`).

There is exactly one such grouping of a chain. That there is one is read off the loop that
climbs precedences: it passes a half-built tree on, whose operators all bind at least as
tightly as the next one (`exists_settled`). That there is no other holds because the operator
at the top must be the last of the loosest ones (`ByPrecedence.unique`). Reading an expression
builds it, wherever the chain stands and however long it is (`Parser.expr_grouped`).
-/

namespace Decaf

/-- A way to group a chain: operands, joined by its operators. -/
inductive Grouping where
  | operand (e : Expr)
  | node (op : BinaryOp) (left right : Grouping)

namespace Grouping

/-- The leftmost operand. -/
def first : Grouping → Expr
  | operand e => e
  | node _ l _ => l.first

/-- The operators from left to right, each with the operand behind it. -/
def rest : Grouping → Chain.Tail
  | operand _ => []
  | node op l r => l.rest ++ (op, r.first) :: r.rest

/-- The tree of a grouping. -/
def tree (join : BinaryOp → Expr → Expr → Expr) : Grouping → Expr
  | operand e => e
  | node op l r => join op (l.tree join) (r.tree join)

/-- On the left of every operator there are none that bind more loosely, and on its right
only tighter ones. -/
def ByPrecedence : Grouping → Prop
  | operand _ => True
  | node op l r =>
    (∀ x ∈ l.rest, op.precedence ≤ x.1.precedence) ∧
    (∀ x ∈ r.rest, op.precedence < x.1.precedence) ∧ l.ByPrecedence ∧ r.ByPrecedence

instance decidableByPrecedence : (g : Grouping) → Decidable g.ByPrecedence
  | operand _ => isTrue trivial
  | node _ l r =>
    have := decidableByPrecedence l
    have := decidableByPrecedence r
    inferInstanceAs (Decidable (_ ∧ _ ∧ _ ∧ _))

/-! ## There is only one -/

/-- Of two operators that stand on each other's far side, neither can be at the top. -/
theorem not_crossed {op op' : BinaryOp} {l r l' r' : Grouping} {between : Chain.Tail}
    (h : (node op l r).ByPrecedence) (h' : (node op' l' r').ByPrecedence)
    (hleft : l'.rest = l.rest ++ (op, r.first) :: between)
    (hright : r.rest = between ++ (op', r'.first) :: r'.rest) : False := by
  have hle : op'.precedence ≤ op.precedence := by
    refine h'.1 (op, r.first) ?_
    rw [hleft]
    exact List.mem_append_right _ List.mem_cons_self
  have hlt : op.precedence < op'.precedence := by
    refine h.2.1 (op', r'.first) ?_
    rw [hright]
    exact List.mem_append_right _ List.mem_cons_self
  omega

/-- The operator at the top divides the chain at one point only. -/
theorem node_divides {op op' : BinaryOp} {l r l' r' : Grouping}
    (h : (node op l r).ByPrecedence) (h' : (node op' l' r').ByPrecedence)
    (hrest : (node op l r).rest = (node op' l' r').rest) :
    l.rest = l'.rest ∧ op = op' ∧ r.first = r'.first ∧ r.rest = r'.rest := by
  rcases List.append_eq_append_iff.mp hrest with ⟨between, hleft, hright⟩ | ⟨between, hleft, hright⟩
  · cases between with
    | nil =>
      rw [List.append_nil] at hleft
      injection hright with htop hrest
      injection htop with hop hfirst
      exact ⟨hleft.symm, hop, hfirst, hrest⟩
    | cons x between =>
      injection hright with htop hrest
      subst htop
      exact (not_crossed h h' hleft hrest).elim
  · cases between with
    | nil =>
      rw [List.append_nil] at hleft
      injection hright with htop hrest
      injection htop with hop hfirst
      exact ⟨hleft, hop.symm, hfirst.symm, hrest.symm⟩
    | cons x between =>
      injection hright with htop hrest
      subst htop
      exact (not_crossed h' h hleft hrest).elim

/-- A chain is grouped by precedence in one way. -/
theorem ByPrecedence.unique {g g' : Grouping} (h : g.ByPrecedence) (h' : g'.ByPrecedence)
    (hfirst : g.first = g'.first) (hrest : g.rest = g'.rest) : g = g' := by
  induction g generalizing g' with
  | operand e =>
    cases g' with
    | operand e' => exact congrArg operand hfirst
    | node op' l' r' =>
      exact absurd hrest.symm (List.append_ne_nil_of_right_ne_nil _ (List.cons_ne_nil _ _))
  | node op l r ihl ihr =>
    cases g' with
    | operand e' =>
      exact absurd hrest (List.append_ne_nil_of_right_ne_nil _ (List.cons_ne_nil _ _))
    | node op' l' r' =>
      obtain ⟨hl, rfl, hmid, hr⟩ := node_divides h h' hrest
      rw [ihl h.2.2.1 h'.2.2.1 hfirst hl, ihr h.2.2.2 h'.2.2.2 hmid hr]

end Grouping

/-! ## There is one -/

namespace Chain

variable (join : BinaryOp → Expr → Expr → Expr)

/-- The operators at the front of a chain that bind at least as tightly as `n`. -/
theorem exists_divided (n : Nat) (chain : Tail) :
    ∃ high low, chain = high ++ low ∧ (∀ x ∈ high, n ≤ x.1.precedence) ∧ Yields n low := by
  induction chain with
  | nil => exact ⟨[], [], rfl, fun _ h => absurd h List.not_mem_nil, fun _ h => by cases h⟩
  | cons x chain ih =>
    by_cases hx : n ≤ x.1.precedence
    · obtain ⟨high, low, rfl, hhigh, hlow⟩ := ih
      exact ⟨x :: high, low, rfl, List.forall_mem_cons.mpr ⟨hx, hhigh⟩, hlow⟩
    · refine ⟨[], x :: chain, rfl, fun _ h => absurd h List.not_mem_nil, fun y hy => ?_⟩
      cases hy
      exact Nat.lt_of_not_le hx

/-- A half-built tree and what is left of a chain are settled to a grouping of both, if the
first operator that is left binds no tighter than those of the tree. -/
theorem exists_settled {n : Nat} {chain : Tail} (hchain : ∀ x ∈ chain, n ≤ x.1.precedence)
    (left : Grouping) (hleft : left.ByPrecedence)
    (hnext : ∀ y, chain.head? = some y → ∀ x ∈ left.rest, y.1.precedence ≤ x.1.precedence) :
    ∃ g : Grouping, g.first = left.first ∧ g.rest = left.rest ++ chain ∧ g.ByPrecedence ∧
      (settleFrom join n (left.tree join) chain).1 = g.tree join := by
  cases chain with
  | nil => exact ⟨left, rfl, (List.append_nil _).symm, hleft, by rw [settleFrom_nil]⟩
  | cons x chain =>
    obtain ⟨op, e⟩ := x
    obtain ⟨high, low, rfl, hhigh, hlow⟩ := exists_divided (op.precedence + 1) chain
    obtain ⟨hop, htail⟩ := List.forall_mem_cons.mp hchain
    have hlength : ((op, e) :: (high ++ low)).length = high.length + low.length + 1 := by
      rw [List.length_cons, List.length_append]
    -- the tighter operators make the right operand
    obtain ⟨right, hfirst, hrest, hright, hsettled⟩ := exists_settled hhigh
      (.operand e) trivial fun _ _ _ hx => absurd hx List.not_mem_nil
    change right.first = e at hfirst
    change right.rest = high at hrest
    have htop : (Grouping.node op left right).ByPrecedence :=
      ⟨hnext (op, e) rfl, by rw [hrest]; exact hhigh, hleft, hright⟩
    -- the next operator yields to this one, and this one to all that were joined before
    have hyields : ∀ y, low.head? = some y →
        ∀ x ∈ (Grouping.node op left right).rest, y.1.precedence ≤ x.1.precedence := by
      intro y hy x hx
      have hlt := hlow y hy
      rcases List.mem_append.mp hx with hx | hx
      · have := htop.1 x hx
        omega
      · rcases List.mem_cons.mp hx with rfl | hx
        · exact Nat.le_of_lt_succ hlt
        · have := htop.2.1 x hx
          omega
    obtain ⟨g, hgfirst, hgrest, hg, hgsettled⟩ := exists_settled
      (List.forall_mem_append.mp htail).2 (.node op left right) htop hyields
    refine ⟨g, hgfirst, ?_, hg, ?_⟩
    · rw [hgrest, Grouping.rest, hrest, hfirst, List.append_assoc, List.cons_append]
    · rw [settleFrom_cons join hhigh hlow _ e hop, ← hgsettled, Grouping.tree, ← hsettled]
      rfl
termination_by chain.length

/-- The tree of a chain is that of a grouping by precedence. -/
theorem exists_grouping (first : Expr) (chain : Tail) :
    ∃ g : Grouping, g.first = first ∧ g.rest = chain ∧ g.ByPrecedence ∧
      assemble join first chain = g.tree join :=
  exists_settled join (n := 1) (fun x _ => x.1.precedence_pos) (.operand first) trivial
    fun _ _ _ hx => absurd hx List.not_mem_nil

end Chain

/-! ## Reading -/

namespace Parser

open Grammar

/-- From `tokens` up to `mid` stand operands that can be read, with operators between
them. -/
inductive Operands (r : Reading) : List Token → Expr → Chain.Tail → List Token → Prop
  | one {tokens mid : List Token} {e : Expr} :
    Gives (operand r tokens) e mid → Operands r tokens e [] mid
  | more {tokens after mid : List Token} {e next : Expr} {t : Token} {op : BinaryOp}
    {chain : Chain.Tail} :
    Gives (operand r tokens) e (t :: after) → t.kind = .sign op.sign →
    Operands r after next chain mid → Operands r tokens e ((op, next) :: chain) mid

variable {r : Reading} {tokens mid : List Token} {first : Expr} {chain : Chain.Tail}

/-- There is a token to be read where there is an operand. -/
theorem Operands.reach (h : Operands r tokens first chain mid) : r.reach tokens = .ok () := by
  have hlt : ∃ rest : List Token, rest.length < tokens.length := by
    cases h with
    | one he => exact ⟨_, he.length_lt⟩
    | more he _ _ => exact ⟨_, he.length_lt⟩
  cases tokens with
  | nil =>
    obtain ⟨rest, hlt⟩ := hlt
    exact absurd hlt (Nat.not_lt_zero _)
  | cons t rest => rfl

/-- A chain that nothing extends is read as such. -/
theorem Operands.gives (h : Operands r tokens first chain mid)
    (hend : ∀ op : BinaryOp, (kinds mid).head? ≠ some (.sign op.sign)) :
    ∃ rest, Gives (operand r tokens) first rest ∧ Gives (operators r rest) chain mid := by
  induction h with
  | one he => exact ⟨_, he, operators_gives.mpr (.inl ⟨hend, rfl, rfl⟩)⟩
  | @more tokens after mid e next t op chain he ht hmore ih =>
    obtain ⟨rest, hnext, hchain⟩ := ih hend
    exact ⟨_, he, operators_gives.mpr
      (.inr ⟨op, t, after, next, rest, chain, ⟨rfl, ht, hmore.reach⟩, hnext, hchain, rfl⟩)⟩

/-- Expressions are grouped by precedence. Where operands stand with operators between them,
and no operator behind, reading an expression takes exactly these and gives the tree of the
one grouping of the chain that follows the precedences; so does climbing precedences, which
never gets stuck. A unary operator belongs to the operand behind it, so all operators of the
chain are outside of it. -/
theorem expr_grouped (h : Operands r tokens first chain mid)
    (hend : ∀ op : BinaryOp, (kinds mid).head? ≠ some (.sign op.sign)) :
    (∃ g : Grouping, g.first = first ∧ g.rest = chain ∧ g.ByPrecedence ∧
      Gives (expr r tokens) (g.tree (joined r)) mid ∧
      Climbs (climb r 1 tokens) (g.tree (joined r)) mid none ∧
      ∀ g' : Grouping, g'.first = first → g'.rest = chain → g'.ByPrecedence → g' = g) ∧
    ∀ (op : UnaryOp) (t : Token) (after rest : List Token) (e : Expr), t.kind = .sign op.sign →
      Gives (operand r (t :: after)) e rest →
      ∃ inner, Gives (operand r after) inner rest ∧
        e = .unary (r.place (t.span.merge inner.span)) none op inner := by
  refine ⟨?_, fun op t after rest e ht he => ?_⟩
  · obtain ⟨g, hfirst, hrest, hg, htree⟩ := Chain.exists_grouping (joined r) first chain
    obtain ⟨rest, hoperand, hchain⟩ := h.gives hend
    have hexpr : Gives (expr r tokens) (g.tree (joined r)) mid :=
      expr_gives.mpr ⟨first, rest, chain, hoperand, hchain, htree⟩
    refine ⟨g, hfirst, hrest, hg, hexpr, ?_, fun g' hfirst' hrest' hg' => ?_⟩
    · obtain ⟨hmid, hexpr⟩ := hexpr
      exact ⟨hmid, by rw [climb_eq, hexpr]⟩
    · exact hg'.unique hg (hfirst'.trans hfirst.symm) (hrest'.trans hrest.symm)
  · rcases operand_gives.mp he with ⟨hno, -⟩ | ⟨op', t', after', inner, htakes, hinner, rfl⟩
    · exact absurd (congrArg some ht) (hno op)
    · obtain ⟨hcons, ht', -⟩ := htakes
      injection hcons with htoken hafter
      subst htoken hafter
      have hop := Token.Kind.unaryOp?_eq_some_iff.mpr ht
      rw [Token.Kind.unaryOp?_eq_some_iff.mpr ht', Option.some_inj] at hop
      subst hop
      exact ⟨inner, hinner, rfl⟩

/-- A name that is not applied to anything is an operand. -/
theorem operand_name {rest : List Token} {x : String} {span : Span}
    (hcall : (kinds rest).head? ≠ some (.sign .openParen))
    (hindex : (kinds rest).head? ≠ some (.sign .openBracket)) (hreach : r.reach rest = .ok ()) :
    Gives (operand r (⟨.identifier x, span⟩ :: rest)) (.location (r.place span) none x none)
      rest := by
  refine operand_gives.mpr (.inl ⟨fun op hop => ?_, ?_⟩)
  · cases hop
  · exact primary_gives.mpr (.inr (.inl ⟨x, rfl, callOrLocation_gives.mpr
      ⟨x, _, rest, ⟨rfl, rfl, hreach⟩, .inr (.inr ⟨hcall, hindex, rfl, rfl⟩)⟩⟩))

/-- The tokens of `-a-b*c-d==e;`. -/
def mixedLevels : List Token :=
  [⟨.sign .minus, ⟨0, 1⟩⟩, ⟨.identifier "a", ⟨1, 2⟩⟩, ⟨.sign .minus, ⟨2, 3⟩⟩,
    ⟨.identifier "b", ⟨3, 4⟩⟩, ⟨.sign .star, ⟨4, 5⟩⟩, ⟨.identifier "c", ⟨5, 6⟩⟩,
    ⟨.sign .minus, ⟨6, 7⟩⟩, ⟨.identifier "d", ⟨7, 8⟩⟩, ⟨.sign .equalEqual, ⟨8, 10⟩⟩,
    ⟨.identifier "e", ⟨10, 11⟩⟩, ⟨.sign .semicolon, ⟨11, 12⟩⟩]

/-- Three levels, two equal operators and a unary one: `((-a - b * c) - d) == e`. -/
theorem mixedLevels_grouped :
    let r : Reading := ⟨.ofChars [], .ending 12, none⟩
    let name (x : String) (start : Nat) : Expr := .location (r.place ⟨start, start + 1⟩) none x none
    let negated : Expr := .unary (r.place ⟨0, 2⟩) none .neg (name "a" 1)
    let rest : List Token := [⟨.sign .semicolon, ⟨11, 12⟩⟩]
    Operands r mixedLevels negated
      [(.sub, name "b" 3), (.mul, name "c" 5), (.sub, name "d" 7), (.eq, name "e" 10)] rest ∧
    Gives (expr r mixedLevels) (joined r .eq (joined r .sub (joined r .sub negated
      (joined r .mul (name "b" 3) (name "c" 5))) (name "d" 7)) (name "e" 10)) rest := by
  intro r name negated rest
  have hname {x : String} {span : Span} {t : Token} {more : List Token}
      (hcall : t.kind ≠ .sign .openParen) (hindex : t.kind ≠ .sign .openBracket) :
      Gives (operand r (⟨.identifier x, span⟩ :: t :: more))
        (.location (r.place span) none x none) (t :: more) :=
    operand_name (fun h => hcall (Option.some.inj h)) (fun h => hindex (Option.some.inj h)) rfl
  have hchain : Operands r mixedLevels negated [(.sub, name "b" 3), (.mul, name "c" 5),
      (.sub, name "d" 7), (.eq, name "e" 10)] rest := by
    refine .more (operand_gives.mpr (.inr ⟨.neg, _, _, _, ⟨rfl, rfl, rfl⟩, hname ?_ ?_, rfl⟩)) rfl
      (.more (hname ?_ ?_) rfl (.more (hname ?_ ?_) rfl (.more (hname ?_ ?_) rfl
        (.one (hname ?_ ?_)))))
    all_goals decide
  refine ⟨hchain, ?_⟩
  obtain ⟨⟨g, -, -, -, hgives, -, hunique⟩, -⟩ := expr_grouped hchain
    (fun op hop => by cases op <;> cases hop)
  have hg := hunique (.node .eq (.node .sub (.node .sub (.operand negated)
    (.node .mul (.operand (name "b" 3)) (.operand (name "c" 5)))) (.operand (name "d" 7)))
    (.operand (name "e" 10))) rfl rfl (by decide)
  rw [← hg] at hgives
  exact hgives

end Parser

end Decaf
