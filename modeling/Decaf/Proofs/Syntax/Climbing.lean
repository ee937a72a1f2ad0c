import Decaf.Proofs.Syntax.Precedence
import Decaf.Proofs.Syntax.Readers

/-!
# Climbing precedences

Expressions are read as flat chains of operands, and `Chain.assemble` makes trees of them.
The same trees can be built while reading: `climb` takes operators for as long as they bind
at least as tightly as asked for, and reads the right operand of each by climbing on from one
level above it.

On the way this goes by the precedence of a token, takes the operator that the token stands
for, and counts a precedence up in a byte. None of these has to succeed for every token and
every number, so climbing may get stuck. It never does, and gives what reading a chain gives
(`climb_eq`).

Where climbing stops depends on the level it is at. A stretch of a chain is what is read up
to some point without complaint (`Stretch`), and `Halts` says why it ends there: the next
token binds too loosely, or what it asks for cannot be read. The induction is on the length
of the stretch, which an operator divides at the first one behind it that binds no tighter.
-/

namespace Decaf

/-! ## Reading that may get stuck -/

/-- A reading that gives something or complains, or gets stuck (`none`). -/
abbrev Attempt (α : Type) : Type := ExceptT ParseError Option α

namespace Attempt

/-- What was read, or the complaint. -/
def outcome {α : Type} (x : Except ParseError α) : Attempt α :=
  ExceptT.mk (some x)

/-- What an operation gives; where it is not defined the reading gets stuck. -/
def need {α : Type} (x : Option α) : Attempt α :=
  ExceptT.mk (x.map .ok)

end Attempt

/-- How tightly a token binds that stands between two operands. -/
def Token.Kind.precedence? : Token.Kind → Option Nat
  | sign .orOr => some 1
  | sign .andAnd => some 2
  | sign .equalEqual | sign .notEqual => some 3
  | sign .less | sign .lessEqual | sign .greaterEqual | sign .greater => some 4
  | sign .plus | sign .minus => some 5
  | sign .star | sign .slash | sign .percent => some 6
  | _ => none

/-- The tokens that bind are the operators. -/
theorem Token.Kind.precedence?_eq (k : Token.Kind) :
    k.precedence? = k.binaryOp?.map BinaryOp.precedence := by
  cases k with
  | sign s => cases s <;> rfl
  | _ => rfl

/-- The next number, if it fits into a byte. -/
def nextByte? (n : Nat) : Option Nat :=
  if n < 255 then some (n + 1) else none

theorem Parsed.rest_lt_of_lt {tokens rest after : List Token} (h : rest.length < tokens.length)
    (hafter : after.length < rest.length + 1) : after.length < tokens.length :=
  Nat.lt_of_le_of_lt (Nat.le_of_lt_succ hafter) h

namespace Parser

variable (r : Reading)

/-- Takes operators that bind at least as tightly as `least`, each with its right operand,
and joins these to what was read so far. -/
def climbOn (least : Nat) (left : Expr) (tokens : List Token) :
    Attempt (Parsed Expr (tokens.length + 1)) :=
  match tokens with
  | [] => return ⟨left, [], Parsed.nil_lt⟩
  | t :: rest =>
    match t.kind.precedence? with
    | none => return ⟨left, t :: rest, Parsed.cons_lt t rest⟩
    | some n =>
      if n < least then return ⟨left, t :: rest, Parsed.cons_lt t rest⟩
      else do
        Attempt.outcome (r.reach rest)
        let op ← Attempt.need t.kind.binaryOp?
        let next ← Attempt.need (nextByte? n)
        let ⟨first, rest₁, h₁⟩ ← Attempt.outcome (operand r rest)
        let ⟨right, rest₂, h₂⟩ ← climbOn next first rest₁
        let ⟨tree, rest₃, h₃⟩ ← climbOn least (joined r op left right) rest₂
        return ⟨tree, rest₃, by simp only [List.length_cons]; omega⟩
termination_by tokens.length

/-- Reads an expression whose operators bind at least as tightly as `least`. -/
def climb (least : Nat) (tokens : List Token) : Attempt (Parsed Expr tokens.length) := do
  let ⟨first, rest₁, h₁⟩ ← Attempt.outcome (operand r tokens)
  let ⟨tree, rest₂, h₂⟩ ← climbOn r least first rest₁
  return ⟨tree, rest₂, Parsed.rest_lt_of_lt h₁ h₂⟩

end Parser

/-! ## Chains, divided -/

namespace Chain

variable (join : BinaryOp → Expr → Expr → Expr)

theorem settleFrom_nil (n : Nat) (first : Expr) : settleFrom join n first [] = (first, []) := by
  unfold settleFrom
  induction List.range' n (7 - n) with
  | nil => rfl
  | cons level levels ih => rw [List.foldr_cons, ih, settle]

/-- Operators that all bind at least as tightly as `n` are settled without a rest. -/
theorem settleFrom_snd {n : Nat} (hn : n ≤ 7) (first : Expr) {rest : Tail}
    (h : ∀ x ∈ rest, n ≤ x.1.precedence) : (settleFrom join n first rest).2 = [] := by
  rw [List.eq_nil_iff_forall_not_mem]
  intro x hx
  obtain ⟨hlt, y, hy, heq⟩ := mem_settleFrom join hn x hx
  have hle := h y hy
  rw [heq] at hle
  omega

/-- The first operator, if there is one, binds more loosely than `n`. -/
def Yields (n : Nat) (rest : Tail) : Prop :=
  ∀ x, rest.head? = some x → x.1.precedence < n

/-- What yields is settled without its left neighbour. -/
theorem settleFrom_yields {n : Nat} (hn : n ≤ 7) {high low : Tail}
    (hhigh : ∀ x ∈ high, n ≤ x.1.precedence) (hlow : Yields n low) (first other : Expr) :
    settleFrom join n first (high ++ low) =
      ((settleFrom join n first high).1, (settleFrom join n other low).2) := by
  cases low with
  | nil =>
    rw [List.append_nil, settleFrom_nil, ← settleFrom_snd join hn first hhigh]
  | cons x low =>
    obtain ⟨op, e⟩ := x
    have hop := hlow (op, e) rfl
    have hother := settleFrom_append join hop hn other e [] low
    rw [List.nil_append, settleFrom_nil] at hother
    rw [settleFrom_append join hop hn, settleFrom_snd join hn first hhigh, hother]

/-- An operator takes what binds tighter behind it as its right operand, and what was read
before as its left one. -/
theorem settleFrom_cons {op : BinaryOp} {high low : Tail}
    (hhigh : ∀ x ∈ high, op.precedence + 1 ≤ x.1.precedence)
    (hlow : Yields (op.precedence + 1) low) (left e : Expr) {n : Nat} (hn : n ≤ op.precedence) :
    settleFrom join n left ((op, e) :: (high ++ low)) =
      settleFrom join n (join op left (settleFrom join (op.precedence + 1) e high).1) low := by
  have hseven := op.precedence_lt
  induction hn using Nat.decreasingInduction with
  | self =>
    have hsplit := settleFrom_append join (Nat.lt_succ_self op.precedence) hseven left e []
      (high ++ low)
    have hno : ∀ x ∈ ([] : Tail), op.precedence + 1 ≤ x.1.precedence :=
      fun _ h => absurd h List.not_mem_nil
    have hrest := settleFrom_yields join hseven hno hlow
      (join op left (settleFrom join (op.precedence + 1) e high).1) e
    rw [List.nil_append, settleFrom_nil,
      settleFrom_yields join hseven hhigh hlow e e] at hsplit
    rw [List.nil_append, settleFrom_nil] at hrest
    rw [settleFrom_lt join hseven, settleFrom_lt join hseven, hsplit, hrest]
    exact settle_cons_eq join rfl ..
  | of_succ n hlt ih =>
    rw [settleFrom_lt join (by omega), ih, ← settleFrom_lt join (by omega)]

end Chain

/-! ## Stretches -/

namespace Parser

variable {r : Reading}

/-- A stretch of a chain can be read from `tokens` up to `mid`. -/
inductive Stretch (r : Reading) : List Token → Chain.Tail → List Token → Prop
  | nil {tokens : List Token} : Stretch r tokens [] tokens
  | cons {t : Token} {rest after mid : List Token} {op : BinaryOp} {e : Expr}
    {chain : Chain.Tail} :
    t.kind.binaryOp? = some op → r.reach rest = .ok () → Gives (operand r rest) e after →
    Stretch r after chain mid → Stretch r (t :: rest) ((op, e) :: chain) mid

/-- A stretch that takes operators down to level `least` ends at `tokens`: what stands there
binds more loosely or not at all, or it is an operator whose operand is complained about. -/
inductive Halts (r : Reading) (least : Nat) : List Token → Option ParseError → Prop
  | nil : Halts r least [] none
  | other {t : Token} {rest : List Token} :
    t.kind.binaryOp? = none → Halts r least (t :: rest) none
  | looser {t : Token} {rest : List Token} {op : BinaryOp} :
    t.kind.binaryOp? = some op → op.precedence < least → Halts r least (t :: rest) none
  | unreached {t : Token} {rest : List Token} {op : BinaryOp} {e : ParseError} :
    t.kind.binaryOp? = some op → least ≤ op.precedence → r.reach rest = .error e →
    Halts r least (t :: rest) (some e)
  | unread {t : Token} {rest : List Token} {op : BinaryOp} {e : ParseError} :
    t.kind.binaryOp? = some op → least ≤ op.precedence → r.reach rest = .ok () →
    operand r rest = .error e → Halts r least (t :: rest) (some e)

/-- From any tokens a stretch can be read that ends for one of these reasons. -/
theorem exists_stretch (r : Reading) (least : Nat) (tokens : List Token) :
    ∃ chain mid stop?, Stretch r tokens chain mid ∧ Halts r least mid stop? ∧
      ∀ x ∈ chain, least ≤ x.1.precedence := by
  have hno : ∀ x ∈ ([] : Chain.Tail), least ≤ x.1.precedence :=
    fun _ h => absurd h List.not_mem_nil
  cases tokens with
  | nil => exact ⟨[], [], none, .nil, .nil, hno⟩
  | cons t rest =>
    cases hop : t.kind.binaryOp? with
    | none => exact ⟨[], t :: rest, none, .nil, .other hop, hno⟩
    | some op =>
      by_cases hlt : op.precedence < least
      · exact ⟨[], t :: rest, none, .nil, .looser hop hlt, hno⟩
      · have hle := Nat.le_of_not_lt hlt
        cases hreach : r.reach rest with
        | error e => exact ⟨[], t :: rest, some e, .nil, .unreached hop hle hreach, hno⟩
        | ok u =>
          cases hoperand : operand r rest with
          | error e => exact ⟨[], t :: rest, some e, .nil, .unread hop hle hreach hoperand, hno⟩
          | ok first =>
            obtain ⟨e, after, hafter⟩ := first
            have hshorter : after.length < (t :: rest).length := by
              rw [List.length_cons]
              omega
            obtain ⟨chain, mid, stop?, hstretch, hhalts, hall⟩ := exists_stretch r least after
            refine ⟨(op, e) :: chain, mid, stop?, .cons hop hreach ⟨hafter, hoperand⟩ hstretch,
              hhalts, fun x hx => ?_⟩
            rcases List.mem_cons.mp hx with rfl | hx
            · exact hle
            · exact hall x hx
termination_by tokens.length

/-- The operators at the front of a chain that bind at least as tightly as `n`. -/
theorem Stretch.divide {tokens mid : List Token} {chain : Chain.Tail}
    (h : Stretch r tokens chain mid) (n : Nat) :
    ∃ high low between, chain = high ++ low ∧ Stretch r tokens high between ∧
      Stretch r between low mid ∧ (∀ x ∈ high, n ≤ x.1.precedence) ∧ Chain.Yields n low := by
  have hno : ∀ x ∈ ([] : Chain.Tail), n ≤ x.1.precedence := fun _ h => absurd h List.not_mem_nil
  induction h with
  | nil => exact ⟨[], [], _, rfl, .nil, .nil, hno, fun _ h => by cases h⟩
  | @cons t rest after mid op e chain hop hreach hoperand hstretch ih =>
    by_cases hlt : op.precedence < n
    · refine ⟨[], (op, e) :: chain, _, rfl, .nil, .cons hop hreach hoperand hstretch, hno, ?_⟩
      intro x hx
      cases hx
      exact hlt
    · obtain ⟨high, low, between, rfl, hhigh, hlow, hall, hyields⟩ := ih
      refine ⟨(op, e) :: high, low, between, rfl, .cons hop hreach hoperand hhigh, hlow, ?_,
        hyields⟩
      intro x hx
      rcases List.mem_cons.mp hx with rfl | hx
      · exact Nat.le_of_not_lt hlt
      · exact hall x hx

/-- Where a looser operator follows, a stretch of tighter ones ends without complaint. -/
theorem Stretch.halts {tokens mid : List Token} {x : BinaryOp × Expr} {chain : Chain.Tail}
    (h : Stretch r tokens (x :: chain) mid) {n : Nat} (hx : x.1.precedence < n) :
    Halts r n tokens none := by
  cases h with
  | cons hop _ _ _ => exact .looser hop hx

/-! ## Climbing along a stretch -/

/-- What climbing comes to: the tree so far, or the complaint. -/
def Climbs {n : Nat} (x : Attempt (Parsed Expr n)) (tree : Expr) (mid : List Token) :
    Option ParseError → Prop
  | none => ∃ h, x = Attempt.outcome (.ok ⟨tree, mid, h⟩)
  | some e => x = Attempt.outcome (.error e)

theorem precedence?_of_binaryOp? {t : Token} {op : BinaryOp} (h : t.kind.binaryOp? = some op) :
    t.kind.precedence? = some op.precedence := by
  rw [Token.Kind.precedence?_eq, h, Option.map_some]

/-- At the end of a stretch nothing is added. -/
theorem Halts.climbs {least : Nat} {tokens : List Token} {stop? : Option ParseError}
    (h : Halts r least tokens stop?) (left : Expr) :
    Climbs (climbOn r least left tokens) left tokens stop? := by
  cases h with
  | nil => exact ⟨Parsed.nil_lt, by rw [climbOn]; rfl⟩
  | @other t rest hop =>
    have hno : t.kind.precedence? = none := by
      rw [Token.Kind.precedence?_eq, hop]
      rfl
    refine ⟨Parsed.cons_lt t rest, ?_⟩
    rw [climbOn]
    simp only [hno]
    rfl
  | @looser t rest op hop hlt =>
    refine ⟨Parsed.cons_lt t rest, ?_⟩
    rw [climbOn]
    simp only [precedence?_of_binaryOp? hop, if_pos hlt]
    rfl
  | @unreached t rest op e hop hle hreach =>
    show _ = _
    rw [climbOn]
    simp only [precedence?_of_binaryOp? hop, if_neg (Nat.not_lt.mpr hle), hreach]
    rfl
  | @unread t rest op e hop hle hreach hoperand =>
    show _ = _
    have hnext : nextByte? op.precedence = some (op.precedence + 1) :=
      if_pos (Nat.lt_trans op.precedence_lt (by decide))
    rw [climbOn]
    simp only [precedence?_of_binaryOp? hop, if_neg (Nat.not_lt.mpr hle), hreach, hop, hnext,
      hoperand]
    rfl

/-- A stretch of operators down to a tighter level ends at the same point, with the same
complaint or before it comes to that. -/
theorem Halts.tighten {least n : Nat} {tokens : List Token} {stop? : Option ParseError}
    (h : Halts r least tokens stop?) (hn : least ≤ n) :
    Halts r n tokens none ∨ Halts r n tokens stop? := by
  cases h with
  | nil => exact .inl .nil
  | other hop => exact .inl (.other hop)
  | looser hop hlt => exact .inl (.looser hop (by omega))
  | @unreached t rest op e hop _ hreach =>
    by_cases hlt : op.precedence < n
    · exact .inl (.looser hop hlt)
    · exact .inr (.unreached hop (by omega) hreach)
  | @unread t rest op e hop _ hreach hoperand =>
    by_cases hlt : op.precedence < n
    · exact .inl (.looser hop hlt)
    · exact .inr (.unread hop (by omega) hreach hoperand)

section Step

variable {least : Nat} {t : Token} {rest after : List Token} {op : BinaryOp} {left first : Expr}

/-- An operator that is complained about further on. -/
theorem climbOn_error {e : ParseError} (hop : t.kind.binaryOp? = some op)
    (hle : least ≤ op.precedence) (hreach : r.reach rest = .ok ())
    (hoperand : Gives (operand r rest) first after)
    (hright : climbOn r (op.precedence + 1) first after = Attempt.outcome (.error e)) :
    climbOn r least left (t :: rest) = Attempt.outcome (.error e) := by
  obtain ⟨hafter, hoperand⟩ := hoperand
  have hnext : nextByte? op.precedence = some (op.precedence + 1) :=
    if_pos (Nat.lt_trans op.precedence_lt (by decide))
  rw [climbOn]
  simp only [precedence?_of_binaryOp? hop, if_neg (Nat.not_lt.mpr hle), hreach, hop, hnext,
    hoperand]
  show (climbOn r (op.precedence + 1) first after >>= _) = _
  rw [hright]
  rfl

/-- An operator is joined with its operands, and climbing goes on behind them. -/
theorem climbOn_step {right tree : Expr} {between mid : List Token} {stop? : Option ParseError}
    (hop : t.kind.binaryOp? = some op) (hle : least ≤ op.precedence)
    (hreach : r.reach rest = .ok ()) (hoperand : Gives (operand r rest) first after)
    (hright : Climbs (climbOn r (op.precedence + 1) first after) right between none)
    (hgo : Climbs (climbOn r least (joined r op left right) between) tree mid stop?) :
    Climbs (climbOn r least left (t :: rest)) tree mid stop? := by
  obtain ⟨hafter, hoperand⟩ := hoperand
  obtain ⟨hbetween, hright⟩ := hright
  have hnext : nextByte? op.precedence = some (op.precedence + 1) :=
    if_pos (Nat.lt_trans op.precedence_lt (by decide))
  have hstep : climbOn r least left (t :: rest) = (do
      let ⟨tree, rest₃, h₃⟩ ← climbOn r least (joined r op left right) between
      return ⟨tree, rest₃, by simp only [List.length_cons]; omega⟩) := by
    rw [climbOn]
    simp only [precedence?_of_binaryOp? hop, if_neg (Nat.not_lt.mpr hle), hreach, hop, hnext,
      hoperand]
    show (climbOn r (op.precedence + 1) first after >>= _) = _
    rw [hright]
    rfl
  cases stop? with
  | none =>
    obtain ⟨hmid, hgo⟩ := hgo
    refine ⟨by simp only [List.length_cons]; omega, ?_⟩
    rw [hstep, hgo]
    rfl
  | some e =>
    change climbOn r least (joined r op left right) between = _ at hgo
    show climbOn r least left (t :: rest) = _
    rw [hstep, hgo]
    rfl

end Step

/-- Climbing along a stretch settles its chain. -/
theorem Stretch.climbs {least : Nat} {tokens mid : List Token} {chain : Chain.Tail}
    {stop? : Option ParseError} (h : Stretch r tokens chain mid) (hhalts : Halts r least mid stop?)
    (hall : ∀ x ∈ chain, least ≤ x.1.precedence) (left : Expr) :
    Climbs (climbOn r least left tokens) (Chain.settleFrom (joined r) least left chain).1 mid
      stop? := by
  cases h with
  | nil =>
    rw [Chain.settleFrom_nil]
    exact hhalts.climbs left
  | @cons t rest after _ op e chain hop hreach hoperand hstretch =>
    have hle : least ≤ op.precedence := hall (op, e) List.mem_cons_self
    obtain ⟨high, low, between, rfl, hhigh, hlow, htight, hyields⟩ :=
      hstretch.divide (op.precedence + 1)
    have hlength : ((op, e) :: (high ++ low)).length = high.length + low.length + 1 := by
      rw [List.length_cons, List.length_append]
    rw [Chain.settleFrom_cons (joined r) htight hyields left e hle]
    have hrest : ∀ x ∈ low, least ≤ x.1.precedence :=
      fun x hx => hall x (List.mem_cons_of_mem _ (List.mem_append_right _ hx))
    -- the right operand ends before an operator of the chain, or where the chain ends
    have hend : Halts r (op.precedence + 1) between none ∨
        low = [] ∧ Halts r (op.precedence + 1) between stop? := by
      cases low with
      | nil =>
        cases hlow
        rcases hhalts.tighten (Nat.le_succ_of_le hle) with hnone | hsame
        · exact .inl hnone
        · exact .inr ⟨rfl, hsame⟩
      | cons x low => exact .inl (hlow.halts (hyields x rfl))
    have hgo := hlow.climbs hhalts hrest
      (joined r op left (Chain.settleFrom (joined r) (op.precedence + 1) e high).1)
    rcases hend with hnone | ⟨-, hsame⟩
    · exact climbOn_step hop hle hreach hoperand (hhigh.climbs hnone htight e) hgo
    · have hright := hhigh.climbs hsame htight e
      cases stop? with
      | none => exact climbOn_step hop hle hreach hoperand hright hgo
      | some err => exact climbOn_error hop hle hreach hoperand hright
termination_by chain.length

/-! ## Whole expressions -/

/-- Reading a chain goes along the same stretch, down to the loosest level. -/
theorem Stretch.operators {tokens mid : List Token} {chain : Chain.Tail} {stop? : Option ParseError}
    (h : Stretch r tokens chain mid) (hhalts : Halts r 1 mid stop?) :
    match stop? with
    | none => Gives (operators r tokens) chain mid
    | some e => operators r tokens = .error e := by
  induction h with
  | nil =>
    cases hhalts with
    | nil => exact ⟨Parsed.nil_lt, by rw [Parser.operators]⟩
    | @other t rest hop =>
      refine ⟨Parsed.cons_lt t rest, ?_⟩
      rw [Parser.operators]
      simp only [hop]
    | @looser t rest op hop hlt =>
      have hpos := op.precedence_pos
      omega
    | @unreached t rest op e hop _ hreach =>
      show _ = _
      rw [Parser.operators]
      simp only [hop, hreach]
      rfl
    | @unread t rest op e hop _ hreach hoperand =>
      show _ = _
      rw [Parser.operators]
      simp only [hop, hreach, hoperand]
      rfl
  | @cons t rest after mid op e chain hop hreach hoperand _ ih =>
    obtain ⟨hafter, hoperand⟩ := hoperand
    have hrest := ih hhalts
    cases stop? with
    | none =>
      obtain ⟨hmid, hrest⟩ := hrest
      refine ⟨by simp only [List.length_cons]; omega, ?_⟩
      rw [Parser.operators]
      simp only [hop, hreach, hoperand]
      show (Parser.operators r after >>= _) = _
      rw [hrest]
      rfl
    | some err =>
      show _ = _
      rw [Parser.operators]
      simp only [hop, hreach, hoperand]
      show (Parser.operators r after >>= _) = _
      rw [show Parser.operators r after = .error err from hrest]
      rfl

/-- Climbing from the loosest level never gets stuck, and reads what reading a chain does. -/
theorem climb_eq (r : Reading) (tokens : List Token) :
    climb r 1 tokens = Attempt.outcome (expr r tokens) := by
  unfold climb
  rw [expr]
  cases hoperand : operand r tokens with
  | error e => rfl
  | ok first =>
    obtain ⟨first, rest, hrest⟩ := first
    obtain ⟨chain, mid, stop?, hstretch, hhalts, hall⟩ := exists_stretch r 1 rest
    have hclimb := hstretch.climbs hhalts hall first
    have hchain := hstretch.operators hhalts
    show (climbOn r 1 first rest >>= _) = Attempt.outcome (Parser.operators r rest >>= _)
    cases stop? with
    | none =>
      obtain ⟨_, hclimb⟩ := hclimb
      obtain ⟨_, hchain⟩ := hchain
      rw [hclimb, hchain]
      rfl
    | some e =>
      rw [show climbOn r 1 first rest = _ from hclimb,
        show Parser.operators r rest = _ from hchain]
      rfl

end Parser

end Decaf
