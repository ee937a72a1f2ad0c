import Decaf.Proofs.Syntax.Precedence
import Decaf.Proofs.Syntax.Induction
import Decaf.Proofs.Syntax.Literals
import Decaf.Proofs.Syntax.Soundness

/-!
# What is derivable is read

If the kinds of the tokens begin with a construct of the grammar, its reader gives
that construct and leaves what comes after it (`Finds`): `expr_complete`,
`block_complete`, `topLevels_complete` and the others, for a text without an unreadable
spot (`Reading.Whole`). It is not known in advance what a reader does, so the induction
is the one on tokens and ranks, with a lemma for each reader.

A reader takes as much as it can, a derivation may stop sooner. So each lemma asks
that what comes next cannot be part of the construct: no operator after an
expression (`EndsExpr`), no parenthesis or bracket after a name (`NotApplied`), no
`else` after a statement. Inside a program this is so because of what the
constructs begin with (`startsExpr`, `startsStmt`).
-/

namespace Decaf

/-- The text is readable to its end. -/
structure Reading.Whole (r : Reading) : Prop where
  ending : r.ending.kind = .endOfFile
  fault : r.fault = none

namespace Reading.Whole

variable {r : Reading}

/-- In a readable text every spot can be reached. -/
theorem reach_eq (hr : r.Whole) (tokens : List Token) : r.reach tokens = .ok () := by
  cases tokens with
  | nil => simp [Reading.reach, hr.fault]
  | cons t rest => rfl

/-- If the kinds say that a token comes next, it can be taken. -/
theorem exists_takes (hr : r.Whole) {tokens : List Token} {k : Token.Kind} {a : Grammar.Word}
    (h : kinds tokens = k :: a) : ∃ t rest, r.Takes k tokens t rest ∧ kinds rest = a := by
  cases tokens with
  | nil => cases h
  | cons t rest =>
    injection h with h₁ h₂
    exact ⟨t, rest, ⟨rfl, h₁, hr.reach_eq rest⟩, h₂⟩

end Reading.Whole

namespace Grammar

/-- What comes next cannot turn a name into a call or an element. -/
def NotApplied (b : Word) : Prop :=
  b.head? ≠ some (.sign .openParen) ∧ b.head? ≠ some (.sign .openBracket)

/-- What comes next cannot belong to an expression. -/
def EndsExpr (b : Word) : Prop :=
  NotApplied b ∧ ∀ op : BinaryOp, b.head? ≠ some (.sign op.sign)

/-- The signs that stand behind expressions. -/
def delimits : Sign → Bool
  | .closeParen | .closeBracket | .comma | .semicolon => true
  | _ => false

/-- A sign that stands behind expressions ends one. -/
theorem endsExpr_cons {s : Sign} {b : Word} (hs : delimits s = true) :
    EndsExpr (.sign s :: b) := by
  refine ⟨⟨?_, ?_⟩, fun op => ?_⟩
  · rintro ⟨⟩
    cases hs
  · rintro ⟨⟩
    cases hs
  · intro h
    injection h with h
    injection h with h
    cases op <;> subst h <;> cases hs

/-- A name is not applied by an operator, nor by what follows an empty chain. -/
theorem Operators.notApplied {n : Nat} {a c : Word} {rest : Chain.Tail} (h : Operators n a rest c)
    (hc : NotApplied c) : NotApplied a := by
  cases h with
  | nil => exact hc
  | @cons op => cases op <;> exact ⟨by simp [BinaryOp.sign], by simp [BinaryOp.sign]⟩

/-- Behind the name of a location there is no parenthesis, so it is not taken for a call. -/
theorem Location.tail_head?_ne {a b : Word} {e : Expr} (h : Location a e b) (hb : NotApplied b) :
    a.tail.head? ≠ some (.sign .openParen) := by
  cases h with
  | scalar => exact hb.1
  | element _ => simp

/-- The first statement of a block is not taken for a declaration: no statement begins with a
type. -/
theorem Statements.head_type? {a b : Word} {ss : List Stmt}
    (h : Statements a ss (.sign .closeBrace :: b)) : ∀ k ∈ a.head?, k.type? = none := by
  obtain ⟨k, more, rfl, hk | rfl⟩ := h.head
  · rintro _ ⟨⟩
    cases k with
    | word w => cases w <;> first | rfl | cases hk
    | _ => rfl
  · rintro _ ⟨⟩
    rfl

/-- Inside a block no `else` follows a statement. -/
theorem Statements.head_ne_else {a b : Word} {ss : List Stmt}
    (h : Statements a ss (.sign .closeBrace :: b)) : ∀ k ∈ a.head?, k ≠ .word .elseWord := by
  obtain ⟨k, more, rfl, hk⟩ := h.head
  rintro _ ⟨⟩ rfl
  rcases hk with hk | hk <;> cases hk

end Grammar

namespace Parser

open Grammar

variable {r : Reading}

/-- Reading finds `v`, once places are left out, and leaves tokens of the kinds `b`. -/
def Finds {α : Type} {n : Nat} (unplace : α → α) (x : Except ParseError (Parsed α n)) (v : α)
    (b : Word) : Prop :=
  ∃ v' rest, Gives x v' rest ∧ unplace v' = v ∧ kinds rest = b

/-! ## Expressions -/

/-- What completeness says of the readers of expressions. One reader serves locations and calls;
only a location may be followed by what would make it something else. -/
def CompleteExprs (r : Reading) : ExprReader → List Token → Prop
  | .expr, tokens => ∀ {e b}, ExprAt 1 (kinds tokens) e b → EndsExpr b →
    Finds (Expr.relabel .unplaced) (expr r tokens) e b
  | .operators, tokens => ∀ {chain b}, Operators 7 (kinds tokens) chain b → EndsExpr b →
    Finds (Chain.mapTail (Expr.relabel .unplaced)) (operators r tokens) chain b
  | .operand, tokens => ∀ {e b}, ExprAt 7 (kinds tokens) e b → NotApplied b →
    Finds (Expr.relabel .unplaced) (operand r tokens) e b
  | .primary, tokens => ∀ {e b}, Primary (kinds tokens) e b → NotApplied b →
    Finds (Expr.relabel .unplaced) (primary r tokens) e b
  | .callOrLocation, tokens => ∀ {e b},
    Location (kinds tokens) e b ∧ NotApplied b ∨ Call (kinds tokens) e b →
    Finds (Expr.relabel .unplaced) (callOrLocation r tokens) e b
  | .arguments, tokens => ∀ {args b}, Arguments (kinds tokens) args (.sign .closeParen :: b) →
    Finds (List.map (Expr.relabel .unplaced)) (arguments r tokens) args (.sign .closeParen :: b)
  | .argumentList, tokens =>
    ∀ {args b}, ArgumentList (kinds tokens) args (.sign .closeParen :: b) →
    Finds (List.map (Expr.relabel .unplaced)) (argumentList r tokens) args (.sign .closeParen :: b)

section Expressions

variable {tokens : List Token}

/-- The derivation is taken apart into an operand and a chain, which is what the reader looks for.
It puts the same tree together again. -/
theorem expr_finds (below : Below ExprReader.rank (CompleteExprs r) .expr tokens) :
    CompleteExprs r .expr tokens := by
  intro e b h hb
  obtain ⟨first, rest, mid, hfirst, hrest, _, hs⟩ := h.settles (by omega)
  obtain ⟨first', mid', ho, rfl, rfl⟩ :=
    below.now .operand (by decide) hfirst (hrest.notApplied hb.1)
  obtain ⟨rest', last, hc, rfl, rfl⟩ := below.later .operators ho.length_lt hrest hb
  refine ⟨_, last, expr_gives.mpr ⟨first', mid', rest', ho, hc, rfl⟩, ?_, rfl⟩
  -- places can be taken out before the chain is settled as well as after
  rw [Chain.map_assemble relabel_joined]
  exact congrArg Prod.fst hs

/-- The chain is read to its end, and not further, since no operator comes behind it. -/
theorem operators_finds (hr : r.Whole)
    (below : Below ExprReader.rank (CompleteExprs r) .operators tokens) :
    CompleteExprs r .operators tokens := by
  intro chain b h hb
  generalize ha : kinds tokens = a at h
  cases h with
  | nil =>
    subst ha
    exact ⟨[], tokens, operators_gives.mpr (.inl ⟨hb.2, rfl, rfl⟩), rfl, rfl⟩
  | cons he hmore =>
    obtain ⟨t, mid, ht, rfl⟩ := hr.exists_takes ha
    have h₁ := ht.length_lt
    obtain ⟨right, after, ho, rfl, rfl⟩ :=
      below.later .operand h₁ he (hmore.notApplied hb.1)
    have h₂ := ho.length_lt
    obtain ⟨more, last, hc, rfl, rfl⟩ := below.later .operators (by omega) hmore hb
    exact ⟨_, last, operators_gives.mpr (.inr ⟨_, t, mid, right, after, more, ht, ho, hc, rfl⟩),
      rfl, rfl⟩

theorem operand_finds (hr : r.Whole)
    (below : Below ExprReader.rank (CompleteExprs r) .operand tokens) :
    CompleteExprs r .operand tokens := by
  intro e b h hb
  generalize ha : kinds tokens = a at h
  cases h with
  | tighter hlt _ => exact absurd hlt (by omega)
  | @binary _ op _ _ _ _ _ hop _ _ =>
    have hlt := op.precedence_lt
    omega
  | unary he =>
    obtain ⟨t, mid, ht, rfl⟩ := hr.exists_takes ha
    obtain ⟨inner, rest, ho, rfl, rfl⟩ := below.later .operand ht.length_lt he hb
    exact ⟨_, rest, operand_gives.mpr (.inr ⟨_, t, mid, inner, ht, ho, rfl⟩),
      by rw [Expr.relabel]; rfl, rfl⟩
  | primary hp =>
    subst ha
    obtain ⟨e', rest, he, rfl, rfl⟩ := below.now .primary (by decide) hp hb
    -- the reader looks for an operator first, and no primary begins with one
    refine ⟨e', rest, operand_gives.mpr (.inl ⟨fun op hop => ?_, he⟩), rfl, rfl⟩
    obtain ⟨k, more, hk, _, hnone⟩ := hp.head
    rw [hk] at hop
    cases Option.some.inj hop
    cases op <;> cases hnone

theorem primary_finds (hr : r.Whole)
    (below : Below ExprReader.rank (CompleteExprs r) .primary tokens) :
    CompleteExprs r .primary tokens := by
  intro e b h hb
  generalize ha : kinds tokens = a at h
  cases h with
  | parens he =>
    obtain ⟨t, mid, ht, rfl⟩ := hr.exists_takes ha
    obtain ⟨e', after, he', rfl, hafter⟩ :=
      below.later .expr ht.length_lt he (endsExpr_cons rfl)
    obtain ⟨close, rest, hc, rfl⟩ := hr.exists_takes hafter
    exact ⟨e', rest, primary_gives.mpr (.inl ⟨t, mid, after, close, ht, he', hc⟩), rfl, rfl⟩
  | literal hv =>
    obtain ⟨t, mid, ht, rfl⟩ := hr.exists_takes ha
    obtain rfl := ht.2.1
    have hg := primary_gives.mpr (.inr (.inr ⟨t, _, ht, literal?_eq_ok_iff.mpr hv, rfl⟩))
    exact ⟨_, mid, hg, by rw [Expr.relabel]; rfl, rfl⟩
  | location hl =>
    subst ha
    obtain ⟨e', rest, he, rfl, rfl⟩ := below.now .callOrLocation (by decide) (.inl ⟨hl, hb⟩)
    obtain ⟨x, more, hx⟩ := hl.head
    exact ⟨e', rest, primary_gives.mpr (.inr (.inl ⟨x, by rw [hx]; rfl, he⟩)), rfl, rfl⟩
  | call hc =>
    subst ha
    obtain ⟨e', rest, he, rfl, rfl⟩ := below.now .callOrLocation (by decide) (.inr hc)
    obtain ⟨x, more, hx⟩ := hc.head
    exact ⟨e', rest, primary_gives.mpr (.inr (.inl ⟨x, by rw [hx]; rfl, he⟩)), rfl, rfl⟩

/-- A location is found if nothing behind it makes it a call or an element. -/
theorem location_finds (hr : r.Whole)
    (below : Below ExprReader.rank (CompleteExprs r) .callOrLocation tokens) {e : Expr} {b : Word}
    (h : Location (kinds tokens) e b) (hb : NotApplied b) :
    Finds (Expr.relabel .unplaced) (callOrLocation r tokens) e b := by
  generalize ha : kinds tokens = a at h
  cases h with
  | scalar =>
    obtain ⟨t, mid, ht, rfl⟩ := hr.exists_takes ha
    have hg := callOrLocation_gives.mpr ⟨_, t, mid, ht, .inr (.inr ⟨hb.1, hb.2, rfl, rfl⟩)⟩
    exact ⟨_, mid, hg, by rw [Expr.relabel]; rfl, rfl⟩
  | element hi =>
    obtain ⟨t, mid, ht, hmid⟩ := hr.exists_takes ha
    obtain ⟨u, first, hu, rfl⟩ := hr.exists_takes hmid
    have hlt := Nat.lt_trans hu.length_lt ht.length_lt
    obtain ⟨i, last, hi', rfl, hlast⟩ := below.later .expr hlt hi (endsExpr_cons rfl)
    obtain ⟨close, rest, hc, rfl⟩ := hr.exists_takes hlast
    have hg := callOrLocation_gives.mpr
      ⟨_, t, mid, ht, .inr (.inl ⟨u, i, first, last, close, hu, hi', hc, rfl⟩)⟩
    exact ⟨_, rest, hg, by rw [Expr.relabel]; rfl, rfl⟩

theorem call_finds (hr : r.Whole)
    (below : Below ExprReader.rank (CompleteExprs r) .callOrLocation tokens) {e : Expr} {b : Word}
    (h : Call (kinds tokens) e b) :
    Finds (Expr.relabel .unplaced) (callOrLocation r tokens) e b := by
  generalize ha : kinds tokens = a at h
  cases h with
  | mk hargs =>
    obtain ⟨t, mid, ht, hmid⟩ := hr.exists_takes ha
    obtain ⟨u, first, hu, rfl⟩ := hr.exists_takes hmid
    have hlt := Nat.lt_trans hu.length_lt ht.length_lt
    obtain ⟨args, last, ha', rfl, hlast⟩ := below.later .arguments hlt hargs
    obtain ⟨close, rest, hc, rfl⟩ := hr.exists_takes hlast
    have hg := callOrLocation_gives.mpr
      ⟨_, t, mid, ht, .inl ⟨u, args, first, last, close, hu, ha', hc, rfl⟩⟩
    exact ⟨_, rest, hg, by rw [Expr.relabel, relabelExprs_eq_map]; rfl, rfl⟩

/-- An expression does not begin with a closing parenthesis, so the reader sees whether there are
arguments. -/
theorem arguments_finds (below : Below ExprReader.rank (CompleteExprs r) .arguments tokens) :
    CompleteExprs r .arguments tokens := by
  intro args b h
  generalize ha : kinds tokens = a at h
  cases h with
  | none =>
    have hk := r.current_kind_eq ha
    exact ⟨[], tokens, arguments_gives.mpr (.inl ⟨hk, rfl, rfl⟩), rfl, ha⟩
  | some hl =>
    subst ha
    obtain ⟨args', rest, hargs, rfl, hrest⟩ := below.now .argumentList (by decide) hl
    have hk : (r.current tokens).kind ≠ .sign .closeParen := by
      obtain ⟨k, more, hhead, hstart⟩ := hl.head
      rw [r.current_kind_eq hhead]
      rintro rfl
      cases hstart
    exact ⟨args', rest, arguments_gives.mpr (.inr ⟨hk, hargs⟩), rfl, hrest⟩

theorem argumentList_finds (hr : r.Whole)
    (below : Below ExprReader.rank (CompleteExprs r) .argumentList tokens) :
    CompleteExprs r .argumentList tokens := by
  intro args b h
  generalize ha : kinds tokens = a at h
  cases h with
  | one he =>
    subst ha
    obtain ⟨e, rest, he', rfl, hrest⟩ := below.now .expr (by decide) he (endsExpr_cons rfl)
    have hno : (kinds rest).head? ≠ some (.sign .comma) := by
      rw [hrest]
      simp
    exact ⟨[e], rest, argumentList_gives.mpr ⟨e, rest, he', .inr ⟨hno, rfl, rfl⟩⟩, rfl, hrest⟩
  | more he hmore =>
    subst ha
    obtain ⟨e, mid, he', rfl, hmid⟩ := below.now .expr (by decide) he (endsExpr_cons rfl)
    obtain ⟨t, after, ht, rfl⟩ := hr.exists_takes hmid
    have hlt := Nat.lt_trans ht.length_lt he'.length_lt
    obtain ⟨es, rest, hes, rfl, hrest⟩ := below.later .argumentList hlt hmore
    exact ⟨e :: es, rest, argumentList_gives.mpr ⟨e, mid, he', .inl ⟨t, after, es, ht, hes, rfl⟩⟩,
      rfl, hrest⟩

/-- The induction: readers of expressions find what the grammar derives. -/
theorem completeExprs (hr : r.Whole) : ∀ x tokens, CompleteExprs r x tokens := by
  refine ranked_induction ExprReader.rank fun x tokens below => ?_
  cases x with
  | expr => exact expr_finds below
  | operators => exact operators_finds hr below
  | operand => exact operand_finds hr below
  | primary => exact primary_finds hr below
  | callOrLocation =>
    rintro e b (⟨hl, hb⟩ | hc)
    · exact location_finds hr below hl hb
    · exact call_finds hr below hc
  | arguments => exact arguments_finds below
  | argumentList => exact argumentList_finds hr below

/-- An expression is found, if what comes next cannot belong to it. -/
theorem expr_complete (hr : r.Whole) {e : Expr} {b : Word} (h : ExprAt 1 (kinds tokens) e b)
    (hb : EndsExpr b) : Finds (Expr.relabel .unplaced) (expr r tokens) e b :=
  completeExprs hr .expr tokens h hb

theorem location_complete (hr : r.Whole) {e : Expr} {b : Word} (h : Location (kinds tokens) e b)
    (hb : NotApplied b) : Finds (Expr.relabel .unplaced) (callOrLocation r tokens) e b :=
  completeExprs hr .callOrLocation tokens (.inl ⟨h, hb⟩)

/-- A call is found whatever comes next: it ends with its parenthesis. -/
theorem call_complete (hr : r.Whole) {e : Expr} {b : Word} (h : Call (kinds tokens) e b) :
    Finds (Expr.relabel .unplaced) (callOrLocation r tokens) e b :=
  completeExprs hr .callOrLocation tokens (.inr h)

end Expressions

/-! ## Declarations -/

/-- Behind a type and a name the rest of the declaration is found. The token of the type fixes the
type, so the derivation has the one that the reader was given. -/
theorem varRest_complete (hr : r.Whole) {k : Token.Kind} {ty : Ty} {x : String} (start : Span)
    {tokens : List Token} {d : VarDecl} {b : Word} (hk : TypeName k ty)
    (h : Variable (k :: .identifier x :: kinds tokens) d b) :
    Finds (VarDecl.relabel .unplaced) (varRest r x ty start tokens) d b := by
  generalize ha : kinds tokens = a at h
  cases h with
  | scalar hk' =>
    obtain rfl := hk.unique hk'
    obtain ⟨close, rest, hc, rfl⟩ := hr.exists_takes ha
    exact ⟨_, rest, varRest_gives.mpr (.inr ⟨close, hc, rfl⟩), rfl, rfl⟩
  | array hk' hle =>
    obtain rfl := hk.unique hk'
    obtain ⟨t₁, rest₁, h₁, ha₁⟩ := hr.exists_takes ha
    obtain ⟨t₂, rest₂, h₂, ha₂⟩ := hr.exists_takes ha₁
    obtain ⟨t₃, rest₃, h₃, ha₃⟩ := hr.exists_takes ha₂
    obtain ⟨close, rest, hc, rfl⟩ := hr.exists_takes ha₃
    have hlength := arrayLength_gives.mpr
      ⟨_, t₂, h₂, lengthOfDecimal?_eq_some_iff.mpr ⟨hle, rfl⟩⟩
    exact ⟨_, rest, varRest_gives.mpr
      (.inl ⟨t₁, rest₁, _, rest₂, t₃, rest₃, close, h₁, hlength, h₃, hc, rfl⟩), rfl, rfl⟩

/-- A declaration is found. -/
theorem varDecl_complete (hr : r.Whole) {tokens : List Token} {d : VarDecl} {b : Word}
    (h : Variable (kinds tokens) d b) :
    Finds (VarDecl.relabel .unplaced) (varDecl r tokens) d b := by
  obtain ⟨k, ty, x, a, hk, ha⟩ := h.head
  obtain ⟨t, mid, ht, hmid⟩ := hr.exists_takes ha
  obtain ⟨u, after, hu, rfl⟩ := hr.exists_takes hmid
  rw [ha] at h
  obtain ⟨d', rest, hd, rfl, rfl⟩ := varRest_complete hr t.span hk h
  exact ⟨d', rest, varDecl_gives.mpr ⟨k, ty, t, mid, x, u, after, ht, hk, hu, hd⟩, rfl, rfl⟩

/-- Declarations are found, up to a token that is no type. The induction is on the derivation. -/
theorem varDecls_complete (hr : r.Whole) {tokens : List Token} {ds : List VarDecl} {b : Word}
    (h : Variables (kinds tokens) ds b) (hb : ∀ k ∈ b.head?, k.type? = none) :
    Finds (List.map (VarDecl.relabel .unplaced)) (varDecls r tokens) ds b := by
  generalize ha : kinds tokens = a at h
  induction h generalizing tokens with
  | nil =>
    subst ha
    have hnone : (r.current tokens).kind.type? = none := by
      cases tokens with
      | nil => exact congrArg Token.Kind.type? hr.ending
      | cons t rest => exact hb t.kind rfl
    exact ⟨[], tokens, varDecls_gives.mpr (.inr ⟨hnone, rfl, rfl⟩), rfl, rfl⟩
  | cons hd _ ih =>
    subst ha
    obtain ⟨k, ty, x, a, hk, ha⟩ := hd.head
    obtain ⟨d', mid, hd', rfl, rfl⟩ := varDecl_complete hr hd
    obtain ⟨ds', rest, hds', rfl, rfl⟩ := ih hb rfl
    have hsome : (r.current tokens).kind.type?.isSome := by
      rw [r.current_kind_eq ha, Token.Kind.type?_eq_some_iff.mpr hk]
      rfl
    exact ⟨_, rest, varDecls_gives.mpr (.inl ⟨d', mid, ds', hsome, hd', hds', rfl⟩), rfl, rfl⟩

/-! ## Statements -/

/-- A condition is found; the parenthesis at its end delimits the expression. -/
theorem condition_complete (hr : r.Whole) {tokens : List Token} {a b : Word} {e : Expr}
    (ha : kinds tokens = .sign .openParen :: a) (h : ExprAt 1 a e (.sign .closeParen :: b)) :
    Finds (Expr.relabel .unplaced) (condition r tokens) e b := by
  obtain ⟨t, first, ht, rfl⟩ := hr.exists_takes ha
  obtain ⟨e', last, he, rfl, hlast⟩ := expr_complete hr h (endsExpr_cons rfl)
  obtain ⟨u, rest, hu, rfl⟩ := hr.exists_takes hlast
  exact ⟨e', rest, condition_gives.mpr ⟨t, first, last, u, ht, he, hu⟩, rfl, rfl⟩

/-- A semicolon is found, and the statement gets some place. -/
theorem finish_complete (hr : r.Whole) (start : Span) (make : Place → Stmt) {tokens : List Token}
    {b : Word} (h : kinds tokens = .sign .semicolon :: b) :
    ∃ p rest, Gives (finish r start make tokens) (make p) rest ∧ kinds rest = b := by
  obtain ⟨close, rest, hc, rfl⟩ := hr.exists_takes h
  exact ⟨_, rest, finish_gives.mpr ⟨close, hc, rfl⟩, rfl⟩

/-- An assignment is found by the reader that was told that it is one. -/
theorem assign_complete (hr : r.Whole) (start : Span) {tokens : List Token} {a b : Word}
    {target value : Expr} (ht : Location (kinds tokens) target (.sign .equal :: a))
    (hv : ExprAt 1 a value (.sign .semicolon :: b)) :
    Finds (Stmt.relabel .unplaced) (simpleStmt r start false tokens) (.assign .nowhere target value)
      b := by
  obtain ⟨target', _, ht', rfl, h₁⟩ := location_complete hr ht ⟨by simp, by simp⟩
  obtain ⟨u, _, hu, rfl⟩ := hr.exists_takes h₁
  obtain ⟨value', _, hv', rfl, h₂⟩ := expr_complete hr hv (endsExpr_cons rfl)
  obtain ⟨p, rest, hf, rfl⟩ := finish_complete hr start (.assign · target' value') h₂
  have hg := simpleStmt_gives_assign.mpr ⟨target', _, u, _, value', _, ht', hu, hv', hf⟩
  exact ⟨_, rest, hg, by rw [Stmt.relabel]; rfl, rfl⟩

theorem call_stmt_complete (hr : r.Whole) (start : Span) {tokens : List Token} {b : Word}
    {e : Expr} (h : Call (kinds tokens) e (.sign .semicolon :: b)) :
    Finds (Stmt.relabel .unplaced) (simpleStmt r start true tokens) (.call .nowhere e) b := by
  obtain ⟨e', _, he, rfl, h₁⟩ := call_complete hr h
  obtain ⟨p, rest, hf, rfl⟩ := finish_complete hr start (.call · e') h₁
  exact ⟨_, rest, simpleStmt_gives_call.mpr ⟨e', _, he, hf⟩, by rw [Stmt.relabel]; rfl, rfl⟩

/-- A statement that begins with a name is found: the reader decides between call and assignment
as the grammar does. -/
theorem simpleStmt_complete (hr : r.Whole) {tokens : List Token} {s : Stmt} {b : Word}
    (h : Statement (kinds tokens) s b) (hx : ∃ x more, kinds tokens = .identifier x :: more) :
    Finds (Stmt.relabel .unplaced) (stmt r tokens) s b := by
  obtain ⟨x, more, hx⟩ := hx
  obtain ⟨t, mid, ⟨rfl, hk, hreach⟩, rfl⟩ := hr.exists_takes hx
  simp only [Finds, stmt_gives_name hk]
  generalize ha : kinds (t :: mid) = a at h
  cases h with
  | assign ht hv =>
    subst ha
    -- the reader decides by the token after the name
    have hno := mt (Reading.current_kind_iff hr.ending (by decide)).mp
      (ht.tail_head?_ne ⟨by simp, by simp⟩)
    obtain ⟨s', rest, hs, htree, hrest⟩ := assign_complete hr t.span ht hv
    exact ⟨s', rest, ⟨hreach, by rw [decide_eq_false hno]; exact hs⟩, htree, hrest⟩
  | call hc =>
    subst ha
    obtain ⟨y, after, hy⟩ := hc.head
    injection hy with _ hy
    have hyes := r.current_kind_eq hy
    obtain ⟨s', rest, hs, htree, hrest⟩ := call_stmt_complete hr t.span hc
    exact ⟨s', rest, ⟨hreach, by rw [decide_eq_true hyes]; exact hs⟩, htree, hrest⟩
  | braces hb =>
    cases hb
    cases ha.symm.trans hx
  | _ => cases ha.symm.trans hx

/-- A `return` is found, with its value if it has one. No expression begins with a semicolon. -/
theorem return_complete (hr : r.Whole) {t : Token} {mid : List Token} {s : Stmt} {b : Word}
    (hk : t.kind = .word .returnWord) (h : Statement (.word .returnWord :: kinds mid) s b) :
    Finds (Stmt.relabel .unplaced) (stmt r (t :: mid)) s b := by
  simp only [Finds, stmt_gives_return hk]
  generalize ha : kinds mid = a at h
  cases h with
  | assign ht _ =>
    obtain ⟨_, _, hx⟩ := ht.head
    cases hx
  | call hc =>
    obtain ⟨_, _, hx⟩ := hc.head
    cases hx
  | braces hb => cases hb
  | give hv =>
    subst ha
    obtain ⟨k, more, hhead, hstart⟩ := hv.head
    have hne : (r.current mid).kind ≠ .sign .semicolon := by
      rw [r.current_kind_eq hhead]
      rintro rfl
      cases hstart
    obtain ⟨value, _, hv', rfl, hmid⟩ := expr_complete hr hv (endsExpr_cons rfl)
    obtain ⟨p, rest, hf, rfl⟩ := finish_complete hr t.span (.ret · (some value)) hmid
    have hg := returnValue_gives.mpr (.inr ⟨value, hne, hv', rfl⟩)
    exact ⟨_, rest, ⟨hr.reach_eq mid, _, _, hg, hf⟩, by rw [Stmt.relabel]; rfl, rfl⟩
  | giveNothing =>
    have hsemi := r.current_kind_eq ha
    obtain ⟨p, rest, hf, rfl⟩ := finish_complete hr t.span (.ret · none) ha
    have hg := returnValue_gives.mpr (.inl ⟨hsemi, rfl, rfl⟩)
    exact ⟨_, rest, ⟨hr.reach_eq mid, _, _, hg, hf⟩, by rw [Stmt.relabel]; rfl, rfl⟩

/-- What completeness says of the readers of blocks and statements. Statements end with the brace
of their block, and no `else` may come after a single one. -/
def CompleteStmts (r : Reading) : StmtReader → List Token → Prop
  | .block, tokens => ∀ {b c}, Braces (kinds tokens) b c →
    Finds (Block.relabel .unplaced) (block r tokens) b c
  | .stmts, tokens => ∀ {ss b}, Statements (kinds tokens) ss (.sign .closeBrace :: b) →
    Finds (List.map (Stmt.relabel .unplaced)) (stmts r tokens) ss (.sign .closeBrace :: b)
  | .stmt, tokens => ∀ {s b}, Statement (kinds tokens) s b →
    (∀ k ∈ b.head?, k ≠ .word .elseWord) → Finds (Stmt.relabel .unplaced) (stmt r tokens) s b

section Statements

variable {tokens : List Token}

theorem block_finds (hr : r.Whole) (below : Below StmtReader.rank (CompleteStmts r) .block tokens) :
    CompleteStmts r .block tokens := by
  intro b c h
  generalize ha : kinds tokens = a at h
  cases h with
  | mk hv hs =>
    obtain ⟨first, _, ht, rfl⟩ := hr.exists_takes ha
    obtain ⟨locals, _, hd, rfl, rfl⟩ := varDecls_complete hr hv hs.head_type?
    have hlt := Nat.lt_of_le_of_lt (Nat.le_of_lt_succ hd.length_lt) ht.length_lt
    obtain ⟨statements, _, hss, rfl, hlast⟩ := below.later .stmts hlt hs
    obtain ⟨last, rest, hu, rfl⟩ := hr.exists_takes hlast
    have hg := block_gives.mpr
      ⟨first, _, locals, _, statements, _, last, ht, hd, hss, hu, rfl⟩
    exact ⟨_, rest, hg, by rw [Block.relabel, relabelStmts_eq_map]; rfl, rfl⟩

/-- Statements are found up to the brace that ends their block. -/
theorem stmts_finds (below : Below StmtReader.rank (CompleteStmts r) .stmts tokens) :
    CompleteStmts r .stmts tokens := by
  intro ss b h
  generalize ha : kinds tokens = a at h
  cases h with
  | nil =>
    have hclose := r.current_kind_eq ha
    exact ⟨[], tokens, stmts_gives.mpr (.inl ⟨.inl hclose, rfl, rfl⟩), rfl, ha⟩
  | cons hs hss =>
    subst ha
    obtain ⟨k, more, hhead, hstart⟩ := hs.head
    -- no statement begins with what ends a block
    have hgo : ¬ ((r.current tokens).kind = .sign .closeBrace ∨
        (r.current tokens).kind = .endOfFile) := by
      rw [r.current_kind_eq hhead]
      rintro (rfl | rfl) <;> cases hstart
    obtain ⟨s', _, hs', rfl, rfl⟩ := below.now .stmt (by decide) hs hss.head_ne_else
    obtain ⟨ss', rest, hss', rfl, hrest⟩ := below.later .stmts hs'.length_lt hss
    exact ⟨_, rest, stmts_gives.mpr (.inr ⟨s', _, ss', hgo, hs', hss', rfl⟩), rfl, hrest⟩

/-- A statement is found, whichever rule derives it. Each rule begins with a kind of token that no
other rule begins with, apart from the two forms of a conditional and of a `return`, and calls and
assignments. -/
theorem stmt_finds (hr : r.Whole) (below : Below StmtReader.rank (CompleteStmts r) .stmt tokens) :
    CompleteStmts r .stmt tokens := by
  intro s b h hb
  generalize ha : kinds tokens = a at h
  cases h with
  | assign ht hv => exact simpleStmt_complete hr (ha ▸ .assign ht hv) (ha ▸ ht.head)
  | call hc =>
    obtain ⟨x, more, hx⟩ := hc.head
    exact simpleStmt_complete hr (ha ▸ .call hc) ⟨x, _, ha.trans hx⟩
  | ifThen htest hbody =>
    obtain ⟨t, mid, ⟨rfl, hk, hreach⟩, hmid⟩ := hr.exists_takes ha
    obtain ⟨test, _, htest', rfl, rfl⟩ := condition_complete hr hmid htest
    have hlt := Nat.lt_trans htest'.length_lt (Nat.lt_succ_self _)
    obtain ⟨body, rest, hbody', rfl, rfl⟩ := below.later .block hlt hbody
    -- without the hypothesis on what comes next, the reader could take an `else` from there
    have hno : (kinds rest).head? ≠ some (.word .elseWord) := fun he => hb _ he rfl
    exact ⟨_, rest, (stmt_gives_if hk).mpr
      ⟨hreach, test, _, body, rest, htest', hbody', .inr ⟨hno, rfl, rfl⟩⟩,
      by rw [Stmt.relabel]; rfl, rfl⟩
  | ifElse htest hbody hother =>
    obtain ⟨t, mid, ⟨rfl, hk, hreach⟩, hmid⟩ := hr.exists_takes ha
    obtain ⟨test, _, htest', rfl, rfl⟩ := condition_complete hr hmid htest
    have hlt := Nat.lt_trans htest'.length_lt (Nat.lt_succ_self _)
    obtain ⟨body, after, hbody', rfl, hafter⟩ := below.later .block hlt hbody
    obtain ⟨u, _, hu, rfl⟩ := hr.exists_takes hafter
    have hlt' := Nat.lt_trans hu.length_lt (Nat.lt_trans hbody'.length_lt hlt)
    obtain ⟨other, rest, hother', rfl, rfl⟩ := below.later .block hlt' hother
    exact ⟨_, rest, (stmt_gives_if hk).mpr
      ⟨hreach, test, _, body, after, htest', hbody', .inl ⟨u, _, other, hu, hother', rfl⟩⟩,
      by rw [Stmt.relabel]; rfl, rfl⟩
  | loop htest hbody =>
    obtain ⟨t, mid, ⟨rfl, hk, hreach⟩, hmid⟩ := hr.exists_takes ha
    obtain ⟨test, _, htest', rfl, rfl⟩ := condition_complete hr hmid htest
    have hlt := Nat.lt_trans htest'.length_lt (Nat.lt_succ_self _)
    obtain ⟨body, rest, hbody', rfl, rfl⟩ := below.later .block hlt hbody
    exact ⟨_, rest, (stmt_gives_while hk).mpr ⟨hreach, test, _, body, htest', hbody', rfl⟩,
      by rw [Stmt.relabel]; rfl, rfl⟩
  | give hv =>
    obtain ⟨t, mid, ⟨rfl, hk, _⟩, rfl⟩ := hr.exists_takes ha
    exact return_complete hr hk (.give hv)
  | giveNothing =>
    obtain ⟨t, mid, ⟨rfl, hk, _⟩, hmid⟩ := hr.exists_takes ha
    exact return_complete hr hk (hmid ▸ .giveNothing)
  | leave =>
    obtain ⟨t, mid, ⟨rfl, hk, hreach⟩, hmid⟩ := hr.exists_takes ha
    obtain ⟨p, rest, hf, rfl⟩ := finish_complete hr t.span .break hmid
    exact ⟨_, rest, (stmt_gives_break hk).mpr ⟨hreach, hf⟩, by rw [Stmt.relabel]; rfl, rfl⟩
  | again =>
    obtain ⟨t, mid, ⟨rfl, hk, hreach⟩, hmid⟩ := hr.exists_takes ha
    obtain ⟨p, rest, hf, rfl⟩ := finish_complete hr t.span .continue hmid
    exact ⟨_, rest, (stmt_gives_continue hk).mpr ⟨hreach, hf⟩, by rw [Stmt.relabel]; rfl, rfl⟩
  | braces hbody =>
    subst ha
    obtain ⟨body, rest, hbody', rfl, rfl⟩ := below.now .block (by decide) hbody
    obtain ⟨first, mid, _, _, _, _, _, ⟨rfl, hk, _⟩, _⟩ := block_gives.mp hbody'
    exact ⟨_, rest, (stmt_gives_brace hk).mpr ⟨body, hbody', rfl⟩, by rw [Stmt.relabel]; rfl, rfl⟩

/-- The induction: readers of statements find what the grammar derives. -/
theorem completeStmts (hr : r.Whole) : ∀ x tokens, CompleteStmts r x tokens := by
  refine ranked_induction StmtReader.rank fun x tokens below => ?_
  cases x with
  | block => exact block_finds hr below
  | stmts => exact stmts_finds below
  | stmt => exact stmt_finds hr below

/-- A block is found. -/
theorem block_complete (hr : r.Whole) {b : Block} {c : Word} (h : Braces (kinds tokens) b c) :
    Finds (Block.relabel .unplaced) (block r tokens) b c :=
  completeStmts hr .block tokens h

end Statements

/-! ## Programs -/

/-- Parameters are found, unless a comma follows that would call for one more. -/
theorem paramList_complete (hr : r.Whole) {tokens : List Token} {ps : List Param} {a b : Word}
    (ha : kinds tokens = a) (h : ParameterList a ps b)
    (hb : b.head? ≠ some (.sign .comma)) :
    Finds (List.map (Param.relabel .unplaced)) (paramList r tokens) ps b := by
  induction h generalizing tokens with
  | one hk =>
    obtain ⟨t, _, ht, hmid⟩ := hr.exists_takes ha
    obtain ⟨u, rest, hu, rfl⟩ := hr.exists_takes hmid
    have hg := paramList_gives.mpr ⟨_, _, t, _, _, u, rest, ht, hk, hu, .inr ⟨hb, rfl, rfl⟩⟩
    exact ⟨_, rest, hg, rfl, rfl⟩
  | more hk _ ih =>
    obtain ⟨t, _, ht, hmid⟩ := hr.exists_takes ha
    obtain ⟨u, _, hu, hafter⟩ := hr.exists_takes hmid
    obtain ⟨c, _, hc, rfl⟩ := hr.exists_takes hafter
    obtain ⟨others, rest, hothers, rfl, rfl⟩ := ih rfl hb
    have hg := paramList_gives.mpr
      ⟨_, _, t, _, _, u, _, ht, hk, hu, .inl ⟨c, _, others, hc, hothers, rfl⟩⟩
    exact ⟨_, rest, hg, rfl, rfl⟩

/-- No parameter begins with a closing parenthesis, so the reader sees whether there are any. -/
theorem params_complete (hr : r.Whole) {tokens : List Token} {ps : List Param} {b : Word}
    (h : Parameters (kinds tokens) ps (.sign .closeParen :: b)) :
    Finds (List.map (Param.relabel .unplaced)) (params r tokens) ps (.sign .closeParen :: b) := by
  generalize ha : kinds tokens = a at h
  cases h with
  | none =>
    have hk := r.current_kind_eq ha
    exact ⟨[], tokens, params_gives.mpr (.inl ⟨hk, rfl, rfl⟩), rfl, ha⟩
  | some hps =>
    subst ha
    obtain ⟨k, ty, more, hk, hhead⟩ := hps.head
    have hne : (r.current tokens).kind ≠ .sign .closeParen := by
      rw [r.current_kind_eq hhead]
      rintro rfl
      cases hk
    obtain ⟨ps', rest, hps', rfl, hrest⟩ := paramList_complete hr rfl hps (by simp)
    exact ⟨ps', rest, params_gives.mpr (.inr ⟨hne, hps'⟩), rfl, hrest⟩

/-- Behind a type and a name the rest of a function is found. -/
theorem functionRest_complete (hr : r.Whole) (x : String) (ty : Ty) (start : Span)
    {tokens : List Token} {a b c : Word} {ps : List Param} {body : Block}
    (ha : kinds tokens = .sign .openParen :: a) (hps : Parameters a ps (.sign .closeParen :: b))
    (hbody : Braces b body c) :
    Finds (Function.relabel .unplaced) (functionRest r x ty start tokens)
      ⟨x, ty, ps, body, .nowhere, none⟩ c := by
  obtain ⟨t, _, ht, rfl⟩ := hr.exists_takes ha
  obtain ⟨ps', _, hps', rfl, hmid⟩ := params_complete hr hps
  obtain ⟨u, _, hu, rfl⟩ := hr.exists_takes hmid
  obtain ⟨body', rest, hbody', rfl, rfl⟩ := block_complete hr hbody
  exact ⟨_, rest, functionRest_gives.mpr
    ⟨t, _, ps', _, u, _, body', ht, hps', hu, hbody', rfl⟩, rfl, rfl⟩

/-- What stands at the top level is found, behind the optional word. The reader tells functions
and variables apart by the token behind the name. -/
theorem topLevel_complete (hr : r.Whole) {tokens first : List Token} {item : TopLevel} {b : Word}
    (hdef : (∃ d, r.Takes (.word .defWord) tokens d first) ∨
      ((kinds tokens).head? ≠ some (.word .defWord) ∧ first = tokens))
    (h : Item (kinds first) item b) :
    Finds TopLevel.unplaced (topLevel r tokens) item b := by
  simp only [Finds, topLevel_gives]
  generalize ha : kinds first = a at h
  cases h with
  | global hd =>
    obtain ⟨k, ty, x, more, hk, rfl⟩ := hd.head
    obtain ⟨t, _, ht, hmid⟩ := hr.exists_takes ha
    obtain ⟨u, rest₃, hu, rfl⟩ := hr.exists_takes hmid
    have hne : (r.current rest₃).kind ≠ .sign .openParen := by
      rw [Ne, Reading.current_kind_iff hr.ending (by decide)]
      exact hd.not_called
    obtain ⟨d, rest, hd', rfl, rfl⟩ := varRest_complete hr (r.current tokens).span hk hd
    exact ⟨_, rest, ⟨first, k, ty, t, _, x, u, rest₃, hdef, ht, hk, hu,
      .inr ⟨d, hne, hd', rfl⟩⟩, rfl, rfl⟩
  | function hk hps hbody =>
    obtain ⟨t, _, ht, hmid⟩ := hr.exists_takes ha
    obtain ⟨u, rest₃, hu, hopen⟩ := hr.exists_takes hmid
    have hyes := r.current_kind_eq hopen
    obtain ⟨f, rest, hf, hf', rfl⟩ :=
      functionRest_complete hr _ _ (r.current tokens).span hopen hps hbody
    exact ⟨_, rest, ⟨first, _, _, t, _, _, u, rest₃, hdef, ht, hk, hu,
      .inl ⟨f, hyes, hf, rfl⟩⟩, congrArg TopLevel.function hf', rfl⟩

/-- A program is found, and nothing is left: the induction is on the derivation. -/
theorem topLevels_complete (hr : r.Whole) {tokens : List Token} {items : List TopLevel}
    (h : Items (kinds tokens) items) :
    ∃ items', topLevels r tokens = .ok items' ∧ items'.map (·.unplaced) = items := by
  generalize ha : kinds tokens = a at h
  induction h generalizing tokens with
  | nil =>
    obtain rfl := List.map_eq_nil_iff.mp ha
    exact ⟨[], topLevels_eq_ok_iff.mpr (.inl ⟨hr.ending, rfl⟩), rfl⟩
  | plain hitem _ ih =>
    subst ha
    obtain ⟨k, ty, x, more, hk, hhead⟩ := hitem.head
    have hgo : (r.current tokens).kind ≠ .endOfFile := by
      rw [r.current_kind_eq hhead]
      exact hk.ne_endOfFile
    have hno : (kinds tokens).head? ≠ some (.word .defWord) := by
      rw [hhead]
      intro he
      cases Option.some.inj he
      cases hk
    obtain ⟨item, _, hitem', rfl, rfl⟩ := topLevel_complete hr (.inr ⟨hno, rfl⟩) hitem
    obtain ⟨others, hothers, rfl⟩ := ih rfl
    exact ⟨_, topLevels_eq_ok_iff.mpr (.inr ⟨item, _, others, hgo, hitem', hothers, rfl⟩), rfl⟩
  | defined hitem _ ih =>
    obtain ⟨d, first, hd, rfl⟩ := hr.exists_takes ha
    have hgo : (r.current tokens).kind ≠ .endOfFile := by
      rw [r.current_kind_eq ha]
      decide
    obtain ⟨item, _, hitem', rfl, rfl⟩ := topLevel_complete hr (.inl ⟨d, hd⟩) hitem
    obtain ⟨others, hothers, rfl⟩ := ih rfl
    exact ⟨_, topLevels_eq_ok_iff.mpr (.inr ⟨item, _, others, hgo, hitem', hothers, rfl⟩), rfl⟩

end Parser

end Decaf
