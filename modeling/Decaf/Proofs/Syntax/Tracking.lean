import Decaf.Proofs.Syntax.Behaviour
import Decaf.Proofs.Syntax.Induction

/-!
# What the readers track

Every reader tracks itself: a reading of some tokens, whether or not an unreadable
spot comes behind them, stands in the relation `Tracks` to the language of its
construct and to what the same reader does on a text that is readable to its end.
There is one lemma for each reader (`expr_tracks`, `block_tracks`, `topLevels_falters`
and so on), put together as the reader is. Nothing is known about how the reading ends,
so the induction is the one on tokens and ranks.

The first of the two readings is `r`, the second, on the readable text, is `r'`.
-/

namespace Decaf.Parser

open Grammar

variable {r r' : Reading}

/-! ## Single tokens -/

/-- A demanded sign is there, or the complaint is about the token in its place, before it is
taken. -/
theorem expect_tracks (hr' : r'.Whole) {s : Sign} {tokens : List Token}
    (hr : r.reach tokens = .ok ()) :
    Tracks r (token (.sign s)) (fun ts => Ends r' (expect r' (.sign s) ts)) tokens
      (expect r (.sign s) tokens) := by
  have hopens := Opens.sign s
  cases tokens with
  | nil =>
    exact .refuseEnd hr (.inl rfl) rfl rfl hopens (.early rfl rfl rfl)
  | cons t rest =>
    rw [expect]
    split
    · next h =>
      refine (Tracks.take h .one fun hrest => Tracks.skip hrest).relax (mul_one _).le ?_
      intro ts o _ ho
      obtain ⟨u, mid, rfl, hu, rfl⟩ := ho
      exact ⟨u, expect_gives.mpr ⟨rfl, hu, hr'.reach_eq mid⟩⟩
    · next h =>
      refine .refuse hr rfl rfl hopens fun u mid hu => ?_
      refine Complains.early (e := .unexpected (.kind (.sign s)) u) ?_ rfl rfl
      rw [expect, if_neg (hu ▸ h)]
      rfl

/-- The same for the name of a type. -/
theorem type_tracks (hr' : r'.Whole) {tokens : List Token} (hr : r.reach tokens = .ok ()) :
    Tracks r (single IsTypeName) (fun ts => Ends r' (type r' ts)) tokens (type r tokens) := by
  cases tokens with
  | nil =>
    exact .refuseEnd hr (.inl rfl) rfl rfl .typeName (.early rfl rfl rfl)
  | cons t rest =>
    cases hty : t.kind.type? with
    | some ty =>
      have hname := Token.Kind.type?_eq_some_iff.mp hty
      rw [type]
      simp only [hty]
      refine (Tracks.take ⟨ty, hname⟩ .one fun hrest => Tracks.skip hrest).relax (mul_one _).le ?_
      intro ts o _ ho
      obtain ⟨u, mid, rfl, ⟨ty', hu⟩, rfl⟩ := ho
      exact ⟨(ty', u.span), type_gives.mpr ⟨_, u, ⟨rfl, rfl, hr'.reach_eq mid⟩, hu, rfl⟩⟩
    | none =>
      rw [type]
      simp only [hty]
      refine .refuse hr rfl rfl .typeName fun u mid hu => ?_
      refine Complains.early (e := .unexpected .type u) ?_ rfl rfl
      rw [type]
      simp only [hu, hty]
      rfl

theorem identifier_cons {t : Token} {rest : List Token} {x : String}
    (hx : t.kind = .identifier x) :
    identifier r (t :: rest) =
      (r.reach rest >>= fun _ => pure ⟨(x, t.span), rest, Parsed.tail_lt t rest⟩) := by
  rw [identifier]
  simp only [hx]

/-- A token that is no name is taken before it is complained about. -/
theorem identifier_other {t : Token} {rest : List Token} (hx : ¬ IsIdentifier t.kind) :
    identifier r (t :: rest) = (r.reach rest >>= fun _ => .error (.unexpected .identifier t)) := by
  rw [identifier]
  split
  · next x hk => exact absurd ⟨x, hk⟩ hx
  · rfl

/-- A name differs from other tokens: the reader takes what stands there and complains afterwards.
So behind it an unreadable spot is reported first. -/
theorem identifier_tracks (hr' : r'.Whole) {tokens : List Token} (hr : r.reach tokens = .ok ()) :
    Tracks r (single IsIdentifier) (fun ts => Ends r' (identifier r' ts)) tokens
      (identifier r tokens) := by
  cases tokens with
  | nil =>
    exact .refuseEnd hr (.inr (.inl rfl)) rfl rfl .identifier ⟨_, rfl, rfl, rfl, fun _ => .inl rfl⟩
  | cons t rest =>
    by_cases hx : IsIdentifier t.kind
    · obtain ⟨x, hx'⟩ := hx
      rw [identifier_cons hx']
      refine (Tracks.take ⟨x, hx'⟩ .one fun hrest => Tracks.skip hrest).relax (mul_one _).le ?_
      intro ts o _ ho
      obtain ⟨u, mid, rfl, ⟨y, hu⟩, rfl⟩ := ho
      exact ⟨(y, u.span), identifier_gives.mpr ⟨u, ⟨rfl, hu, hr'.reach_eq mid⟩, rfl⟩⟩
    · have hsaid (h : r.reach rest = .ok ()) :
          SaidOfTaken r (t :: rest) (.unexpected .identifier t) :=
        .inl (by rw [identifier_other hx, h]; rfl)
      rw [identifier_other hx]
      refine (Tracks.complainLate hsaid rfl rfl .identifier).relax le_rfl fun ts o hs ho => ?_
      obtain ⟨u, mid, rfl, hu⟩ := hs.eq_cons
      cases ho
      have he : identifier r' (u :: mid) = .error (.unexpected .identifier u) := by
        rw [identifier_other (hu ▸ hx), hr'.reach_bind]
      exact ⟨_, he, rfl, rfl, fun _ => .inl he⟩

/-- A length that fits is given once the text behind it is reached. -/
theorem arrayLength_cons {t : Token} (ht : IsLength t.kind) (rest : List Token) :
    ∃ n, arrayLength r (t :: rest) =
      (r.reach rest >>= fun _ => pure ⟨n, rest, Parsed.tail_lt t rest⟩) := by
  obtain ⟨text, hk, hle⟩ := ht
  refine ⟨digitsValue 10 text.toList, ?_⟩
  rw [arrayLength]
  simp only [hk, lengthOfDecimal?_eq_some_iff.mpr ⟨hle, rfl⟩]

/-- What is no array length is complained about once it is taken. -/
theorem arrayLength_other {t : Token} (ht : ¬ IsLength t.kind) :
    ∃ e : ParseError, e.late? = some true ∧ e.span = t.span ∧
      ∀ rest, arrayLength r (t :: rest) = (r.reach rest >>= fun _ => .error e) := by
  by_cases hd : ∃ text, t.kind = .decLiteral text
  · obtain ⟨text, hk⟩ := hd
    have hnone : lengthOfDecimal? text = none := by
      cases hn : lengthOfDecimal? text with
      | none => rfl
      | some n => exact absurd ⟨text, hk, (lengthOfDecimal?_eq_some_iff.mp hn).1⟩ ht
    refine ⟨.lengthTooLarge text t.span, rfl, rfl, fun rest => ?_⟩
    rw [arrayLength]
    simp only [hk, hnone]
    rfl
  · refine ⟨.unexpected .arrayLength t, rfl, rfl, fun rest => ?_⟩
    rw [arrayLength]
    split
    · next text hk => exact absurd ⟨text, hk⟩ hd
    · rfl

theorem arrayLength_tracks (hr' : r'.Whole) {tokens : List Token} (hr : r.reach tokens = .ok ()) :
    Tracks r (single IsLength) (fun ts => Ends r' (arrayLength r' ts)) tokens
      (arrayLength r tokens) := by
  cases tokens with
  | nil =>
    exact .refuseEnd hr (.inr (.inr rfl)) rfl rfl .length ⟨_, rfl, rfl, rfl, fun _ => .inr rfl⟩
  | cons t rest =>
    by_cases ht : IsLength t.kind
    · obtain ⟨n, hn⟩ := arrayLength_cons (r := r) ht rest
      rw [hn]
      refine (Tracks.take ht .one fun hrest => Tracks.skip hrest).relax (mul_one _).le ?_
      intro ts o _ ho
      obtain ⟨u, mid, rfl, ⟨text', hu, hle'⟩, rfl⟩ := ho
      exact ⟨_, arrayLength_gives.mpr ⟨text', u, ⟨rfl, hu, hr'.reach_eq mid⟩,
        lengthOfDecimal?_eq_some_iff.mpr ⟨hle', rfl⟩⟩⟩
    · obtain ⟨e, hlate, hspan, he⟩ := arrayLength_other (r := r) ht
      -- the token is taken first: behind an unreadable spot there is no complaint about it
      have hsaid (h : r.reach rest = .ok ()) : SaidOfTaken r (t :: rest) e :=
        .inr (by rw [he, h]; rfl)
      rw [he]
      refine (Tracks.complainLate hsaid hlate hspan .length).relax le_rfl fun ts o hs ho => ?_
      obtain ⟨u, mid, rfl, hu⟩ := hs.eq_cons
      obtain ⟨e', hlate', hspan', he'⟩ := arrayLength_other (r := r') (hu ▸ ht)
      cases ho
      have herror : arrayLength r' (u :: mid) = .error e' := by
        rw [he', hr'.reach_bind]
      exact ⟨e', herror, hlate', hspan', fun _ => .inr herror⟩

/-! ## Tokens that may be there -/

section

variable {α : Type} {n : Nat} {k : Token.Kind} {tokens : List Token} {L M : Language Token.Kind}
  {B C : Behaviour}

theorem optional_cons_bind {t : Token} {rest : List Token} (hk : t.kind = k)
    (f : Parsed Bool ((t :: rest).length + 1) → Except ParseError (Parsed α n)) :
    (optional r k (t :: rest) >>= f) =
      (r.reach rest >>= fun _ => f ⟨true, rest, Parsed.tail_lt_succ t rest⟩) := by
  rw [optional, if_pos hk]
  cases r.reach rest <;> rfl

theorem optional_other_bind (hk : (kinds tokens).head? ≠ some k)
    (f : Parsed Bool (tokens.length + 1) → Except ParseError (Parsed α n)) :
    (optional r k tokens >>= f) = f ⟨false, tokens, Parsed.self_lt tokens⟩ := by
  cases tokens with
  | nil => rfl
  | cons t rest =>
    have hne : t.kind ≠ k := fun h => hk (congrArg some h)
    rw [optional, if_neg hne]
    rfl

/-- A token that may be there is a choice, between a row with it and one without it. -/
theorem optional_tracks (hL : Opens L [])
    {f : Parsed Bool (tokens.length + 1) → Except ParseError (Parsed α n)}
    (htaken : ∀ (rest : List Token) (h : rest.length < tokens.length + 1),
      rest.length < tokens.length → r.reach rest = .ok () → Tracks r L B rest (f ⟨true, rest, h⟩))
    (hleft : (kinds tokens).head? ≠ some k →
      Tracks r M C tokens (f ⟨false, tokens, Parsed.self_lt tokens⟩)) :
    Tracks r (token k * L + M) (Behaviour.choice k B C) tokens (optional r k tokens >>= f) := by
  by_cases hk : (kinds tokens).head? = some k
  · cases tokens with
    | nil => cases hk
    | cons t rest =>
      have hk' : t.kind = k := Option.some.inj hk
      rw [optional_cons_bind hk']
      refine (Tracks.take hk' hL fun hrest => htaken rest _ (Parsed.tail_lt t rest) hrest).relax
        le_self_add fun ts o _ ho => .taken ho
  · rw [optional_other_bind hk]
    exact (hleft hk).relax le_add_self fun ts o hs ho => .left (hs ▸ hk) ho

/-- On the readable text the choice is made in the same way. -/
theorem optional_ends (hr' : r'.Whole) {ts : List Token} {o : Outcome}
    {g : Parsed Bool (ts.length + 1) → Except ParseError (Parsed α n)}
    (ho : Behaviour.choice k B C ts o)
    (htaken : ∀ (rest : List Token) (h : rest.length < ts.length + 1) (o : Outcome), B rest o →
      Ends r' (g ⟨true, rest, h⟩) o)
    (hleft : ∀ o, C ts o → Ends r' (g ⟨false, ts, Parsed.self_lt ts⟩) o) :
    Ends r' (optional r' k ts >>= g) o := by
  cases ho with
  | taken h =>
    obtain ⟨t, rest, rfl, hk, hB⟩ := h
    rw [optional_cons_bind hk, hr'.reach_bind]
    exact htaken rest _ o hB
  | left hk hC =>
    rw [optional_other_bind hk]
    exact hleft o hC

end

/-! ## Expressions -/

theorem identifier_cons_bind {α : Type} {n : Nat} {t : Token} {rest : List Token} {x : String}
    (hx : t.kind = .identifier x)
    (f : Parsed (String × Span) (t :: rest).length → Except ParseError (Parsed α n)) :
    (identifier r (t :: rest) >>= f) =
      (r.reach rest >>= fun _ => f ⟨(x, t.span), rest, Parsed.tail_lt t rest⟩) := by
  rw [identifier_cons hx]
  cases r.reach rest <;> rfl

/-- A literal is taken as soon as it is known to denote a value. -/
theorem primary_literal {t : Token} {v : Literal} (hv : Denotes t.kind v) (rest : List Token) :
    primary r (t :: rest) = (r.reach rest >>= fun _ =>
      pure ⟨.literal (r.place t.span) none v, rest, Parsed.tail_lt t rest⟩) := by
  have hl := literal?_eq_ok_iff.mpr hv
  rw [primary]
  split
  · next hk => rw [literal?_openParen hk] at hl; cases hl
  · next x hk => rw [literal?_identifier hk] at hl; cases hl
  · simp only [hl]
    rfl

/-- What no primary expression begins with is complained about before it is taken. -/
theorem primary_other {t : Token} (hp : t.kind ≠ .sign .openParen) (hx : ¬ IsIdentifier t.kind)
    (hl : ¬ IsLiteral t.kind) :
    ∃ e : ParseError, e.late? = some false ∧ e.span = t.span ∧
      ∀ rest, primary r (t :: rest) = .error e := by
  have heq : ∀ rest, primary r (t :: rest) = (literal? t).elim
      (.error (.unexpected .expression t))
      fun value => value >>= fun value => r.reach rest >>= fun _ =>
        pure ⟨.literal (r.place t.span) none value, rest, Parsed.tail_lt t rest⟩ := by
    intro rest
    rw [primary]
    split
    · next hk => exact absurd hk hp
    · next x hk => exact absurd ⟨x, hk⟩ hx
    · cases literal? t <;> rfl
  cases hv : literal? t with
  | none =>
    refine ⟨.unexpected .expression t, rfl, rfl, fun rest => ?_⟩
    rw [heq, hv]
    rfl
  | some value =>
    cases value with
    | ok v => exact absurd ⟨v, literal?_eq_ok_iff.mp hv⟩ hl
    | error e =>
      refine ⟨e, ?_, ?_, fun rest => by rw [heq, hv]; rfl⟩
      all_goals
        unfold literal? at hv
        split at hv <;> first | (split at hv <;> cases hv <;> rfl) | cases hv

/-- What tracking says of the readers of expressions: each tracks itself where the text is
readable. A name is called if a parenthesis follows it, and a location if not; whatever begins
like it, up to where this reading ends, agrees with it on that. -/
def TrackedExprs (r r' : Reading) : ExprReader → List Token → Prop
  | .expr, tokens => r.reach tokens = .ok () →
    Tracks r (phrases (ExprAt 1)) (fun ts => Ends r' (expr r' ts)) tokens (expr r tokens)
  | .operators, tokens => r.reach tokens = .ok () →
    Tracks r (phrases (Operators 7)) (fun ts => Ends r' (operators r' ts)) tokens
      (operators r tokens)
  | .operand, tokens => r.reach tokens = .ok () →
    Tracks r (phrases (ExprAt 7)) (fun ts => Ends r' (operand r' ts)) tokens (operand r tokens)
  | .primary, tokens => r.reach tokens = .ok () →
    Tracks r (phrases Primary) (fun ts => Ends r' (primary r' ts)) tokens (primary r tokens)
  | .callOrLocation, tokens => ∀ t rest x, tokens = t :: rest → t.kind = .identifier x →
    Tracks r (if (kinds rest).head? = some (.sign .openParen) then phrases Call
        else phrases Location)
      (fun ts o => SameHead rest ts.tail ∧ Ends r' (callOrLocation r' ts) o) tokens
      (callOrLocation r tokens)
  | .arguments, tokens => r.reach tokens = .ok () →
    Tracks r (phrases Arguments) (fun ts => Ends r' (arguments r' ts)) tokens
      (arguments r tokens)
  | .argumentList, tokens => r.reach tokens = .ok () →
    Tracks r (phrases ArgumentList) (fun ts => Ends r' (argumentList r' ts)) tokens
      (argumentList r tokens)

section Expressions

variable {tokens : List Token}

/-- An expression tracks itself as its operand and its chain do. -/
theorem expr_step
    (below : Below ExprReader.rank (TrackedExprs r r') .expr tokens) :
    TrackedExprs r r' .expr tokens := by
  intro hr
  rw [expr]
  refine Tracks.relax (.seq (below.now .operand (by decide) hr) (Opens.operators.mul_left .one)
    fun _ _ hlt hmid => .seq (below.later .operators hlt hmid) .one
    fun _ _ _ hrest => .skip hrest) (by simpa only [mul_one] using expr_rule) ?_
  intro ts o _ ho
  rw [expr]
  exact Ends.bind ho (fun _ => id) fun _ _ _ _ ho => Ends.bind ho (fun _ => id)
    fun _ _ _ _ ho => Ends.pure ho

/-- The chain looks at one token to see whether it goes on. Whatever shares that token goes on or
stops likewise. -/
theorem operators_step (hr' : r'.Whole)
    (below : Below ExprReader.rank (TrackedExprs r r') .operators tokens) :
    TrackedExprs r r' .operators tokens := by
  intro hr
  cases tokens with
  | nil =>
    rw [operators]
    refine (Tracks.skip hr).relax noOperators_rule fun ts o hs ho => ?_
    rw [hs.eq_nil] at ho ⊢
    rw [operators]
    exact Ends.pure ho
  | cons t rest =>
    cases hop : t.kind.binaryOp? with
    | none =>
      rw [operators]
      simp only [hop]
      refine (Tracks.skip hr).relax noOperators_rule fun ts o hs ho => ?_
      obtain ⟨u, mid, rfl, hu⟩ := hs.eq_cons
      rw [operators]
      simp only [hu, hop]
      exact Ends.pure ho
    | some op =>
      have hbinary : IsBinary t.kind := ⟨op, Token.Kind.binaryOp?_eq_some_iff.mp hop⟩
      have htail := Parsed.tail_lt t rest
      rw [operators]
      simp only [hop]
      refine Tracks.relax (.take hbinary (Opens.operand.mul_left (Opens.operators.mul_left .one))
        fun hrest => .seq (below.later .operand htail hrest) (Opens.operators.mul_left .one)
        fun _ _ hlt hmid => .seq (below.later .operators (Nat.lt_trans hlt htail) hmid) .one
        fun _ _ _ hlast => .skip hlast) (by simpa only [mul_one] using operators_rule) ?_
      intro ts o hs ho
      obtain ⟨u, mid, rfl, hu⟩ := hs.eq_cons
      obtain ⟨_, _, ⟨rfl, rfl⟩, _, ho⟩ := ho
      rw [operators]
      simp only [hu, hop, hr'.reach_bind]
      exact Ends.bind ho (fun _ => id) fun _ _ _ _ ho => Ends.bind ho (fun _ => id)
        fun _ _ _ _ ho => Ends.pure ho

/-- The same for the operators before an operand. -/
theorem operand_step (hr' : r'.Whole)
    (below : Below ExprReader.rank (TrackedExprs r r') .operand tokens) :
    TrackedExprs r r' .operand tokens := by
  intro hr
  cases tokens with
  | nil =>
    rw [operand]
    refine (below.now .primary (by decide) hr).relax primary_rule fun ts o hs ho => ?_
    rw [hs.eq_nil] at ho ⊢
    rw [operand]
    exact ho
  | cons t rest =>
    cases hop : t.kind.unaryOp? with
    | none =>
      rw [operand]
      simp only [hop]
      refine (below.now .primary (by decide) hr).relax primary_rule fun ts o hs ho => ?_
      obtain ⟨u, mid, rfl, hu⟩ := hs.eq_cons
      rw [operand]
      simp only [hu, hop]
      exact ho
    | some op =>
      have hunary : IsUnary t.kind := ⟨op, Token.Kind.unaryOp?_eq_some_iff.mp hop⟩
      rw [operand]
      simp only [hop]
      refine Tracks.relax (.take hunary (Opens.operand.mul_left .one)
        fun hrest => .seq (below.later .operand (Parsed.tail_lt t rest) hrest) .one
        fun _ _ _ hlast => .skip hlast) (by simpa only [mul_one] using unary_rule) ?_
      intro ts o hs ho
      obtain ⟨u, mid, rfl, hu⟩ := hs.eq_cons
      obtain ⟨_, _, ⟨rfl, rfl⟩, _, ho⟩ := ho
      rw [operand]
      simp only [hu, hop, hr'.reach_bind]
      exact Ends.bind ho (fun _ => id) fun _ _ _ _ ho => Ends.pure ho

/-- An expression in parentheses. -/
theorem parens_step (hr' : r'.Whole) {t : Token} {rest : List Token}
    (hp : t.kind = .sign .openParen)
    (below : Below ExprReader.rank (TrackedExprs r r') .primary (t :: rest)) :
    Tracks r (phrases Primary) (fun ts => Ends r' (primary r' ts)) (t :: rest)
      (primary r (t :: rest)) := by
  rw [primary]
  simp only [hp]
  refine Tracks.relax (.takeToken hp (Opens.expr.mul_left ((Opens.sign _).mul_left .one))
    fun hrest => .seq (below.later .expr (Parsed.tail_lt t rest) hrest)
      ((Opens.sign _).mul_left .one)
    fun _ _ _ hmid => .seq (expect_tracks hr' hmid) .one
    fun _ _ _ hlast => .skip hlast) (by simpa only [mul_one] using parens_rule) ?_
  intro ts o hs ho
  obtain ⟨u, mid, rfl, hu, ho⟩ := ho
  rw [primary]
  simp only [hu, hr'.reach_bind]
  exact Ends.bind ho (fun _ => id) fun _ _ _ _ ho => Ends.bind ho (fun _ => id)
    fun _ _ _ _ ho => Ends.pure ho

/-- A name is handed on before it is taken. -/
theorem named_step {t : Token} {rest : List Token} {x : String} (hx : t.kind = .identifier x)
    (below : Below ExprReader.rank (TrackedExprs r r') .primary (t :: rest)) :
    Tracks r (phrases Primary) (fun ts => Ends r' (primary r' ts)) (t :: rest)
      (primary r (t :: rest)) := by
  rw [primary]
  simp only [hx]
  refine (below.now .callOrLocation (by decide) t rest x rfl hx).relax ?_ fun ts o hs ho => ?_
  · split
    · exact callExpr_rule
    · exact location_rule
  · obtain ⟨u, mid, rfl, hu⟩ := hs.eq_cons
    rw [primary]
    simp only [hu, hx]
    exact ho.2

/-- A literal is a single token, whatever its value. -/
theorem literal_step (hr' : r'.Whole) {t : Token} {rest : List Token} {v : Literal}
    (hv : Denotes t.kind v) :
    Tracks r (phrases Primary) (fun ts => Ends r' (primary r' ts)) (t :: rest)
      (primary r (t :: rest)) := by
  have hl : IsLiteral t.kind := ⟨v, hv⟩
  rw [primary_literal hv]
  refine (Tracks.take hl .one fun hrest => Tracks.skip hrest).relax
    (by simpa only [mul_one] using literal_rule) ?_
  intro ts o hs ho
  obtain ⟨u, mid, rfl, ⟨v', hv'⟩, ho⟩ := ho
  rw [primary_literal hv', hr'.reach_bind]
  exact Ends.pure ho

/-- A primary expression is told by its first token; what none begins with is refused. -/
theorem primary_step (hr' : r'.Whole)
    (below : Below ExprReader.rank (TrackedExprs r r') .primary tokens) :
    TrackedExprs r r' .primary tokens := by
  intro hr
  cases tokens with
  | nil =>
    rw [primary]
    exact .refuseEnd hr (.inl rfl) rfl rfl .primary (.early (by rw [primary]) rfl rfl)
  | cons t rest =>
    by_cases hp : t.kind = .sign .openParen
    · exact parens_step hr' hp below
    by_cases hx : IsIdentifier t.kind
    · obtain ⟨x, hx⟩ := hx
      exact named_step hx below
    by_cases hl : IsLiteral t.kind
    · obtain ⟨v, hv⟩ := hl
      exact literal_step hr' hv
    · obtain ⟨e, hlate, hspan, he⟩ := primary_other (r := r) hp hx hl
      rw [he]
      refine .refuse hr hlate hspan .primary fun u mid hu => ?_
      obtain ⟨e', hlate', hspan', he'⟩ := primary_other (r := r') (hu ▸ hp) (hu ▸ hx) (hu ▸ hl)
      exact .early (he' mid) hlate' hspan'

/-- Behind the name of a call come its arguments, in parentheses. -/
theorem call_step (hr' : r'.Whole) {t u : Token} {rest : List Token} {x : String}
    (hx : t.kind = .identifier x) (hu : u.kind = .sign .openParen)
    (below : Below ExprReader.rank (TrackedExprs r r') .callOrLocation (t :: u :: rest)) :
    Tracks r (phrases Call)
      (fun ts o => SameHead (u :: rest) ts.tail ∧ Ends r' (callOrLocation r' ts) o)
      (t :: u :: rest) (callOrLocation r (t :: u :: rest)) := by
  have hlt := Nat.lt_trans (Parsed.tail_lt u rest) (Parsed.tail_lt t (u :: rest))
  have hname : IsIdentifier t.kind := ⟨x, hx⟩
  rw [callOrLocation, identifier_cons_bind hx]
  dsimp only
  simp only [optional_cons_bind hu]
  refine Tracks.relax (.take hname ((Opens.sign _).mul_left (Opens.arguments.mul_left
      ((Opens.sign _).mul_left .one)))
    fun _ => .takeToken hu (Opens.arguments.mul_left ((Opens.sign _).mul_left .one))
    fun hrest => .seq (below.later .arguments hlt hrest) ((Opens.sign _).mul_left .one)
    fun _ _ _ hmid => .seq (expect_tracks hr' hmid) .one
    fun _ _ _ hlast => .skip hlast) (by simpa only [mul_one] using call_rule) ?_
  intro ts o hs ho
  obtain ⟨t', _, rfl, ⟨x', hx'⟩, u', mid, rfl, hu', ho⟩ := ho
  refine ⟨congrArg some (hu.trans hu'.symm), ?_⟩
  rw [callOrLocation, identifier_cons_bind hx', hr'.reach_bind]
  dsimp only
  rw [optional_cons_bind hu', hr'.reach_bind]
  exact Ends.bind ho (fun _ => id) fun _ _ _ _ ho => Ends.bind ho (fun _ => id)
    fun _ _ _ _ ho => Ends.pure ho

/-- Behind the name of an element comes its index, in brackets. -/
theorem element_step (hr' : r'.Whole) {t u : Token} {rest : List Token} {x : String}
    (hx : t.kind = .identifier x) (hu : u.kind = .sign .openBracket)
    (hp : (kinds (u :: rest)).head? ≠ some (.sign .openParen))
    (below : Below ExprReader.rank (TrackedExprs r r') .callOrLocation (t :: u :: rest)) :
    Tracks r (phrases Location)
      (fun ts o => SameHead (u :: rest) ts.tail ∧ Ends r' (callOrLocation r' ts) o)
      (t :: u :: rest) (callOrLocation r (t :: u :: rest)) := by
  have hlt := Nat.lt_trans (Parsed.tail_lt u rest) (Parsed.tail_lt t (u :: rest))
  have hname : IsIdentifier t.kind := ⟨x, hx⟩
  rw [callOrLocation, identifier_cons_bind hx]
  simp only [optional_other_bind hp, optional_cons_bind hu]
  refine Tracks.relax (.take hname ((Opens.sign _).mul_left (Opens.expr.mul_left
      ((Opens.sign _).mul_left .one)))
    fun _ => .takeToken hu (Opens.expr.mul_left ((Opens.sign _).mul_left .one))
    fun hrest => .seq (below.later .expr hlt hrest) ((Opens.sign _).mul_left .one)
    fun _ _ _ hmid => .seq (expect_tracks hr' hmid) .one
    fun _ _ _ hlast => .skip hlast) (by simpa only [mul_one] using element_rule) ?_
  intro ts o hs ho
  obtain ⟨t', _, rfl, ⟨x', hx'⟩, u', mid, rfl, hu', ho⟩ := ho
  have hsame : SameHead (u :: rest) (u' :: mid) := congrArg some (hu.trans hu'.symm)
  refine ⟨hsame, ?_⟩
  rw [callOrLocation, identifier_cons_bind hx', hr'.reach_bind]
  dsimp only
  rw [optional_other_bind (hsame ▸ hp)]
  dsimp only
  rw [optional_cons_bind hu', hr'.reach_bind]
  exact Ends.bind ho (fun _ => id) fun _ _ _ _ ho => Ends.bind ho (fun _ => id)
    fun _ _ _ _ ho => Ends.pure ho

/-- Behind the name of a variable neither follows. The token that shows this is not taken, so the
two readings have to agree on it. -/
theorem scalar_step (hr' : r'.Whole) {t : Token} {rest : List Token} {x : String}
    (hx : t.kind = .identifier x) (hp : (kinds rest).head? ≠ some (.sign .openParen))
    (hb : (kinds rest).head? ≠ some (.sign .openBracket)) :
    Tracks r (phrases Location)
      (fun ts o => SameHead rest ts.tail ∧ Ends r' (callOrLocation r' ts) o) (t :: rest)
      (callOrLocation r (t :: rest)) := by
  have hname : IsIdentifier t.kind := ⟨x, hx⟩
  rw [callOrLocation, identifier_cons_bind hx]
  simp only [optional_other_bind hp, optional_other_bind hb]
  refine Tracks.relax (.take hname .one fun hrest => .relax (C := fun ts o =>
      SameHead rest ts ∧ Behaviour.skip ts o) (.skip hrest) le_rfl fun ts o hs ho => ⟨hs, ho⟩)
    (by simpa only [mul_one] using scalar_rule) ?_
  intro ts o hs ho
  obtain ⟨t', mid, rfl, ⟨x', hx'⟩, hsame, ho⟩ := ho
  refine ⟨hsame, ?_⟩
  rw [callOrLocation, identifier_cons_bind hx', hr'.reach_bind]
  dsimp only
  rw [optional_other_bind (hsame ▸ hp)]
  dsimp only
  rw [optional_other_bind (hsame ▸ hb)]
  exact Ends.pure ho

/-- The three ways to go on behind a name. -/
theorem callOrLocation_step (hr' : r'.Whole)
    (below : Below ExprReader.rank (TrackedExprs r r') .callOrLocation tokens) :
    TrackedExprs r r' .callOrLocation tokens := by
  rintro t rest x rfl hx
  by_cases hp : (kinds rest).head? = some (.sign .openParen)
  · rw [if_pos hp]
    cases rest with
    | nil => cases hp
    | cons u rest => exact call_step hr' hx (Option.some.inj hp) below
  · rw [if_neg hp]
    by_cases hb : (kinds rest).head? = some (.sign .openBracket)
    · cases rest with
      | nil => cases hb
      | cons u rest => exact element_step hr' hx (Option.some.inj hb) hp below
    · exact scalar_step hr' hx hp hb

/-- Whether there are arguments depends on the current token alone. -/
theorem arguments_step (hend : r.ending.kind = .endOfFile) (hr' : r'.Whole)
    (below : Below ExprReader.rank (TrackedExprs r r') .arguments tokens) :
    TrackedExprs r r' .arguments tokens := by
  intro hr
  rw [arguments]
  refine Tracks.relax (.branch (p := (· = .sign .closeParen)) hend hr'.ending (.skip hr)
    (.seq (below.now .argumentList (by decide) hr) .one fun _ _ _ hlast => .skip hlast))
    (add_le noArguments_rule (by simpa only [mul_one] using arguments_rule)) ?_
  intro ts o _ ho
  rw [arguments]
  exact Ends.branch ho Ends.pure
    fun ho => Ends.bind ho (fun _ => id) fun _ _ _ _ ho => Ends.pure ho

/-- Behind each argument a comma may follow. -/
theorem argumentList_step (hr' : r'.Whole)
    (below : Below ExprReader.rank (TrackedExprs r r') .argumentList tokens) :
    TrackedExprs r r' .argumentList tokens := by
  intro hr
  rw [argumentList]
  refine Tracks.relax (.seq (below.now .expr (by decide) hr) (Opens.add_right .one)
    fun _ _ hlt hmid => optional_tracks (Opens.argumentList.mul_left .one)
      (fun _ _ hlt' hrest => .seq (below.later .argumentList (Nat.lt_trans hlt' hlt) hrest) .one
        fun _ _ _ hlast => .skip hlast)
      fun _ => .skip hmid) (by simpa only [mul_one] using argumentList_rule) ?_
  intro ts o _ ho
  rw [argumentList]
  exact Ends.bind ho (fun _ => id) fun _ _ _ _ ho => optional_ends hr' ho
    (fun _ _ _ ho => Ends.bind ho (fun _ => id) fun _ _ _ _ ho => Ends.pure ho)
    fun _ ho => Ends.pure ho

/-- The induction along the readers of expressions. -/
theorem trackedExprs (hend : r.ending.kind = .endOfFile) (hr' : r'.Whole) :
    ∀ x tokens, TrackedExprs r r' x tokens := by
  refine ranked_induction ExprReader.rank fun x tokens below => ?_
  cases x with
  | expr => exact expr_step below
  | operators => exact operators_step hr' below
  | operand => exact operand_step hr' below
  | primary => exact primary_step hr' below
  | callOrLocation => exact callOrLocation_step hr' below
  | arguments => exact arguments_step hend hr' below
  | argumentList => exact argumentList_step hr' below

/-- The reader of expressions tracks itself. -/
theorem expr_tracks (hend : r.ending.kind = .endOfFile) (hr' : r'.Whole) (tokens : List Token)
    (hr : r.reach tokens = .ok ()) :
    Tracks r (phrases (ExprAt 1)) (fun ts => Ends r' (expr r' ts)) tokens (expr r tokens) :=
  trackedExprs hend hr' .expr tokens hr

/-- A name is called if a parenthesis follows it, and a location if not. Whatever
begins like it, up to where this reading ends, agrees with it on that. -/
theorem callOrLocation_tracks (hend : r.ending.kind = .endOfFile) (hr' : r'.Whole) (t : Token)
    (rest : List Token) {x : String} (hx : t.kind = .identifier x) :
    Tracks r (if (kinds rest).head? = some (.sign .openParen) then phrases Call
        else phrases Location)
      (fun ts o => SameHead rest ts.tail ∧ Ends r' (callOrLocation r' ts) o) (t :: rest)
      (callOrLocation r (t :: rest)) :=
  trackedExprs hend hr' .callOrLocation (t :: rest) t rest x rfl hx

end Expressions

/-! ## Declarations -/

/-- What is known of the name, the type and the start of a declaration does not matter for where
its reading ends. -/
theorem varRest_tracks (hr' : r'.Whole) {name : String} {ty : Ty} {start : Span}
    {tokens : List Token} (hr : r.reach tokens = .ok ()) :
    Tracks r variableRest (fun ts o => ∀ name ty start, Ends r' (varRest r' name ty start ts) o)
      tokens (varRest r name ty start tokens) := by
  unfold varRest
  refine Tracks.relax (optional_tracks
    (Opens.length.mul_left ((Opens.sign _).mul_left ((Opens.sign _).mul_left .one)))
    (fun _ _ _ hrest => .seq (arrayLength_tracks hr' hrest)
        ((Opens.sign _).mul_left ((Opens.sign _).mul_left .one))
      fun _ _ _ hmid => .seq (expect_tracks hr' hmid) ((Opens.sign _).mul_left .one)
      fun _ _ _ hmid => .seq (expect_tracks hr' hmid) .one fun _ _ _ hlast => .skip hlast)
    fun _ => .seq (expect_tracks hr' hr) .one fun _ _ _ hlast => .skip hlast)
    (by simp only [mul_one, variableRest, le_refl]) ?_
  intro ts o _ ho name ty start
  refine optional_ends hr' ho (fun _ _ _ ho => ?_) fun _ ho => ?_
  · exact Ends.bind ho (fun _ => id) fun _ _ _ _ ho => Ends.bind ho (fun _ => id)
      fun _ _ _ _ ho => Ends.bind ho (fun _ => id) fun _ _ _ _ ho => Ends.pure ho
  · exact Ends.bind ho (fun _ => id) fun _ _ _ _ ho => Ends.pure ho

theorem varDecl_tracks (hr' : r'.Whole) {tokens : List Token} (hr : r.reach tokens = .ok ()) :
    Tracks r (phrases Variable) (fun ts => Ends r' (varDecl r' ts)) tokens (varDecl r tokens) := by
  unfold varDecl
  refine Tracks.relax (.seq (type_tracks hr' hr)
      (Opens.identifier.mul_left (Opens.variableRest.mul_left .one))
    fun _ _ _ hmid => .seq (identifier_tracks hr' hmid) (Opens.variableRest.mul_left .one)
    fun _ _ _ hmid => .seq (varRest_tracks hr' hmid) .one fun _ _ _ hlast => .skip hlast)
    (by simpa only [mul_one] using variable_rule) ?_
  intro ts o _ ho
  exact Ends.bind ho (fun _ => id) fun _ _ _ _ ho => Ends.bind ho (fun _ => id)
    fun _ _ _ _ ho => Ends.bind ho (fun _ h => h _ _ _) fun _ _ _ _ ho => Ends.pure ho

/-- Declarations go on as long as the current token names a type. -/
theorem varDecls_tracks (hend : r.ending.kind = .endOfFile) (hr' : r'.Whole)
    (tokens : List Token) (hr : r.reach tokens = .ok ()) :
    Tracks r (phrases Variables) (fun ts => Ends r' (varDecls r' ts)) tokens
      (varDecls r tokens) := by
  induction tokens using length_induction with
  | step tokens ih =>
    rw [varDecls]
    refine Tracks.relax (.branch (p := (·.type?.isSome)) hend hr'.ending
      (.seq (varDecl_tracks hr' hr) (Opens.locals.mul_left .one)
        fun _ mid hlt hmid => .seq (ih mid hlt hmid) .one
        fun _ _ _ hlast => .skip hlast)
      (.skip hr)) (add_le (by simpa only [mul_one] using variables_rule) noVariables_rule) ?_
    intro ts o _ ho
    rw [varDecls]
    exact Ends.branch (p := (·.type?.isSome)) ho
      (fun ho => Ends.bind ho (fun _ => id) fun _ _ _ _ ho => Ends.bind ho (fun _ => id)
        fun _ _ _ _ ho => Ends.pure ho)
      Ends.pure

/-! ## Statements -/

theorem condition_tracks (hend : r.ending.kind = .endOfFile) (hr' : r'.Whole)
    {tokens : List Token} (hr : r.reach tokens = .ok ()) :
    Tracks r conditions (fun ts => Ends r' (condition r' ts)) tokens (condition r tokens) := by
  unfold condition
  refine Tracks.relax (.seq (expect_tracks hr' hr)
      (Opens.expr.mul_left ((Opens.sign _).mul_left .one))
    fun _ mid _ hmid => .seq (expr_tracks hend hr' mid hmid) ((Opens.sign _).mul_left .one)
    fun _ _ _ hmid => .seq (expect_tracks hr' hmid) .one fun _ _ _ hlast => .skip hlast)
    (by simp only [mul_one, conditions, le_refl]) ?_
  intro ts o _ ho
  exact Ends.bind ho (fun _ => id) fun _ _ _ _ ho => Ends.bind ho (fun _ => id)
    fun _ _ _ _ ho => Ends.bind ho (fun _ => id) fun _ _ _ _ ho => Ends.pure ho

/-- Only the semicolon matters for where the end of a statement is read, and not which statement
it is. -/
theorem finish_tracks (hr' : r'.Whole) {start : Span} {make : Place → Stmt} {tokens : List Token}
    (hr : r.reach tokens = .ok ()) :
    Tracks r (token (.sign .semicolon))
      (fun ts o => ∀ start make, Ends r' (finish r' start make ts) o) tokens
      (finish r start make tokens) := by
  unfold finish
  refine Tracks.relax (.seq (expect_tracks hr' hr) .one fun _ _ _ hlast => .skip hlast)
    (mul_one _).le ?_
  intro ts o _ ho start make
  exact Ends.bind ho (fun _ => id) fun _ _ _ _ ho => Ends.pure ho

/-- A value or nothing, by the current token. -/
theorem returnValue_tracks (hend : r.ending.kind = .endOfFile) (hr' : r'.Whole)
    {tokens : List Token} (hr : r.reach tokens = .ok ()) :
    Tracks r (1 + phrases (ExprAt 1)) (fun ts => Ends r' (returnValue r' ts)) tokens
      (returnValue r tokens) := by
  unfold returnValue
  refine Tracks.relax (.branch (p := (· = .sign .semicolon)) hend hr'.ending (.skip hr)
    (.seq (expr_tracks hend hr' tokens hr) .one fun _ _ _ hlast => .skip hlast))
    (by simp only [mul_one, le_refl]) ?_
  intro ts o _ ho
  exact Ends.branch ho Ends.pure
    fun ho => Ends.bind ho (fun _ => id) fun _ _ _ _ ho => Ends.pure ho

/-- A statement that begins with a name is a call if a parenthesis follows the name,
and an assignment if not. -/
theorem simpleStmt_tracks (hend : r.ending.kind = .endOfFile) (hr' : r'.Whole) {t : Token}
    {rest : List Token} {x : String} (hx : t.kind = .identifier x) {start : Span} :
    Tracks r (phrases Statement)
      (fun ts o => ∀ start,
        Ends r' (simpleStmt r' start ((r'.current ts.tail).kind = .sign .openParen) ts) o)
      (t :: rest)
      (simpleStmt r start ((r.current rest).kind = .sign .openParen) (t :: rest)) := by
  have hcol := callOrLocation_tracks hend hr' t rest hx
  -- which statement it is depends on the second token, so both readings see the same
  by_cases hp : (kinds rest).head? = some (.sign .openParen)
  · have hcurrent : (r.current rest).kind = .sign .openParen :=
      (Reading.current_kind_iff hend (by simp)).mpr hp
    simp only [simpleStmt, hcurrent, decide_true, if_true]
    rw [if_pos hp] at hcol
    refine Tracks.relax (.seq hcol ((Opens.sign _).mul_left .one)
      fun _ _ _ hmid => .seq (finish_tracks hr' hmid) .one fun _ _ _ hlast => .skip hlast)
      (by simpa only [mul_one] using callStmt_rule) ?_
    intro ts o hs ho start
    obtain ⟨_, hsame, _⟩ := ho.exists_first
    simp only [← hsame.current_kind hend hr'.ending, hcurrent, decide_true, if_true]
    exact Ends.bind ho (fun _ h => h.2) fun _ _ _ _ ho => Ends.bind ho (fun _ h => h _ _)
      fun _ _ _ _ ho => Ends.pure ho
  · have hcurrent : ¬ (r.current rest).kind = .sign .openParen :=
      fun h => hp ((Reading.current_kind_iff hend (by simp)).mp h)
    simp only [simpleStmt, hcurrent, decide_false]
    rw [if_neg hp] at hcol
    refine Tracks.relax (.seq hcol ((Opens.sign _).mul_left (Opens.expr.mul_left
        ((Opens.sign _).mul_left .one)))
      fun _ _ _ hmid => .seq (expect_tracks hr' hmid) (Opens.expr.mul_left
        ((Opens.sign _).mul_left .one))
      fun _ mid _ hmid => .seq (expr_tracks hend hr' mid hmid) ((Opens.sign _).mul_left .one)
      fun _ _ _ hmid => .seq (finish_tracks hr' hmid) .one fun _ _ _ hlast => .skip hlast)
      (by simpa only [mul_one] using assign_rule) ?_
    intro ts o hs ho start
    obtain ⟨_, hsame, _⟩ := ho.exists_first
    simp only [← hsame.current_kind hend hr'.ending, hcurrent, decide_false]
    exact Ends.bind ho (fun _ h => h.2) fun _ _ _ _ ho => Ends.bind ho (fun _ => id)
      fun _ _ _ _ ho => Ends.bind ho (fun _ => id)
      fun _ _ _ _ ho => Ends.bind ho (fun _ h => h _ _) fun _ _ _ _ ho => Ends.pure ho

/-- What no statement begins with is complained about before it is taken. -/
theorem stmt_other {t : Token} {rest : List Token} (ht : startsStmt t.kind = false) :
    stmt r (t :: rest) = .error (.unexpected .statement t) := by
  rw [stmt]
  split <;> first | rfl | simp_all [startsStmt]

/-- A statement begins in one of seven ways. -/
theorem startsStmt_cases {k : Token.Kind} (h : startsStmt k = true) :
    k = .word .ifWord ∨ k = .word .whileWord ∨ k = .sign .openBrace ∨ k = .word .returnWord ∨
      k = .word .breakWord ∨ k = .word .continueWord ∨ ∃ x, k = .identifier x := by
  cases k <;> simp_all [startsStmt, or_assoc]

section

variable {t : Token} {rest : List Token}

/-- A statement that is a word and a semicolon. -/
theorem finish_stmt_tracks (hr' : r'.Whole) {w : Keyword} (hk : t.kind = .word w)
    (make : Place → Stmt)
    (heq : ∀ {q : Reading} {u : Token} {more : List Token}, u.kind = .word w →
      stmt q (u :: more) = (q.reach more >>= fun _ => finish q u.span make more >>=
        fun p => pure ⟨p.value, p.rest, Nat.lt_succ_of_lt p.rest_lt⟩))
    (hrule : token (.word w) * token (.sign .semicolon) ≤ phrases Statement) :
    Tracks r (phrases Statement) (fun ts => Ends r' (stmt r' ts)) (t :: rest)
      (stmt r (t :: rest)) := by
  rw [heq hk]
  refine Tracks.relax (.takeToken hk ((Opens.sign _).mul_left .one)
    fun hrest => .seq (finish_tracks hr' hrest) .one fun _ _ _ hlast => .skip hlast)
    (by simpa only [mul_one] using hrule) ?_
  intro ts o _ ho
  obtain ⟨u, mid, rfl, hu, ho⟩ := ho
  rw [heq hu, hr'.reach_bind]
  exact Ends.bind ho (fun _ h => h _ _) fun _ _ _ _ ho => Ends.pure ho

/-- A `return`, with its value and its semicolon. -/
theorem return_stmt_tracks (hend : r.ending.kind = .endOfFile) (hr' : r'.Whole)
    (hk : t.kind = .word .returnWord) :
    Tracks r (phrases Statement) (fun ts => Ends r' (stmt r' ts)) (t :: rest)
      (stmt r (t :: rest)) := by
  rw [stmt]
  simp only [hk]
  refine Tracks.relax (.takeToken hk (Opens.one.add_left.mul_left ((Opens.sign _).mul_left .one))
    fun hrest => .seq (returnValue_tracks hend hr' hrest) ((Opens.sign _).mul_left .one)
    fun _ _ _ hmid => .seq (finish_tracks hr' hmid) .one fun _ _ _ hlast => .skip hlast)
    (by simpa only [mul_one] using return_rule) ?_
  intro ts o _ ho
  obtain ⟨u, mid, rfl, hu, ho⟩ := ho
  rw [stmt]
  simp only [hu, hr'.reach_bind]
  exact Ends.bind ho (fun _ => id) fun _ _ _ _ ho => Ends.bind ho (fun _ h => h _ _)
    fun _ _ _ _ ho => Ends.pure ho

/-- The reader looks past the name, so an unreadable spot there comes first. The name alone still
opens a statement. -/
theorem name_stmt_tracks (hend : r.ending.kind = .endOfFile) (hr' : r'.Whole) {x : String}
    (hk : t.kind = .identifier x) :
    Tracks r (phrases Statement) (fun ts => Ends r' (stmt r' ts)) (t :: rest)
      (stmt r (t :: rest)) := by
  rw [stmt]
  simp only [hk]
  -- a name alone can still become an assignment
  have hname : [t.kind] ∈ phrases Location := scalar_rule (mem_single.mpr ⟨x, hk⟩)
  have hopens : Opens (phrases Statement) [t.kind] :=
    (Opens.mul_right hname ((Opens.sign _).mul_left (Opens.expr.mul_left (Opens.sign _)))).mono
      assign_rule
  refine Tracks.peek hopens fun _ => ?_
  refine (simpleStmt_tracks hend hr' hk).relax le_rfl fun ts o hs ho => ?_
  obtain ⟨u, mid, rfl, hu⟩ := hs.eq_cons
  rw [stmt]
  simp only [hu, hk, hr'.reach_bind]
  exact ho _

end

/-- What tracking says of the readers of blocks and statements. -/
def TrackedStmts (r r' : Reading) : StmtReader → List Token → Prop
  | .block, tokens => r.reach tokens = .ok () →
    Tracks r (phrases Braces) (fun ts => Ends r' (block r' ts)) tokens (block r tokens)
  | .stmts, tokens => r.reach tokens = .ok () →
    Tracks r (phrases Statements) (fun ts => Ends r' (stmts r' ts)) tokens (stmts r tokens)
  | .stmt, tokens => r.reach tokens = .ok () →
    Tracks r (phrases Statement) (fun ts => Ends r' (stmt r' ts)) tokens (stmt r tokens)

section Statements

variable {tokens : List Token}

/-- A block: its braces, its declarations and its statements. -/
theorem block_step (hend : r.ending.kind = .endOfFile) (hr' : r'.Whole)
    (below : Below StmtReader.rank (TrackedStmts r r') .block tokens) :
    TrackedStmts r r' .block tokens := by
  intro hr
  rw [block]
  refine Tracks.relax (.seq (expect_tracks hr' hr) (Opens.locals.mul_left
      (Opens.statements.mul_left ((Opens.sign _).mul_left .one)))
    fun _ mid hlt hmid => .seq (varDecls_tracks hend hr' mid hmid)
      (Opens.statements.mul_left ((Opens.sign _).mul_left .one))
    fun _ _ hlt' hmid => .seq (below.later .stmts (by omega) hmid) ((Opens.sign _).mul_left .one)
    fun _ _ _ hmid => .seq (expect_tracks hr' hmid) .one fun _ _ _ hlast => .skip hlast)
    (by simpa only [mul_one] using braces_rule) ?_
  intro ts o _ ho
  rw [block]
  exact Ends.bind ho (fun _ => id) fun _ _ _ _ ho => Ends.bind ho (fun _ => id)
    fun _ _ _ _ ho => Ends.bind ho (fun _ => id)
    fun _ _ _ _ ho => Ends.bind ho (fun _ => id) fun _ _ _ _ ho => Ends.pure ho

/-- Statements go on up to a closing brace or the end of the file. -/
theorem stmts_step (hend : r.ending.kind = .endOfFile) (hr' : r'.Whole)
    (below : Below StmtReader.rank (TrackedStmts r r') .stmts tokens) :
    TrackedStmts r r' .stmts tokens := by
  intro hr
  rw [stmts]
  refine Tracks.relax (.branch (p := fun k => k = .sign .closeBrace ∨ k = .endOfFile) hend
    hr'.ending (.skip hr)
    (.seq (below.now .stmt (by decide) hr) (Opens.statements.mul_left .one)
      fun _ _ hlt hmid => .seq (below.later .stmts hlt hmid) .one
      fun _ _ _ hlast => .skip hlast))
    (add_le noStatements_rule (by simpa only [mul_one] using statements_rule)) ?_
  intro ts o _ ho
  rw [stmts]
  exact Ends.branch ho Ends.pure
    fun ho => Ends.bind ho (fun _ => id) fun _ _ _ _ ho => Ends.bind ho (fun _ => id)
      fun _ _ _ _ ho => Ends.pure ho

/-- An `if`, behind whose block the word `else` may follow with another one. -/
theorem if_step (hend : r.ending.kind = .endOfFile) (hr' : r'.Whole) {t : Token}
    {rest : List Token} (hk : t.kind = .word .ifWord)
    (below : Below StmtReader.rank (TrackedStmts r r') .stmt (t :: rest)) :
    Tracks r (phrases Statement) (fun ts => Ends r' (stmt r' ts)) (t :: rest)
      (stmt r (t :: rest)) := by
  have htail := Parsed.tail_lt t rest
  rw [stmt]
  simp only [hk]
  refine Tracks.relax (.takeToken hk (Opens.conditions.mul_left (Opens.braces.mul_left
      (Opens.add_right .one)))
    fun hrest => .seq (condition_tracks hend hr' hrest) (Opens.braces.mul_left
      (Opens.add_right .one))
    fun _ _ hlt hmid => .seq (below.later .block (Nat.lt_trans hlt htail) hmid)
      (Opens.add_right .one)
    fun _ _ hlt' hmid => optional_tracks (Opens.braces.mul_left .one)
      (fun _ _ hlt'' hlast => .seq (below.later .block
          (Nat.lt_trans hlt'' (Nat.lt_trans hlt' (Nat.lt_trans hlt htail))) hlast) .one
        fun _ _ _ hlast => .skip hlast)
      fun _ => .skip hmid) (by simpa only [mul_one] using if_rule) ?_
  intro ts o _ ho
  obtain ⟨u, mid, rfl, hu, ho⟩ := ho
  rw [stmt]
  simp only [hu, hr'.reach_bind]
  exact Ends.bind ho (fun _ => id) fun _ _ _ _ ho => Ends.bind ho (fun _ => id)
    fun _ _ _ _ ho => optional_ends hr' ho
    (fun _ _ _ ho => Ends.bind ho (fun _ => id) fun _ _ _ _ ho => Ends.pure ho)
    fun _ ho => Ends.pure ho

/-- A `while`: its condition and its block. -/
theorem while_step (hend : r.ending.kind = .endOfFile) (hr' : r'.Whole) {t : Token}
    {rest : List Token} (hk : t.kind = .word .whileWord)
    (below : Below StmtReader.rank (TrackedStmts r r') .stmt (t :: rest)) :
    Tracks r (phrases Statement) (fun ts => Ends r' (stmt r' ts)) (t :: rest)
      (stmt r (t :: rest)) := by
  have htail := Parsed.tail_lt t rest
  rw [stmt]
  simp only [hk]
  refine Tracks.relax (.takeToken hk (Opens.conditions.mul_left (Opens.braces.mul_left .one))
    fun hrest => .seq (condition_tracks hend hr' hrest) (Opens.braces.mul_left .one)
    fun _ _ hlt hmid => .seq (below.later .block (Nat.lt_trans hlt htail) hmid) .one
    fun _ _ _ hlast => .skip hlast) (by simpa only [mul_one] using while_rule) ?_
  intro ts o _ ho
  obtain ⟨u, mid, rfl, hu, ho⟩ := ho
  rw [stmt]
  simp only [hu, hr'.reach_bind]
  exact Ends.bind ho (fun _ => id) fun _ _ _ _ ho => Ends.bind ho (fun _ => id)
    fun _ _ _ _ ho => Ends.pure ho

/-- A block as a statement. It is handed all its tokens, the brace included. -/
theorem inner_step {t : Token} {rest : List Token} (hk : t.kind = .sign .openBrace)
    (below : Below StmtReader.rank (TrackedStmts r r') .stmt (t :: rest))
    (hr : r.reach (t :: rest) = .ok ()) :
    Tracks r (phrases Statement) (fun ts => Ends r' (stmt r' ts)) (t :: rest)
      (stmt r (t :: rest)) := by
  rw [stmt]
  simp only [hk]
  refine Tracks.relax (.seq (below.now .block (by decide) hr) .one
    fun _ _ _ hlast => .skip hlast) (by simpa only [mul_one] using inner_rule) ?_
  intro ts o hs ho
  obtain ⟨u, mid, rfl, hu⟩ := hs.eq_cons
  rw [stmt]
  simp only [hu, hk]
  exact Ends.bind ho (fun _ => id) fun _ _ _ _ ho => Ends.pure ho

/-- One case for each way in which a statement can begin, and one for what begins no statement. -/
theorem stmt_step (hend : r.ending.kind = .endOfFile) (hr' : r'.Whole)
    (below : Below StmtReader.rank (TrackedStmts r r') .stmt tokens) :
    TrackedStmts r r' .stmt tokens := by
  intro hr
  cases tokens with
  | nil =>
    rw [stmt]
    exact .refuseEnd hr (.inl rfl) rfl rfl .statement (.early (by rw [stmt]) rfl rfl)
  | cons t rest =>
    cases hstarts : startsStmt t.kind with
    | false =>
      rw [stmt_other hstarts]
      exact .refuse hr rfl rfl .statement
        fun u mid hu => .early (stmt_other (hu ▸ hstarts)) rfl rfl
    | true =>
      rcases startsStmt_cases hstarts with hk | hk | hk | hk | hk | hk | ⟨x, hk⟩
      · exact if_step hend hr' hk below
      · exact while_step hend hr' hk below
      · exact inner_step hk below hr
      · exact return_stmt_tracks hend hr' hk
      · exact finish_stmt_tracks hr' hk .break (fun h => by rw [stmt]; simp only [h]) break_rule
      · exact finish_stmt_tracks hr' hk .continue (fun h => by rw [stmt]; simp only [h])
          continue_rule
      · exact name_stmt_tracks hend hr' hk

/-- The induction along the readers of statements. -/
theorem trackedStmts (hend : r.ending.kind = .endOfFile) (hr' : r'.Whole) :
    ∀ x tokens, TrackedStmts r r' x tokens := by
  refine ranked_induction StmtReader.rank fun x tokens below => ?_
  cases x with
  | block => exact block_step hend hr' below
  | stmts => exact stmts_step hend hr' below
  | stmt => exact stmt_step hend hr' below

theorem block_tracks (hend : r.ending.kind = .endOfFile) (hr' : r'.Whole) (tokens : List Token)
    (hr : r.reach tokens = .ok ()) :
    Tracks r (phrases Braces) (fun ts => Ends r' (block r' ts)) tokens (block r tokens) :=
  trackedStmts hend hr' .block tokens hr

end Statements

/-! ## Programs -/

/-- Behind each parameter a comma may follow. -/
theorem paramList_tracks (hr' : r'.Whole) (tokens : List Token) (hr : r.reach tokens = .ok ()) :
    Tracks r (phrases ParameterList) (fun ts => Ends r' (paramList r' ts)) tokens
      (paramList r tokens) := by
  induction tokens using length_induction with
  | step tokens ih =>
    rw [paramList]
    refine Tracks.relax (.seq (type_tracks hr' hr)
        (Opens.identifier.mul_left (Opens.add_right .one))
      fun _ _ h₁ hmid => .seq (identifier_tracks hr' hmid) (Opens.add_right .one)
      fun _ _ h₂ hmid => optional_tracks (Opens.parameterList.mul_left .one)
        (fun rest _ h₃ hrest => .seq (ih rest (by omega) hrest) .one
          fun _ _ _ hlast => .skip hlast)
        fun _ => .skip hmid) (by simpa only [mul_one] using parameterList_rule) ?_
    intro ts o _ ho
    rw [paramList]
    exact Ends.bind ho (fun _ => id) fun _ _ _ _ ho => Ends.bind ho (fun _ => id)
      fun _ _ _ _ ho => optional_ends hr' ho
      (fun _ _ _ ho => Ends.bind ho (fun _ => id) fun _ _ _ _ ho => Ends.pure ho)
      fun _ ho => Ends.pure ho

/-- Whether there are parameters depends on the current token alone. -/
theorem params_tracks (hend : r.ending.kind = .endOfFile) (hr' : r'.Whole) {tokens : List Token}
    (hr : r.reach tokens = .ok ()) :
    Tracks r (phrases Parameters) (fun ts => Ends r' (params r' ts)) tokens (params r tokens) := by
  unfold params
  refine Tracks.relax (.branch (p := (· = .sign .closeParen)) hend hr'.ending (.skip hr)
    (.seq (paramList_tracks hr' tokens hr) .one fun _ _ _ hlast => .skip hlast))
    (add_le noParameters_rule (by simpa only [mul_one] using parameters_rule)) ?_
  intro ts o _ ho
  exact Ends.branch ho Ends.pure
    fun ho => Ends.bind ho (fun _ => id) fun _ _ _ _ ho => Ends.pure ho

/-- As for a declaration, what is known of a function does not matter for where its reading ends. -/
theorem functionRest_tracks (hend : r.ending.kind = .endOfFile) (hr' : r'.Whole) {name : String}
    {ty : Ty} {start : Span} {tokens : List Token} (hr : r.reach tokens = .ok ()) :
    Tracks r Grammar.functionRest
      (fun ts o => ∀ name ty start, Ends r' (functionRest r' name ty start ts) o) tokens
      (functionRest r name ty start tokens) := by
  unfold functionRest
  refine Tracks.relax (.seq (expect_tracks hr' hr)
      (Opens.parameters.mul_left ((Opens.sign _).mul_left (Opens.braces.mul_left .one)))
    fun _ _ _ hmid => .seq (params_tracks hend hr' hmid)
      ((Opens.sign _).mul_left (Opens.braces.mul_left .one))
    fun _ _ _ hmid => .seq (expect_tracks hr' hmid) (Opens.braces.mul_left .one)
    fun _ mid _ hmid => .seq (block_tracks hend hr' mid hmid) .one
    fun _ _ _ hlast => .skip hlast) (by simp only [mul_one, Grammar.functionRest, le_refl]) ?_
  intro ts o _ ho name ty start
  exact Ends.bind ho (fun _ => id) fun _ _ _ _ ho => Ends.bind ho (fun _ => id)
    fun _ _ _ _ ho => Ends.bind ho (fun _ => id)
    fun _ _ _ _ ho => Ends.bind ho (fun _ => id) fun _ _ _ _ ho => Ends.pure ho

/-- Reads what follows the optional word at the start of a top level declaration,
which began at `start`. -/
def item (r : Reading) (start : Span) : Reader TopLevel := fun tokens => do
  let ⟨(ty, _), rest₁, h₁⟩ ← type r tokens
  let ⟨(name, _), rest₂, h₂⟩ ← identifier r rest₁
  if (r.current rest₂).kind = .sign .openParen then
    let ⟨f, rest₃, h₃⟩ ← functionRest r name ty start rest₂
    return ⟨.function f, rest₃, h₃.trans (h₂.trans h₁)⟩
  else
    let ⟨v, rest₃, h₃⟩ ← varRest r name ty start rest₂
    return ⟨.global v, rest₃, h₃.trans (h₂.trans h₁)⟩

/-- The optional word, and then the rest. The span starts before the word, so the rest is told
where. -/
theorem topLevel_eq (tokens : List Token) :
    topLevel r tokens = (optional r (.word .defWord) tokens >>= fun p =>
      item r (r.current tokens).span p.rest >>= fun q =>
      pure ⟨q.value, q.rest, Nat.lt_of_lt_of_le q.rest_lt (Nat.le_of_lt_succ p.rest_lt)⟩) := by
  unfold topLevel item
  refine bind_congr fun p => ?_
  simp only [bind_assoc]
  refine bind_congr fun q => ?_
  refine bind_congr fun n => ?_
  split <;> simp only [bind_assoc, pure_bind]

/-- Functions and variables share their first two tokens; the token behind them decides. -/
theorem item_tracks (hend : r.ending.kind = .endOfFile) (hr' : r'.Whole) {start : Span}
    {tokens : List Token} (hr : r.reach tokens = .ok ()) :
    Tracks r (phrases Item) (fun ts o => ∀ start, Ends r' (item r' start ts) o) tokens
      (item r start tokens) := by
  unfold item
  refine Tracks.relax (.seq (type_tracks hr' hr)
      (Opens.identifier.mul_left (Opens.add_right (Opens.variableRest.mul_left .one)))
    fun _ _ _ hmid => .seq (identifier_tracks hr' hmid)
      (Opens.add_right (Opens.variableRest.mul_left .one))
    fun _ _ _ hmid => .branch (p := (· = .sign .openParen)) hend hr'.ending
      (.seq (functionRest_tracks hend hr' hmid) .one fun _ _ _ hlast => .skip hlast)
      (.seq (varRest_tracks hr' hmid) .one fun _ _ _ hlast => .skip hlast))
    (by simpa only [mul_one] using item_rule) ?_
  intro ts o _ ho start
  exact Ends.bind ho (fun _ => id) fun _ _ _ _ ho => Ends.bind ho (fun _ => id)
    fun _ _ _ _ ho => Ends.branch ho
      (fun ho => Ends.bind ho (fun _ h => h _ _ _) fun _ _ _ _ ho => Ends.pure ho)
      fun ho => Ends.bind ho (fun _ h => h _ _ _) fun _ _ _ _ ho => Ends.pure ho

/-- The word before a declaration at the top level is a choice. -/
theorem topLevel_tracks (hend : r.ending.kind = .endOfFile) (hr' : r'.Whole)
    {tokens : List Token} (hr : r.reach tokens = .ok ()) :
    Tracks r (token (.word .defWord) * phrases Item + phrases Item)
      (fun ts => Ends r' (topLevel r' ts)) tokens (topLevel r tokens) := by
  rw [topLevel_eq]
  refine Tracks.relax (optional_tracks (Opens.item.mul_left .one)
    (fun _ _ _ hrest => .seq (item_tracks hend hr' hrest) .one fun _ _ _ hlast => .skip hlast)
    fun _ => .seq (item_tracks hend hr' hr) .one fun _ _ _ hlast => .skip hlast)
    (by simp only [mul_one, le_refl]) ?_
  intro ts o _ ho
  rw [topLevel_eq]
  exact optional_ends hr' ho
    (fun _ _ _ ho => Ends.bind ho (fun _ h => h _) fun _ _ _ _ ho => Ends.pure ho)
    fun _ ho => Ends.bind ho (fun _ h => h _) fun _ _ _ _ ho => Ends.pure ho

/-- Top level declarations are read up to the end of the file, so the reading of a
whole program leaves nothing: it can only fail. -/
theorem topLevels_falters (hend : r.ending.kind = .endOfFile) (hr' : r'.Whole)
    (tokens : List Token) (hr : r.reach tokens = .ok ()) :
    Falters r itemRows
      (fun ts o => ∀ left late, o = .complains left late →
        Complains r' (topLevels r' ts) left late) tokens (topLevels r tokens) := by
  induction tokens using length_induction with
  | step tokens ih =>
    rw [topLevels]
    by_cases hk : (r.current tokens).kind = .endOfFile
    · rw [if_pos hk]
      exact ⟨fun _ _ he => (by cases he), fun _ hf => (by cases hf)⟩
    · rw [if_neg hk]
      refine Falters.relax (.seq (topLevel_tracks hend hr' hr) .items
        fun _ rest hlt hrest => .map (ih rest hlt hrest)) items_rule ?_
      intro ts o hs ho left late hl
      cases hl
      rw [topLevels, if_neg (hs.current_kind hend hr'.ending ▸ hk)]
      cases ho with
      | first h => exact Complains.bind h _
      | second h hrest =>
        obtain ⟨v, hlt, hv⟩ := h
        rw [hv]
        exact (hrest left late rfl).bind _

end Decaf.Parser
