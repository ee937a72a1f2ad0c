import Decaf.Proofs.Syntax.Phrases

/-!
# How far a reading depends on its tokens

A reading of tokens ends in one of three ways: it gives something and leaves the
tokens it did not take, it complains about a token, or it comes to an unreadable
spot. This file says what each of them amounts to, for all readers in the same
words (`Tracks`):

> What was taken is a row of the construct. What stands before the token of a
> complaint can be completed to one. And any other row that begins in the same
> way, up to and including the token that was looked at last, comes to the same end.

The last part is about two readings at once. The other one is described by a
`Behaviour`, which relates tokens to outcomes, so that a position in the first
reading is settled before the second is chosen. A behaviour is put together like the
reader is (`Behaviour.take`, `Behaviour.seq`), and so is the fact that a reading tracks
it (`Tracks.take`, `Tracks.seq`): one lemma for each way of going on.

A complaint is late if the token it is about has been taken by then. That matters
only if the text is unreadable behind this token: a late complaint is never made
there, since taking the token finds the unreadable spot first.
-/

namespace Decaf

open Grammar

/-! ## Complaints -/

/-- Whether a token is taken before it is found not to be what was expected. -/
def Expected.late : Expected → Bool
  | .identifier => true
  | .arrayLength => true
  | _ => false

/-- Whether a complaint is late. An unreadable spot is no complaint about a token. -/
def ParseError.late? : ParseError → Option Bool
  | .unreadable _ => none
  | .unexpected expected _ => some expected.late
  | .lengthTooLarge _ _ => some true
  | .integerTooLarge _ _ => some false
  | .badEscape _ _ => some false

theorem ParseError.late?_eq_none_iff {e : ParseError} :
    e.late? = none ↔ ∃ f, e = .unreadable f := by
  cases e with
  | unreadable f => simp [late?]
  | _ => simp [late?]

/-- What the reader of names or the reader of array lengths says of the first of the
tokens that are left. These two take the token before they look at it. -/
def SaidOfTaken (r : Reading) (left : List Token) (e : ParseError) : Prop :=
  Parser.identifier r left = .error e ∨ Parser.arrayLength r left = .error e

/-- The reading complains about the first of the tokens that are left. -/
def Complains {γ : Type} (r : Reading) (x : Except ParseError γ) (left : List Token)
    (late : Bool) : Prop :=
  ∃ e, x = .error e ∧ e.late? = some late ∧ e.span = (r.current left).span ∧
    (late = true → SaidOfTaken r left e)

theorem Complains.early {γ : Type} {r : Reading} {x : Except ParseError γ} {left : List Token}
    {e : ParseError} (he : x = .error e) (hlate : e.late? = some false)
    (hspan : e.span = (r.current left).span) : Complains r x left false :=
  ⟨e, he, hlate, hspan, fun h => by cases h⟩

theorem Complains.bind {γ δ : Type} {r : Reading} {x : Except ParseError γ} {left : List Token}
    {late : Bool} (h : Complains r x left late) (f : γ → Except ParseError δ) :
    Complains r (x >>= f) left late := by
  obtain ⟨e, rfl, hlate, hspan, hsaid⟩ := h
  exact ⟨e, rfl, hlate, hspan, hsaid⟩

namespace Reading

variable {r : Reading}

/-- To reach the tokens after the one that is taken fails only at an unreadable
spot, and there are none then. -/
theorem reach_cases (r : Reading) (rest : List Token) :
    r.reach rest = .ok () ∨
      ∃ f, rest = [] ∧ r.fault = some f ∧ r.reach rest = .error (.unreadable f) := by
  cases rest with
  | cons t rest => exact .inl rfl
  | nil =>
    cases hf : r.fault with
    | none => exact .inl (by simp [reach, hf])
    | some f => exact .inr ⟨f, rfl, rfl, by simp [reach, hf]⟩

theorem Whole.reach_bind (hr : r.Whole) {γ : Type} (rest : List Token)
    (f : Unit → Except ParseError γ) : (r.reach rest >>= f) = f () := by
  rw [hr.reach_eq]
  rfl

end Reading

/-! ## Rows that begin in the same way -/

/-- The first tokens are of one kind, or there are none. -/
def SameHead (a b : List Token) : Prop :=
  (kinds a).head? = (kinds b).head?

theorem SameHead.refl (a : List Token) : SameHead a a :=
  rfl

theorem SameHead.eq_nil {b : List Token} (h : SameHead [] b) : b = [] := by
  cases b with
  | nil => rfl
  | cons t b => cases h

theorem SameHead.eq_cons {t : Token} {a b : List Token} (h : SameHead (t :: a) b) :
    ∃ u c, b = u :: c ∧ u.kind = t.kind := by
  cases b with
  | nil => cases h
  | cons u c => exact ⟨u, c, rfl, (Option.some.inj h).symm⟩

theorem SameHead.current_kind {r r' : Reading} (hr : r.ending.kind = .endOfFile)
    (hr' : r'.ending.kind = .endOfFile) {a b : List Token} (h : SameHead a b) :
    (r.current a).kind = (r'.current b).kind := by
  cases a with
  | nil =>
    rw [h.eq_nil]
    exact hr.trans hr'.symm
  | cons t a =>
    obtain ⟨u, c, rfl, hk⟩ := h.eq_cons
    exact hk.symm

/-- `tokens` begin like `pre` followed by `left`, up to the first token of `left`, and
`left'` is what comes after the part that is like `pre`. -/
def Shares (pre left tokens left' : List Token) : Prop :=
  ∃ pre', tokens = pre' ++ left' ∧ kinds pre' = kinds pre ∧ SameHead left left'

theorem Shares.nil {left left' : List Token} (h : SameHead left left') :
    Shares [] left left' left' :=
  ⟨[], rfl, rfl, h⟩

theorem shares_nil_iff {left tokens left' : List Token} :
    Shares [] left tokens left' ↔ tokens = left' ∧ SameHead left left' := by
  constructor
  · intro h
    obtain ⟨pre', rfl, hk, hs⟩ := h
    cases List.map_eq_nil_iff.mp hk
    exact ⟨rfl, hs⟩
  · intro h
    obtain ⟨rfl, hs⟩ := h
    exact .nil hs

theorem shares_cons_iff {t : Token} {pre left tokens left' : List Token} :
    Shares (t :: pre) left tokens left' ↔
      ∃ u rest, tokens = u :: rest ∧ u.kind = t.kind ∧ Shares pre left rest left' := by
  constructor
  · intro h
    obtain ⟨pre', rfl, hk, hs⟩ := h
    cases pre' with
    | nil => cases hk
    | cons u pre' =>
      injection hk with h₁ h₂
      exact ⟨u, pre' ++ left', rfl, h₁, pre', rfl, h₂, hs⟩
  · intro h
    obtain ⟨u, rest, rfl, hu, pre', rfl, hk, hs⟩ := h
    exact ⟨u :: pre', rfl, by rw [kinds_cons, kinds_cons, hu, hk], hs⟩

theorem Shares.sameHead {pre left tokens left' : List Token} (h : Shares pre left tokens left') :
    SameHead (pre ++ left) tokens := by
  cases pre with
  | nil =>
    obtain ⟨rfl, hs⟩ := shares_nil_iff.mp h
    exact hs
  | cons t pre =>
    obtain ⟨u, rest, rfl, hu, _⟩ := shares_cons_iff.mp h
    exact congrArg some hu.symm

/-- What is shared is shared in two steps. -/
theorem Shares.split {used pre left tokens left' : List Token}
    (h : Shares (used ++ pre) left tokens left') :
    ∃ mid, Shares used (pre ++ left) tokens mid ∧ Shares pre left mid left' := by
  induction used generalizing tokens with
  | nil => exact ⟨tokens, .nil h.sameHead, h⟩
  | cons t used ih =>
    obtain ⟨u, rest, rfl, hu, hrest⟩ := shares_cons_iff.mp h
    obtain ⟨mid, h₁, h₂⟩ := ih hrest
    exact ⟨mid, shares_cons_iff.mpr ⟨u, rest, rfl, hu, h₁⟩, h₂⟩

/-! ## Behaviours -/

/-- How a reading ends, an unreadable spot apart. -/
inductive Outcome where
  | gives (rest : List Token)
  | complains (left : List Token) (late : Bool)

/-- A reading has an outcome. -/
def Ends {α : Type} {n : Nat} (r : Reading) (x : Except ParseError (Parsed α n)) : Outcome → Prop
  | .gives rest => ∃ v, Gives x v rest
  | .complains left late => Complains r x left late

/-- What comes of tokens. -/
abbrev Behaviour : Type := List Token → Outcome → Prop

namespace Behaviour

/-- Takes nothing. -/
def skip : Behaviour :=
  fun tokens o => o = .gives tokens

/-- Complains about the first token. -/
def complain (late : Bool) : Behaviour :=
  fun tokens o => o = .complains tokens late

/-- Takes a token, of a kind with a given property, and goes on. -/
def take (p : Token.Kind → Prop) (B : Behaviour) : Behaviour :=
  fun tokens o => ∃ t rest, tokens = t :: rest ∧ p t.kind ∧ B rest o

/-- One thing after another. -/
inductive seq (B C : Behaviour) (tokens : List Token) : Outcome → Prop
  | first {left : List Token} {late : Bool} :
    B tokens (.complains left late) → seq B C tokens (.complains left late)
  | second {mid : List Token} {o : Outcome} : B tokens (.gives mid) → C mid o → seq B C tokens o

theorem seq.exists_first {B C : Behaviour} {tokens : List Token} {o : Outcome}
    (h : B.seq C tokens o) : ∃ o', B tokens o' := by
  cases h with
  | first h => exact ⟨_, h⟩
  | second h _ => exact ⟨_, h⟩

/-- Takes a token of a given kind and goes on, if it comes first, and goes on without
it if not. -/
inductive choice (k : Token.Kind) (B C : Behaviour) (tokens : List Token) (o : Outcome) : Prop
  | taken : take (· = k) B tokens o → choice k B C tokens o
  | left : (kinds tokens).head? ≠ some k → C tokens o → choice k B C tokens o

/-- Goes on in one of two ways, as the kind of the first token has it. -/
def branch (r : Reading) (p : Token.Kind → Prop) (B C : Behaviour) : Behaviour :=
  fun tokens o =>
    (p (r.current tokens).kind ∧ B tokens o) ∨ (¬ p (r.current tokens).kind ∧ C tokens o)

end Behaviour

namespace Ends

variable {α β : Type} {m n : Nat} {r : Reading} {tokens : List Token} {o : Outcome}

theorem pure {v : α} {h : tokens.length < n} (ho : Behaviour.skip tokens o) :
    Ends r (Pure.pure ⟨v, tokens, h⟩ : Except ParseError (Parsed α n)) o := by
  cases ho
  exact ⟨v, Gives.pure_iff.mpr ⟨rfl, rfl⟩⟩

/-- What one reading after another comes to. -/
theorem bind {B C : Behaviour} {y : Except ParseError (Parsed α m)}
    {g : Parsed α m → Except ParseError (Parsed β n)} (ho : B.seq C tokens o)
    (hy : ∀ o, B tokens o → Ends r y o)
    (hg : ∀ (v : α) (mid : List Token) (h : mid.length < m) (o : Outcome), C mid o →
      Ends r (g ⟨v, mid, h⟩) o) : Ends r (y >>= g) o := by
  cases ho with
  | first h => exact (hy _ h).bind g
  | @second mid _ h hC =>
    obtain ⟨v, hv⟩ := hy _ h
    obtain ⟨hlt, rfl⟩ := hv
    exact hg v mid hlt o hC

/-- What comes of a look at the first token. -/
theorem branch {B C : Behaviour} {p : Token.Kind → Prop} [DecidablePred p]
    {x y : Except ParseError (Parsed α n)} (ho : Behaviour.branch r p B C tokens o)
    (hx : B tokens o → Ends r x o) (hy : C tokens o → Ends r y o) :
    Ends r (if p (r.current tokens).kind then x else y) o := by
  rcases ho with ⟨hp, hB⟩ | ⟨hp, hC⟩
  · rw [if_pos hp]
    exact hx hB
  · rw [if_neg hp]
    exact hy hC

end Ends

/-! ## Readings and the behaviour they track -/

/-- The reading `x` of `tokens` fails as it should. Before the token of a complaint
stands a row that opens `L`, and every row that begins in the same way is
complained about at the same place. At an unreadable spot all tokens open `L`, or
all but the last and that one would be complained about. -/
structure Falters {γ : Type} (r : Reading) (L : Language Token.Kind) (B : Behaviour)
    (tokens : List Token) (x : Except ParseError γ) : Prop where
  complains : ∀ (e : ParseError) (late : Bool), x = .error e → e.late? = some late →
    ∃ pre left, tokens = pre ++ left ∧ r.reach left = .ok () ∧
      (late = true → SaidOfTaken r left e) ∧ e.span = (r.current left).span ∧
      Opens L (kinds pre) ∧
      ∀ tokens' left', Shares pre left tokens' left' → B tokens' (.complains left' late)
  stops : ∀ f, x = .error (.unreadable f) → r.fault = some f ∧ (Opens L (kinds tokens) ∨
    ∃ pre t, tokens = pre ++ [t] ∧ Opens L (kinds pre) ∧
      ∀ tokens' left', Shares pre [t] tokens' left' → B tokens' (.complains left' true))

/-- The reading `x` of `tokens` fails as it should, and if it gives something, it took
a row of `L`, and so does every row that begins in the same way. -/
structure Tracks {α : Type} {n : Nat} (r : Reading) (L : Language Token.Kind) (B : Behaviour)
    (tokens : List Token) (x : Except ParseError (Parsed α n)) : Prop
    extends Falters r L B tokens x where
  gives : ∀ (v : α) (rest : List Token), Gives x v rest →
    ∃ used, tokens = used ++ rest ∧ r.reach rest = .ok () ∧ kinds used ∈ L ∧
      ∀ tokens' rest', Shares used rest tokens' rest' → B tokens' (.gives rest')

variable {α β γ : Type} {m n : Nat} {r : Reading} {L M : Language Token.Kind} {B C : Behaviour}
  {tokens : List Token}

/-- A larger language, and a behaviour that comes to the same for all tokens that
begin like the ones that are read. -/
theorem Falters.relax {x : Except ParseError γ} (h : Falters r L B tokens x) (hL : L ≤ M)
    (hB : ∀ tokens' o, SameHead tokens tokens' → B tokens' o → C tokens' o) :
    Falters r M C tokens x where
  complains e late he hlate := by
    obtain ⟨pre, left, rfl, hr, hsaid, hspan, hopens, hshared⟩ := h.complains e late he hlate
    refine ⟨pre, left, rfl, hr, hsaid, hspan, hopens.mono hL, fun tokens' left' hs => ?_⟩
    exact hB tokens' _ hs.sameHead (hshared tokens' left' hs)
  stops f hf := by
    obtain ⟨hfault, hopens | ⟨pre, t, rfl, hopens, hshared⟩⟩ := h.stops f hf
    · exact ⟨hfault, .inl (hopens.mono hL)⟩
    · refine ⟨hfault, .inr ⟨pre, t, rfl, hopens.mono hL, fun tokens' left' hs => ?_⟩⟩
      exact hB tokens' _ hs.sameHead (hshared tokens' left' hs)

/-- What is made of the result does not matter to how a reading fails. -/
theorem Falters.map {δ : Type} {x : Except ParseError γ} {g : γ → δ} (h : Falters r L B tokens x) :
    Falters r L B tokens (x >>= fun v => pure (g v)) := by
  cases x with
  | ok v => exact ⟨fun _ _ he => (by cases he), fun _ hf => (by cases hf)⟩
  | error e =>
    refine ⟨fun e' late he hlate => ?_, fun f hf => ?_⟩
    · cases he
      exact h.complains e late rfl hlate
    · cases hf
      exact h.stops f rfl

/-- If a reading tracks and the next one fails as it should, so do both in a row. -/
theorem Falters.seq {x : Except ParseError (Parsed α m)} {f : Parsed α m → Except ParseError γ}
    (hx : Tracks r L B tokens x) (hM : Opens M [])
    (hf : ∀ (v : α) (rest : List Token) (h : rest.length < m), r.reach rest = .ok () →
      Falters r M C rest (f ⟨v, rest, h⟩)) :
    Falters r (L * M) (B.seq C) tokens (x >>= f) := by
  cases hres : x with
  | error e =>
    -- the first reading fails, and the second would have something to add
    refine ⟨fun e' late he hlate => ?_, fun f' hf' => ?_⟩
    · cases he
      obtain ⟨pre, left, rfl, hr, hsaid, hspan, hopens, hshared⟩ := hx.complains e late hres hlate
      refine ⟨pre, left, rfl, hr, hsaid, hspan, hopens.mul_left hM, fun tokens' left' hs => ?_⟩
      exact .first (hshared tokens' left' hs)
    · cases hf'
      obtain ⟨hfault, hopens | ⟨pre, t, rfl, hopens, hshared⟩⟩ := hx.stops f' hres
      · exact ⟨hfault, .inl (hopens.mul_left hM)⟩
      · refine ⟨hfault, .inr ⟨pre, t, rfl, hopens.mul_left hM, fun tokens' left' hs => ?_⟩⟩
        exact .first (hshared tokens' left' hs)
  | ok p =>
    -- the second reading starts where the first one stopped
    obtain ⟨v, rest, hlt⟩ := p
    obtain ⟨used, rfl, hr, hmem, hgives⟩ := hx.gives v rest ⟨hlt, hres⟩
    have hsecond := hf v rest hlt hr
    have hgo : ∀ {pre left : List Token} {late : Bool}, rest = pre ++ left →
        (∀ tokens' left', Shares pre left tokens' left' → C tokens' (.complains left' late)) →
        ∀ tokens' left', Shares (used ++ pre) left tokens' left' →
          B.seq C tokens' (.complains left' late) := by
      intro pre left late hrest hshared tokens' left' hs
      obtain ⟨mid, h₁, h₂⟩ := hs.split
      rw [← hrest] at h₁
      exact .second (hgives tokens' mid h₁) (hshared mid left' h₂)
    refine ⟨fun e late he hlate => ?_, fun f' hf' => ?_⟩
    · obtain ⟨pre, left, hrest, hr', hsaid, hspan, hopens, hshared⟩ :=
        hsecond.complains e late he hlate
      refine ⟨used ++ pre, left, ?_, hr', hsaid, hspan, ?_, hgo hrest hshared⟩
      · rw [hrest, List.append_assoc]
      · rw [kinds, List.map_append]
        exact hopens.mul_right hmem
    · obtain ⟨hfault, hopens | ⟨pre, t, hrest, hopens, hshared⟩⟩ := hsecond.stops f' hf'
      · refine ⟨hfault, .inl ?_⟩
        rw [kinds, List.map_append]
        exact hopens.mul_right hmem
      · refine ⟨hfault, .inr ⟨used ++ pre, t, ?_, ?_, hgo hrest hshared⟩⟩
        · rw [hrest, List.append_assoc]
        · rw [kinds, List.map_append]
          exact hopens.mul_right hmem

namespace Tracks

theorem relax {x : Except ParseError (Parsed α n)} (h : Tracks r L B tokens x) (hL : L ≤ M)
    (hB : ∀ tokens' o, SameHead tokens tokens' → B tokens' o → C tokens' o) :
    Tracks r M C tokens x where
  toFalters := h.toFalters.relax hL hB
  gives v rest hv := by
    obtain ⟨used, rfl, hr, hmem, hshared⟩ := h.gives v rest hv
    refine ⟨used, rfl, hr, hL hmem, fun tokens' rest' hs => ?_⟩
    exact hB tokens' _ hs.sameHead (hshared tokens' rest' hs)

/-- To take nothing. -/
theorem skip {v : α} {h : tokens.length < n} (hr : r.reach tokens = .ok ()) :
    Tracks r 1 Behaviour.skip tokens (pure ⟨v, tokens, h⟩ : Except ParseError (Parsed α n)) where
  complains e late he := by cases he
  stops f hf := by cases hf
  gives v' rest hv := by
    obtain ⟨_, rfl⟩ := Gives.pure_iff.mp hv
    refine ⟨[], rfl, hr, Language.nil_mem_one, fun tokens' rest' hs => ?_⟩
    obtain ⟨rfl, _⟩ := shares_nil_iff.mp hs
    rfl

/-- To complain about the first token, which is not taken, or about the end of the file. -/
theorem complain {e : ParseError} {late : Bool} (hr : r.reach tokens = .ok ())
    (hsaid : late = false ∨ SaidOfTaken r tokens e) (hlate : e.late? = some late)
    (hspan : e.span = (r.current tokens).span) (hL : Opens L []) :
    Tracks r L (Behaviour.complain late) tokens (.error e : Except ParseError (Parsed α n)) where
  complains e' late' he hlate' := by
    cases he
    cases hlate.symm.trans hlate'
    have hsaid : late = true → SaidOfTaken r tokens e := by
      intro h
      rcases hsaid with he | hsaid
      · cases h.symm.trans he
      · exact hsaid
    refine ⟨[], tokens, rfl, hr, hsaid, hspan, hL, fun tokens' left' hs => ?_⟩
    obtain ⟨rfl, _⟩ := shares_nil_iff.mp hs
    rfl
  stops f hf := by
    cases hf
    cases hlate
  gives v rest hv := (Gives.error_iff.mp hv).elim

/-- A reader that refuses the end of the file. -/
theorem refuseEnd {r' : Reading} {f : Reader α} {e : ParseError} {late : Bool}
    (hr : r.reach [] = .ok ()) (hsaid : late = false ∨ SaidOfTaken r [] e)
    (hlate : e.late? = some late) (hspan : e.span = r.ending.span) (hL : Opens L [])
    (h : Complains r' (f []) [] late) :
    Tracks r L (fun ts => Ends r' (f ts)) [] (.error e : Except ParseError (Parsed α n)) := by
  refine (complain hr hsaid hlate hspan hL).relax le_rfl ?_
  intro ts o hs ho
  cases ho
  rw [hs.eq_nil]
  exact h

/-- A reader that refuses a token for its kind, without taking it. -/
theorem refuse {r' : Reading} {f : Reader α} {t : Token} {rest : List Token} {e : ParseError}
    (hr : r.reach (t :: rest) = .ok ()) (hlate : e.late? = some false) (hspan : e.span = t.span)
    (hL : Opens L [])
    (h : ∀ u mid, u.kind = t.kind → Complains r' (f (u :: mid)) (u :: mid) false) :
    Tracks r L (fun ts => Ends r' (f ts)) (t :: rest)
      (.error e : Except ParseError (Parsed α n)) := by
  refine (complain hr (.inl rfl) hlate hspan hL).relax le_rfl ?_
  intro ts o hs ho
  obtain ⟨u, mid, rfl, hu⟩ := hs.eq_cons
  cases ho
  exact h u mid hu

/-- To complain about a token once it is taken. -/
theorem complainLate {t : Token} {rest : List Token} {e : ParseError}
    (hsaid : r.reach rest = .ok () → SaidOfTaken r (t :: rest) e)
    (hlate : e.late? = some true) (hspan : e.span = t.span) (hL : Opens L []) :
    Tracks r L (Behaviour.complain true) (t :: rest)
      (r.reach rest >>= fun _ => .error e : Except ParseError (Parsed α n)) := by
  have hshared : ∀ left tokens' left', Shares [] left tokens' left' →
      Behaviour.complain true tokens' (.complains left' true) := by
    intro left tokens' left' hs
    obtain ⟨rfl, _⟩ := shares_nil_iff.mp hs
    rfl
  rcases r.reach_cases rest with hr | ⟨f, rfl, hfault, hr⟩
  · rw [hr]
    refine ⟨⟨fun e' late he hlate' => ?_, fun f hf => ?_⟩, fun v rest' hv => ?_⟩
    · cases he
      cases hlate.symm.trans hlate'
      exact ⟨[], t :: rest, rfl, rfl, fun _ => hsaid hr, hspan, hL, hshared _⟩
    · cases hf
      cases hlate
    · exact (Gives.error_iff.mp hv).elim
  · rw [hr]
    refine ⟨⟨fun e' late he hlate' => ?_, fun f' hf => ?_⟩, fun v rest' hv => ?_⟩
    · cases he
      cases hlate'
    · cases hf
      exact ⟨hfault, .inr ⟨[], t, rfl, hL, hshared _⟩⟩
    · exact (Gives.error_iff.mp hv).elim

/-- To take a token and go on. -/
theorem take {t : Token} {rest : List Token} {p : Token.Kind → Prop} (hp : p t.kind)
    {f : Unit → Except ParseError (Parsed α n)} (hL : Opens L [])
    (hf : r.reach rest = .ok () → Tracks r L B rest (f ())) :
    Tracks r (single p * L) (Behaviour.take p B) (t :: rest) (r.reach rest >>= f) := by
  have hmem : kinds [t] ∈ single p := mem_single.mpr hp
  rcases r.reach_cases rest with hr | ⟨f', rfl, hfault, hr⟩
  · have hrest := hf hr
    rw [hr]
    refine ⟨⟨fun e late he hlate => ?_, fun f' hf' => ?_⟩, fun v rest' hv => ?_⟩
    · obtain ⟨pre, left, rfl, hr', hsaid, hspan, hopens, hshared⟩ :=
        hrest.complains e late he hlate
      refine ⟨t :: pre, left, rfl, hr', hsaid, hspan, hopens.mul_right hmem,
        fun tokens' left' hs => ?_⟩
      obtain ⟨u, mid, rfl, hu, hs⟩ := shares_cons_iff.mp hs
      exact ⟨u, mid, rfl, hu ▸ hp, hshared mid left' hs⟩
    · obtain ⟨hfault, hopens | ⟨pre, u, rfl, hopens, hshared⟩⟩ := hrest.stops f' hf'
      · exact ⟨hfault, .inl (hopens.mul_right hmem)⟩
      · refine ⟨hfault, .inr ⟨t :: pre, u, rfl, hopens.mul_right hmem, ?_⟩⟩
        intro tokens' left' hs
        obtain ⟨v, mid, rfl, hv, hs⟩ := shares_cons_iff.mp hs
        exact ⟨v, mid, rfl, hv ▸ hp, hshared mid left' hs⟩
    · obtain ⟨used, rfl, hr', hmem', hshared⟩ := hrest.gives v rest' hv
      refine ⟨t :: used, rfl, hr', Language.append_mem_mul hmem hmem', fun tokens' rest'' hs => ?_⟩
      obtain ⟨u, mid, rfl, hu, hs⟩ := shares_cons_iff.mp hs
      exact ⟨u, mid, rfl, hu ▸ hp, hshared mid rest'' hs⟩
  · rw [hr]
    refine ⟨⟨fun e late he hlate => ?_, fun f'' hf'' => ?_⟩, fun v rest' hv => ?_⟩
    · cases he
      cases hlate
    · cases hf''
      exact ⟨hfault, .inl (hL.mul_right hmem)⟩
    · exact (Gives.error_iff.mp hv).elim

/-- To take a token of a given kind and go on. -/
theorem takeToken {t : Token} {rest : List Token} {k : Token.Kind} (hk : t.kind = k)
    {f : Unit → Except ParseError (Parsed α n)} (hL : Opens L [])
    (hf : r.reach rest = .ok () → Tracks r L B rest (f ())) :
    Tracks r (token k * L) (Behaviour.take (· = k) B) (t :: rest) (r.reach rest >>= f) :=
  take hk hL hf

/-- To look at what comes after the first token before it is taken. -/
theorem peek {t : Token} {rest : List Token} {f : Unit → Except ParseError (Parsed α n)}
    (hL : Opens L [t.kind]) (hf : r.reach rest = .ok () → Tracks r L B (t :: rest) (f ())) :
    Tracks r L B (t :: rest) (r.reach rest >>= f) := by
  rcases r.reach_cases rest with hr | ⟨f', rfl, hfault, hr⟩
  · rw [hr]
    exact hf hr
  · rw [hr]
    refine ⟨⟨fun e late he hlate => ?_, fun f'' hf'' => ?_⟩, fun v rest' hv => ?_⟩
    · cases he
      cases hlate
    · cases hf''
      exact ⟨hfault, .inl hL⟩
    · exact (Gives.error_iff.mp hv).elim

/-- To go on as the kind of the first token has it. -/
theorem branch {r' : Reading} {p : Token.Kind → Prop} [DecidablePred p]
    {x y : Except ParseError (Parsed α n)} (hr : r.ending.kind = .endOfFile)
    (hr' : r'.ending.kind = .endOfFile) (hx : Tracks r L B tokens x) (hy : Tracks r M C tokens y) :
    Tracks r (L + M) (Behaviour.branch r' p B C) tokens
      (if p (r.current tokens).kind then x else y) := by
  by_cases hp : p (r.current tokens).kind
  · rw [if_pos hp]
    exact hx.relax le_self_add fun ts o hs ho => .inl ⟨hs.current_kind hr hr' ▸ hp, ho⟩
  · rw [if_neg hp]
    exact hy.relax le_add_self fun ts o hs ho => .inr ⟨hs.current_kind hr hr' ▸ hp, ho⟩

/-- One reading after another. -/
theorem seq {x : Except ParseError (Parsed α m)}
    {f : Parsed α m → Except ParseError (Parsed β n)} (hx : Tracks r L B tokens x)
    (hM : Opens M [])
    (hf : ∀ (v : α) (rest : List Token) (h : rest.length < m), r.reach rest = .ok () →
      Tracks r M C rest (f ⟨v, rest, h⟩)) :
    Tracks r (L * M) (B.seq C) tokens (x >>= f) where
  toFalters := .seq hx hM fun v rest h hr => (hf v rest h hr).toFalters
  gives w rest hw := by
    obtain ⟨v, mid, h, hv, hw⟩ := Gives.bind_iff.mp hw
    obtain ⟨used, rfl, hr, hmem, hshared⟩ := hx.gives v mid hv
    obtain ⟨used', rfl, hr', hmem', hshared'⟩ := (hf v mid h hr).gives w rest hw
    refine ⟨used ++ used', (List.append_assoc ..).symm, hr', ?_, fun tokens' rest' hs => ?_⟩
    · rw [kinds, List.map_append]
      exact Language.append_mem_mul hmem hmem'
    · obtain ⟨mid', h₁, h₂⟩ := hs.split
      exact .second (hshared tokens' mid' h₁) (hshared' mid' rest' h₂)

end Tracks

end Decaf
