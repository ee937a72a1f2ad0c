import Decaf.Proofs.Syntax.Grammar

/-!
# What the readers give

A reader either gives something and leaves the tokens it did not take, or it
complains. `Gives x v rest` is the first case, and this file says for every reader
when it arises: one equivalence for each, in terms of the readers it calls
(`expr_gives`, `primary_gives`, and so on). All later facts about the parser are
drawn from these equivalences, in either direction, without opening a reader again.

What a reader does to single tokens is `Reading.Takes`: the front token has the kind
that is asked for, and the text is readable up to the token after it.
-/

namespace Decaf

/-- The kinds of a row of tokens. -/
abbrev kinds (tokens : List Token) : Grammar.Word :=
  tokens.map (·.kind)

theorem kinds_cons (t : Token) (tokens : List Token) :
    kinds (t :: tokens) = t.kind :: kinds tokens :=
  rfl

namespace Token.Kind

/-- The sign of an operator tells which one it is. -/
theorem binaryOp?_eq_some_iff {k : Token.Kind} {op : BinaryOp} :
    k.binaryOp? = some op ↔ k = .sign op.sign := by
  constructor
  · intro h
    cases k with
    | sign s => cases s <;> cases h <;> rfl
    | _ => cases h
  · rintro rfl
    cases op <;> rfl

theorem unaryOp?_eq_some_iff {k : Token.Kind} {op : UnaryOp} :
    k.unaryOp? = some op ↔ k = .sign op.sign := by
  constructor
  · intro h
    cases k with
    | sign s => cases s <;> cases h <;> rfl
    | _ => cases h
  · rintro rfl
    cases op <;> rfl

/-- The readers and the grammar agree on what names a type. -/
theorem type?_eq_some_iff {k : Token.Kind} {ty : Ty} :
    k.type? = some ty ↔ Grammar.TypeName k ty := by
  constructor
  · intro h
    cases k with
    | word w => cases w <;> cases h <;> constructor
    | _ => cases h
  · rintro (_ | _ | _) <;> rfl

end Token.Kind

namespace Reading

/-- A token `t` of kind `k` stands at the front of `tokens`, and taking it leads
to `rest`. -/
def Takes (r : Reading) (k : Token.Kind) (tokens : List Token) (t : Token)
    (rest : List Token) : Prop :=
  tokens = t :: rest ∧ t.kind = k ∧ r.reach rest = .ok ()

theorem takes_nil {r : Reading} {k : Token.Kind} {t : Token} {rest : List Token} :
    r.Takes k [] t rest ↔ False := by
  simp [Takes]

theorem takes_cons {r : Reading} {k : Token.Kind} {u t : Token} {more rest : List Token} :
    r.Takes k (u :: more) t rest ↔
      u = t ∧ more = rest ∧ u.kind = k ∧ r.reach more = .ok () := by
  constructor
  · rintro ⟨h, hk, hr⟩
    injection h with h₁ h₂
    exact ⟨h₁, h₂, h₁ ▸ hk, h₂ ▸ hr⟩
  · rintro ⟨rfl, rfl, hk, hr⟩
    exact ⟨rfl, hk, hr⟩

/-- Where one kind of token can be taken, no other kind comes first. -/
theorem Takes.head?_ne {r : Reading} {k k' : Token.Kind} {tokens : List Token} {t : Token}
    {rest : List Token} (h : r.Takes k tokens t rest) (hne : k ≠ k') :
    (kinds tokens).head? ≠ some k' := by
  rw [h.1]
  intro he
  exact hne (h.2.1.symm.trans (Option.some.inj he))

/-- In kinds, to take a token is to take the head of the row. Derivations are about kinds, so it
is through this equation that readers meet the grammar. -/
theorem Takes.kinds_eq {r : Reading} {k : Token.Kind} {tokens rest : List Token} {t : Token}
    (h : r.Takes k tokens t rest) : kinds tokens = k :: kinds rest := by
  rw [h.1, kinds, List.map_cons, h.2.1]

/-- Taking a token leaves fewer. Every measure of the readers rests on this. -/
theorem Takes.length_lt {r : Reading} {k : Token.Kind} {tokens rest : List Token} {t : Token}
    (h : r.Takes k tokens t rest) : rest.length < tokens.length := by
  rw [h.1]
  exact Nat.lt_succ_self _

/-- To look at the current token is to look at the head of the row, except at the end of the file,
where the current token is not in the row. -/
theorem current_kind_iff {r : Reading} (hr : r.ending.kind = .endOfFile) {tokens : List Token}
    {k : Token.Kind} (hk : k ≠ .endOfFile) :
    (r.current tokens).kind = k ↔ (kinds tokens).head? = some k := by
  cases tokens with
  | nil => simp [current, hr, hk.symm]
  | cons t rest => simp [current]

/-- Where the row has a head, the current token is of that kind. -/
theorem current_kind_eq (r : Reading) {tokens : List Token} {k : Token.Kind}
    {more : List Token.Kind} (h : kinds tokens = k :: more) : (r.current tokens).kind = k := by
  cases tokens with
  | nil => cases h
  | cons t rest => exact (List.cons.inj h).1

end Reading

/-- A reader gives `v` and leaves `rest`. -/
def Gives {α : Type} {n : Nat} (x : Except ParseError (Parsed α n)) (v : α)
    (rest : List Token) : Prop :=
  ∃ h, x = .ok ⟨v, rest, h⟩

namespace Gives

variable {α β : Type} {m n : Nat} {v : α} {w : β} {rest : List Token}

/-- What is left is shorter by what the type of the reader says. -/
theorem length_lt {x : Except ParseError (Parsed α n)} (h : Gives x v rest) :
    rest.length < n := by
  obtain ⟨h, _⟩ := h
  exact h

theorem ok_iff {p : Parsed α n} : Gives (.ok p) v rest ↔ p.value = v ∧ p.rest = rest := by
  obtain ⟨w, left, h⟩ := p
  constructor
  · rintro ⟨h', e⟩
    injection e with e
    injection e with e₁ e₂
    exact ⟨e₁, e₂⟩
  · rintro ⟨rfl, rfl⟩
    exact ⟨h, rfl⟩

theorem pure_iff {p : Parsed α n} :
    Gives (pure p : Except ParseError _) v rest ↔ p.value = v ∧ p.rest = rest :=
  ok_iff

theorem error_iff {e : ParseError} :
    Gives (.error e : Except ParseError (Parsed α n)) v rest ↔ False := by
  constructor
  · rintro ⟨_, e⟩
    cases e
  · exact False.elim

theorem throw_iff {e : ParseError} :
    Gives (throw e : Except ParseError (Parsed α n)) v rest ↔ False :=
  error_iff

/-- One reading after another: the second begins with what the first leaves. -/
theorem bind_iff {x : Except ParseError (Parsed α m)}
    {f : Parsed α m → Except ParseError (Parsed β n)} :
    Gives (x >>= f) w rest ↔ ∃ a mid h, Gives x a mid ∧ Gives (f ⟨a, mid, h⟩) w rest := by
  cases x with
  | error e => simp [bind, Except.bind, error_iff]
  | ok p =>
    obtain ⟨a, mid, h⟩ := p
    constructor
    · intro hf
      exact ⟨a, mid, h, ⟨h, rfl⟩, hf⟩
    · rintro ⟨a', mid', h', ⟨_, e⟩, hf⟩
      cases e
      exact hf

/-- The way in which readings are put together; `bind_iff` takes them apart. -/
theorem seq {x : Except ParseError (Parsed α m)}
    {f : Parsed α m → Except ParseError (Parsed β n)} {mid : List Token} (hx : Gives x v mid)
    (hf : ∀ h, Gives (f ⟨v, mid, h⟩) w rest) : Gives (x >>= f) w rest :=
  bind_iff.mpr ⟨v, mid, hx.length_lt, hx, hf _⟩

/-- Handing on what was read changes nothing. -/
theorem relay_iff {x : Except ParseError (Parsed α m)}
    {f : Parsed α m → Except ParseError (Parsed α n)}
    (hf : ∀ a mid h, ∃ h', f ⟨a, mid, h⟩ = pure ⟨a, mid, h'⟩) :
    Gives (x >>= f) v rest ↔ Gives x v rest := by
  rw [bind_iff]
  constructor
  · rintro ⟨a, mid, h, hx, hp⟩
    obtain ⟨h', he⟩ := hf a mid h
    rw [he, pure_iff] at hp
    obtain ⟨rfl, rfl⟩ := hp
    exact hx
  · intro hx
    obtain ⟨h', he⟩ := hf v rest hx.length_lt
    exact ⟨v, rest, hx.length_lt, hx, by rw [he]; exact pure_iff.mpr ⟨rfl, rfl⟩⟩

/-- A step that reads no tokens, such as a literal that may be out of range. -/
theorem except_bind_iff {γ : Type} {x : Except ParseError γ}
    {f : γ → Except ParseError (Parsed α n)} :
    Gives (x >>= f) v rest ↔ ∃ a, x = .ok a ∧ Gives (f a) v rest := by
  cases x with
  | error e => simp [bind, Except.bind, error_iff]
  | ok a => simp [bind, Except.bind]

/-- Before a reader goes on it finds out that the text is readable so far. -/
theorem reach_iff {r : Reading} {tokens : List Token}
    {f : Unit → Except ParseError (Parsed α n)} :
    Gives (r.reach tokens >>= f) v rest ↔ r.reach tokens = .ok () ∧ Gives (f ()) v rest := by
  rw [except_bind_iff]
  exact ⟨fun ⟨_, hr, hf⟩ => ⟨hr, hf⟩, fun ⟨hr, hf⟩ => ⟨(), hr, hf⟩⟩

end Gives

namespace Parser

theorem bind_eq_ok_iff {α β : Type} {x : Except ParseError α} {f : α → Except ParseError β}
    {b : β} : (x >>= f) = .ok b ↔ ∃ a, x = .ok a ∧ f a = .ok b := by
  cases x with
  | error e => simp [bind, Except.bind]
  | ok a => simp [bind, Except.bind]

open Reading (takes_nil takes_cons)

variable {r : Reading} {tokens rest : List Token}

/-! ## Single tokens -/

/-- A demanded token is taken, or nothing is read. -/
theorem expect_gives {k : Token.Kind} {t : Token} :
    Gives (expect r k tokens) t rest ↔ r.Takes k tokens t rest := by
  cases tokens with
  | nil => simp only [expect, Gives.error_iff, takes_nil]
  | cons u more =>
    rw [expect, takes_cons]
    split
    · next hk =>
      rw [Gives.reach_iff, Gives.pure_iff]
      constructor
      · rintro ⟨hr, rfl, rfl⟩
        exact ⟨rfl, rfl, hk, hr⟩
      · rintro ⟨rfl, rfl, _, hr⟩
        exact ⟨hr, rfl, rfl⟩
    · next hk =>
      rw [Gives.throw_iff]
      constructor
      · exact False.elim
      · rintro ⟨_, _, hk', _⟩
        exact hk hk'

/-- A name is taken whatever it is, and its span is kept. -/
theorem identifier_gives {x : String} {span : Span} :
    Gives (identifier r tokens) (x, span) rest ↔
      ∃ t, r.Takes (.identifier x) tokens t rest ∧ t.span = span := by
  cases tokens with
  | nil => simp only [identifier, Gives.error_iff, takes_nil, false_and, exists_false]
  | cons u more =>
    simp only [identifier, takes_cons, Gives.reach_iff]
    split
    · next y hk =>
      rw [Gives.pure_iff]
      constructor
      · rintro ⟨hr, he, rfl⟩
        injection he with h₁ h₂
        exact ⟨u, ⟨rfl, rfl, h₁ ▸ hk, hr⟩, h₂⟩
      · rintro ⟨_, ⟨rfl, rfl, hx, hr⟩, rfl⟩
        injection hk.symm.trans hx with h
        exact ⟨hr, by rw [h], rfl⟩
    · next hk =>
      rw [Gives.throw_iff]
      constructor
      · rintro ⟨_, h⟩
        exact h.elim
      · rintro ⟨_, ⟨_, _, hx, _⟩, _⟩
        exact absurd hx (hk x)

/-- The name of a type is taken, and which type it names. -/
theorem type_gives {ty : Ty} {span : Span} :
    Gives (type r tokens) (ty, span) rest ↔
      ∃ k t, r.Takes k tokens t rest ∧ Grammar.TypeName k ty ∧ t.span = span := by
  cases tokens with
  | nil => simp only [type, Gives.error_iff, takes_nil, false_and, exists_false]
  | cons u more =>
    simp only [type, takes_cons, ← Token.Kind.type?_eq_some_iff]
    split
    · next ty' hk =>
      rw [Gives.reach_iff, Gives.pure_iff]
      constructor
      · rintro ⟨hr, he, rfl⟩
        injection he with h₁ h₂
        exact ⟨u.kind, u, ⟨rfl, rfl, rfl, hr⟩, h₁ ▸ hk, h₂⟩
      · rintro ⟨_, _, ⟨rfl, rfl, rfl, hr⟩, hx, rfl⟩
        injection hk.symm.trans hx with h
        exact ⟨hr, by rw [h], rfl⟩
    · next hk =>
      rw [Gives.throw_iff]
      constructor
      · exact False.elim
      · rintro ⟨_, _, ⟨_, _, rfl, _⟩, hx, _⟩
        exact absurd (hk.symm.trans hx) (Option.some_ne_none _).symm

/-- The length of an array is a decimal numeral that is not too large. -/
theorem arrayLength_gives {n : Nat} :
    Gives (arrayLength r tokens) n rest ↔
      ∃ text t, r.Takes (.decLiteral text) tokens t rest ∧ lengthOfDecimal? text = some n := by
  cases tokens with
  | nil => simp only [arrayLength, Gives.error_iff, takes_nil, false_and, exists_false]
  | cons u more =>
    simp only [arrayLength, takes_cons, Gives.reach_iff]
    split
    · next text hk =>
      split
      · next m hm =>
        rw [Gives.pure_iff]
        constructor
        · rintro ⟨hr, rfl, rfl⟩
          exact ⟨text, u, ⟨rfl, rfl, hk, hr⟩, hm⟩
        · rintro ⟨_, _, ⟨rfl, rfl, hk', hr⟩, hn⟩
          injection hk.symm.trans hk' with h
          subst h
          injection hm.symm.trans hn with h
          exact ⟨hr, h, rfl⟩
      · next hm =>
        rw [Gives.throw_iff]
        constructor
        · rintro ⟨_, h⟩
          exact h.elim
        · rintro ⟨_, _, ⟨_, _, hk', _⟩, hn⟩
          injection hk.symm.trans hk' with h
          subst h
          exact absurd (hm.symm.trans hn) (Option.some_ne_none _).symm
    · next hk =>
      rw [Gives.throw_iff]
      constructor
      · rintro ⟨_, h⟩
        exact h.elim
      · rintro ⟨text, _, ⟨_, _, hk', _⟩, _⟩
        exact absurd hk' (hk text)

/-- An optional token that is there is taken. -/
theorem optional_gives_true {k : Token.Kind} :
    Gives (optional r k tokens) true rest ↔ ∃ t, r.Takes k tokens t rest := by
  cases tokens with
  | nil => simp [optional, Gives.ok_iff, takes_nil]
  | cons u more =>
    simp only [optional, takes_cons]
    split
    · next hk =>
      rw [Gives.reach_iff, Gives.pure_iff]
      constructor
      · rintro ⟨hr, _, rfl⟩
        exact ⟨u, rfl, rfl, hk, hr⟩
      · rintro ⟨_, rfl, rfl, _, hr⟩
        exact ⟨hr, rfl, rfl⟩
    · next hk =>
      rw [Gives.pure_iff]
      constructor
      · rintro ⟨h, _⟩
        cases h
      · rintro ⟨_, _, _, hk', _⟩
        exact absurd hk' hk

/-- If nothing is taken, then the token is not there. So reading is deterministic: what follows is
tried only once. -/
theorem optional_gives_false {k : Token.Kind} :
    Gives (optional r k tokens) false rest ↔ rest = tokens ∧ (kinds tokens).head? ≠ some k := by
  cases tokens with
  | nil => simp [optional, Gives.ok_iff, eq_comm]
  | cons u more =>
    simp only [optional, List.map_cons, List.head?_cons, ne_eq, Option.some.injEq]
    split
    · next hk =>
      rw [Gives.reach_iff, Gives.pure_iff]
      constructor
      · rintro ⟨_, h, _⟩
        cases h
      · rintro ⟨_, hk'⟩
        exact absurd hk hk'
    · next hk =>
      rw [Gives.pure_iff]
      constructor
      · rintro ⟨_, rfl⟩
        exact ⟨rfl, hk⟩
      · rintro ⟨rfl, _⟩
        exact ⟨rfl, rfl⟩

/-- What follows an optional token goes on after it if it is there, and from the
same place if it is not. -/
theorem optional_bind_iff {α : Type} {n : Nat} {k : Token.Kind} {v : α}
    {f : Parsed Bool (tokens.length + 1) → Except ParseError (Parsed α n)} :
    Gives (optional r k tokens >>= f) v rest ↔
      (∃ t mid h, r.Takes k tokens t mid ∧ Gives (f ⟨true, mid, h⟩) v rest) ∨
      ((kinds tokens).head? ≠ some k ∧
        Gives (f ⟨false, tokens, Parsed.self_lt tokens⟩) v rest) := by
  rw [Gives.bind_iff]
  constructor
  · rintro ⟨found, mid, h, ho, hf⟩
    cases found with
    | true =>
      obtain ⟨t, ht⟩ := optional_gives_true.mp ho
      exact .inl ⟨t, mid, h, ht, hf⟩
    | false =>
      obtain ⟨rfl, hk⟩ := optional_gives_false.mp ho
      exact .inr ⟨hk, hf⟩
  · rintro (⟨t, mid, h, ht, hf⟩ | ⟨hk, hf⟩)
    · exact ⟨true, mid, h, optional_gives_true.mpr ⟨t, ht⟩, hf⟩
    · exact ⟨false, tokens, _, optional_gives_false.mpr ⟨rfl, hk⟩, hf⟩

/-! ## Expressions -/

/-- An expression is read flat, as an operand and a chain of operators with operands, and is put
together afterwards. -/
theorem expr_gives {e : Expr} :
    Gives (expr r tokens) e rest ↔
      ∃ first mid chain, Gives (operand r tokens) first mid ∧
        Gives (operators r mid) chain rest ∧ Chain.assemble (joined r) first chain = e := by
  rw [expr]
  simp only [Gives.bind_iff, Gives.pure_iff]
  constructor
  · rintro ⟨first, mid, _, ho, chain, _, _, hc, rfl, rfl⟩
    exact ⟨first, mid, chain, ho, hc, rfl⟩
  · rintro ⟨first, mid, chain, ho, hc, rfl⟩
    exact ⟨first, mid, ho.length_lt, ho, chain, rest, hc.length_lt, hc, rfl, rfl⟩

/-- The chain goes on as long as a binary operator comes next. That none comes next is part of the
answer, so a chain is as long as it can be. -/
theorem operators_gives {chain : Chain.Tail} :
    Gives (operators r tokens) chain rest ↔
      ((∀ op : BinaryOp, (kinds tokens).head? ≠ some (.sign op.sign)) ∧ chain = [] ∧
        rest = tokens) ∨
      ∃ op t mid right after more, r.Takes (.sign (BinaryOp.sign op)) tokens t mid ∧
        Gives (operand r mid) right after ∧ Gives (operators r after) more rest ∧
        chain = (op, right) :: more := by
  cases tokens with
  | nil =>
    rw [operators, Gives.ok_iff]
    simp [takes_nil, eq_comm]
  | cons t mid =>
    rw [operators]
    simp only [takes_cons, List.map_cons, List.head?_cons, ne_eq, Option.some.injEq,
      ← Token.Kind.binaryOp?_eq_some_iff]
    split
    · next hnone =>
      rw [Gives.ok_iff]
      constructor
      · rintro ⟨rfl, rfl⟩
        refine .inl ⟨fun op hop => ?_, rfl, rfl⟩
        rw [hnone] at hop
        cases hop
      · rintro (⟨_, rfl, rfl⟩ | ⟨op, _, _, _, _, _, ⟨_, _, hop, _⟩, _⟩)
        · exact ⟨rfl, rfl⟩
        · rw [hnone] at hop
          cases hop
    · next op hop =>
      simp only [Gives.reach_iff, Gives.bind_iff, Gives.pure_iff]
      constructor
      · rintro ⟨hr, right, after, _, ho, more, _, _, hc, rfl, rfl⟩
        exact .inr ⟨op, t, mid, right, after, more, ⟨rfl, rfl, hop, hr⟩, ho, hc, rfl⟩
      · rintro (⟨hno, _⟩ | ⟨op', _, _, right, after, more, ⟨rfl, rfl, hop', hr⟩, ho, hc, rfl⟩)
        · exact absurd hop (hno op)
        · injection hop.symm.trans hop' with he
          subst he
          exact ⟨hr, right, after, ho.length_lt, ho, more, rest, hc.length_lt, hc, rfl, rfl⟩

/-- An operand is a primary expression behind any number of unary operators, each of which spans
what it is applied to. -/
theorem operand_gives {e : Expr} :
    Gives (operand r tokens) e rest ↔
      ((∀ op : UnaryOp, (kinds tokens).head? ≠ some (.sign op.sign)) ∧
        Gives (primary r tokens) e rest) ∨
      ∃ op t mid inner, r.Takes (.sign (UnaryOp.sign op)) tokens t mid ∧
        Gives (operand r mid) inner rest ∧
        e = .unary (r.place (t.span.merge inner.span)) none op inner := by
  cases tokens with
  | nil =>
    rw [operand]
    simp [takes_nil]
  | cons t mid =>
    rw [operand]
    simp only [takes_cons, List.map_cons, List.head?_cons, ne_eq, Option.some.injEq,
      ← Token.Kind.unaryOp?_eq_some_iff]
    split
    · next hnone =>
      constructor
      · intro h
        refine .inl ⟨fun op hop => ?_, h⟩
        rw [hnone] at hop
        cases hop
      · rintro (⟨_, h⟩ | ⟨op, _, _, _, ⟨_, _, hop, _⟩, _⟩)
        · exact h
        · rw [hnone] at hop
          cases hop
    · next op hop =>
      simp only [Gives.reach_iff, Gives.bind_iff, Gives.pure_iff]
      constructor
      · rintro ⟨hr, inner, _, _, ho, rfl, rfl⟩
        exact .inr ⟨op, t, mid, inner, ⟨rfl, rfl, hop, hr⟩, ho, rfl⟩
      · rintro (⟨hno, _⟩ | ⟨op', _, _, inner, ⟨rfl, rfl, hop', hr⟩, ho, rfl⟩)
        · exact absurd hop (hno op)
        · injection hop.symm.trans hop' with he
          subst he
          exact ⟨hr, inner, rest, ho.length_lt, ho, rfl, rfl⟩

theorem literal?_openParen {t : Token} (h : t.kind = .sign .openParen) : literal? t = none := by
  rw [literal?, h]

theorem literal?_identifier {t : Token} {x : String} (h : t.kind = .identifier x) :
    literal? t = none := by
  rw [literal?, h]

/-- A primary expression is told by its first token: a parenthesis, a name or a literal. The
parentheses leave no trace in what is read. -/
theorem primary_gives {e : Expr} :
    Gives (primary r tokens) e rest ↔
      (∃ t mid after close, r.Takes (.sign .openParen) tokens t mid ∧ Gives (expr r mid) e after ∧
        r.Takes (.sign .closeParen) after close rest) ∨
      (∃ x, (kinds tokens).head? = some (.identifier x) ∧ Gives (callOrLocation r tokens) e rest) ∨
      ∃ t v, r.Takes t.kind tokens t rest ∧ literal? t = some (.ok v) ∧
        e = .literal (r.place t.span) none v := by
  cases tokens with
  | nil =>
    rw [primary]
    simp [takes_nil, Gives.error_iff]
  | cons t mid =>
    rw [primary]
    simp only [takes_cons, List.map_cons, List.head?_cons, Option.some.injEq]
    split
    · next hk =>
      simp only [Gives.reach_iff, Gives.bind_iff, Gives.pure_iff, expect_gives]
      constructor
      · rintro ⟨hr, _, after, _, he, close, _, _, hc, rfl, rfl⟩
        exact .inl ⟨t, mid, after, close, ⟨rfl, rfl, hk, hr⟩, he, hc⟩
      · rintro (⟨_, _, after, close, ⟨rfl, rfl, _, hr⟩, he, hc⟩ | ⟨x, hx, _⟩ |
          ⟨_, v, ⟨rfl, _⟩, hv, _⟩)
        · exact ⟨hr, e, after, he.length_lt, he, close, rest, (expect_gives.mpr hc).length_lt, hc,
            rfl, rfl⟩
        · rw [hk] at hx
          cases hx
        · rw [literal?_openParen hk] at hv
          cases hv
    · next x hk =>
      constructor
      · intro h
        exact .inr (.inl ⟨x, hk, h⟩)
      · rintro (⟨_, _, _, _, ⟨_, _, hk', _⟩, _⟩ | ⟨_, _, h⟩ | ⟨_, v, ⟨rfl, _⟩, hv, _⟩)
        · rw [hk] at hk'
          cases hk'
        · exact h
        · rw [literal?_identifier hk] at hv
          cases hv
    · next hp hx =>
      have hnp : t.kind ≠ .sign .openParen := hp
      split
      · next hv =>
        rw [Gives.throw_iff]
        constructor
        · exact False.elim
        · rintro (⟨_, _, _, _, ⟨_, _, hk', _⟩, _⟩ | ⟨x, hk', _⟩ | ⟨_, v, ⟨rfl, _⟩, hv', _⟩)
          · exact hnp hk'
          · exact hx x hk'
          · rw [hv] at hv'
            cases hv'
      · next value hv =>
        simp only [Gives.except_bind_iff, Gives.pure_iff]
        constructor
        · rintro ⟨v, rfl, _, hr, rfl, rfl⟩
          exact .inr (.inr ⟨t, v, ⟨rfl, rfl, rfl, hr⟩, hv, rfl⟩)
        · rintro (⟨_, _, _, _, ⟨_, _, hk', _⟩, _⟩ | ⟨x, hk', _⟩ |
            ⟨_, v, ⟨rfl, rfl, _, hr⟩, hv', rfl⟩)
          · exact absurd hk' hnp
          · exact absurd hk' (hx x)
          · injection hv.symm.trans hv' with he
            exact ⟨v, he, (), hr, rfl, rfl⟩

/-- What a name begins is decided by the token behind it: a parenthesis makes it a call, a bracket
an element of an array, and anything else leaves the name alone. -/
theorem callOrLocation_gives {e : Expr} :
    Gives (callOrLocation r tokens) e rest ↔ ∃ x t mid, r.Takes (.identifier x) tokens t mid ∧
      ((∃ u args first last close, r.Takes (.sign .openParen) mid u first ∧
          Gives (arguments r first) args last ∧ r.Takes (.sign .closeParen) last close rest ∧
          e = .call (r.place (t.span.merge close.span)) none x args) ∨
        (∃ u i first last close, r.Takes (.sign .openBracket) mid u first ∧
          Gives (expr r first) i last ∧ r.Takes (.sign .closeBracket) last close rest ∧
          e = .location (r.place (t.span.merge close.span)) none x (some i)) ∨
        (kinds mid).head? ≠ some (.sign .openParen) ∧
          (kinds mid).head? ≠ some (.sign .openBracket) ∧ rest = mid ∧
          e = .location (r.place t.span) none x none) := by
  rw [callOrLocation]
  constructor
  · intro h
    obtain ⟨⟨x, span⟩, mid, _, hx, h⟩ := Gives.bind_iff.mp h
    obtain ⟨t, ht, rfl⟩ := identifier_gives.mp hx
    refine ⟨x, t, mid, ht, ?_⟩
    rcases optional_bind_iff.mp h with ⟨u, first, _, hu, h⟩ | ⟨hp, h⟩
    · obtain ⟨args, last, _, ha, h⟩ := Gives.bind_iff.mp h
      obtain ⟨close, _, _, hc, h⟩ := Gives.bind_iff.mp h
      obtain ⟨rfl, rfl⟩ := Gives.pure_iff.mp h
      exact .inl ⟨u, args, first, last, close, hu, ha, expect_gives.mp hc, rfl⟩
    · rcases optional_bind_iff.mp h with ⟨u, first, _, hu, h⟩ | ⟨hb, h⟩
      · obtain ⟨i, last, _, hi, h⟩ := Gives.bind_iff.mp h
        obtain ⟨close, _, _, hc, h⟩ := Gives.bind_iff.mp h
        obtain ⟨rfl, rfl⟩ := Gives.pure_iff.mp h
        exact .inr (.inl ⟨u, i, first, last, close, hu, hi, expect_gives.mp hc, rfl⟩)
      · obtain ⟨rfl, rfl⟩ := Gives.pure_iff.mp h
        exact .inr (.inr ⟨hp, hb, rfl, rfl⟩)
  · rintro ⟨x, t, mid, ht, h⟩
    refine Gives.seq (identifier_gives.mpr ⟨t, ht, rfl⟩) fun _ => ?_
    rcases h with ⟨u, args, first, last, close, hu, ha, hc, rfl⟩ |
      ⟨u, i, first, last, close, hu, hi, hc, rfl⟩ | ⟨hp, hb, rfl, rfl⟩
    · refine Gives.seq (optional_gives_true.mpr ⟨u, hu⟩) fun _ => ?_
      refine Gives.seq ha fun _ => ?_
      exact Gives.seq (expect_gives.mpr hc) fun _ => Gives.pure_iff.mpr ⟨rfl, rfl⟩
    · refine Gives.seq (optional_gives_false.mpr ⟨rfl, hu.head?_ne (by decide)⟩) fun _ => ?_
      refine Gives.seq (optional_gives_true.mpr ⟨u, hu⟩) fun _ => ?_
      refine Gives.seq hi fun _ => ?_
      exact Gives.seq (expect_gives.mpr hc) fun _ => Gives.pure_iff.mpr ⟨rfl, rfl⟩
    · refine Gives.seq (optional_gives_false.mpr ⟨rfl, hp⟩) fun _ => ?_
      exact Gives.seq (optional_gives_false.mpr ⟨rfl, hb⟩) fun _ => Gives.pure_iff.mpr ⟨rfl, rfl⟩

/-- Only a closing parenthesis right away means that there are no arguments. -/
theorem arguments_gives {args : List Expr} :
    Gives (arguments r tokens) args rest ↔
      ((r.current tokens).kind = .sign .closeParen ∧ args = [] ∧ rest = tokens) ∨
      ((r.current tokens).kind ≠ .sign .closeParen ∧ Gives (argumentList r tokens) args rest) := by
  rw [arguments]
  split
  · next hk =>
    rw [Gives.pure_iff]
    constructor
    · rintro ⟨rfl, rfl⟩
      exact .inl ⟨hk, rfl, rfl⟩
    · rintro (⟨_, rfl, rfl⟩ | ⟨hk', _⟩)
      · exact ⟨rfl, rfl⟩
      · exact absurd hk hk'
  · next hk =>
    rw [Gives.relay_iff (by intro _ _ _; exact ⟨_, rfl⟩)]
    constructor
    · intro ha
      exact .inr ⟨hk, ha⟩
    · rintro (⟨hk', _⟩ | ⟨_, ha⟩)
      · exact absurd hk' hk
      · exact ha

/-- A comma calls for one more argument. -/
theorem argumentList_gives {args : List Expr} :
    Gives (argumentList r tokens) args rest ↔ ∃ e mid, Gives (expr r tokens) e mid ∧
      ((∃ t after es, r.Takes (.sign .comma) mid t after ∧ Gives (argumentList r after) es rest ∧
        args = e :: es) ∨
      ((kinds mid).head? ≠ some (.sign .comma) ∧ rest = mid ∧ args = [e])) := by
  rw [argumentList]
  constructor
  · intro h
    obtain ⟨e, mid, _, he, h⟩ := Gives.bind_iff.mp h
    refine ⟨e, mid, he, ?_⟩
    rcases optional_bind_iff.mp h with ⟨t, after, _, ht, h⟩ | ⟨hno, h⟩
    · obtain ⟨es, _, _, hes, h⟩ := Gives.bind_iff.mp h
      obtain ⟨rfl, rfl⟩ := Gives.pure_iff.mp h
      exact .inl ⟨t, after, es, ht, hes, rfl⟩
    · obtain ⟨rfl, rfl⟩ := Gives.pure_iff.mp h
      exact .inr ⟨hno, rfl, rfl⟩
  · rintro ⟨e, mid, he, h⟩
    refine Gives.seq he fun _ => ?_
    rcases h with ⟨t, after, es, ht, hes, rfl⟩ | ⟨hno, rfl, rfl⟩
    · refine Gives.seq (optional_gives_true.mpr ⟨t, ht⟩) fun _ => ?_
      exact Gives.seq hes fun _ => Gives.pure_iff.mpr ⟨rfl, rfl⟩
    · exact Gives.seq (optional_gives_false.mpr ⟨rfl, hno⟩) fun _ => Gives.pure_iff.mpr ⟨rfl, rfl⟩

/-! ## Declarations -/

/-- What follows the name in a declaration: a length in brackets or nothing, and a semicolon,
which is still in the span of the declaration. -/
theorem varRest_gives {x : String} {ty : Ty} {start : Span} {d : VarDecl} :
    Gives (varRest r x ty start tokens) d rest ↔
      (∃ t₁ rest₁ n rest₂ t₃ rest₃ close, r.Takes (.sign .openBracket) tokens t₁ rest₁ ∧
        Gives (arrayLength r rest₁) n rest₂ ∧ r.Takes (.sign .closeBracket) rest₂ t₃ rest₃ ∧
        r.Takes (.sign .semicolon) rest₃ close rest ∧
        d = ⟨x, ty, some n, r.place (start.merge close.span)⟩) ∨
      ∃ close, r.Takes (.sign .semicolon) tokens close rest ∧
        d = ⟨x, ty, none, r.place (start.merge close.span)⟩ := by
  rw [varRest]
  constructor
  · intro h
    rcases optional_bind_iff.mp h with ⟨t₁, rest₁, _, ht₁, h⟩ | ⟨_, h⟩
    · obtain ⟨n, rest₂, _, hn, h⟩ := Gives.bind_iff.mp h
      obtain ⟨t₃, rest₃, _, ht₃, h⟩ := Gives.bind_iff.mp h
      obtain ⟨close, _, _, hc, h⟩ := Gives.bind_iff.mp h
      obtain ⟨rfl, rfl⟩ := Gives.pure_iff.mp h
      exact .inl ⟨t₁, rest₁, n, rest₂, t₃, rest₃, close, ht₁, hn, expect_gives.mp ht₃,
        expect_gives.mp hc, rfl⟩
    · obtain ⟨close, _, _, hc, h⟩ := Gives.bind_iff.mp h
      obtain ⟨rfl, rfl⟩ := Gives.pure_iff.mp h
      exact .inr ⟨close, expect_gives.mp hc, rfl⟩
  · rintro (⟨t₁, rest₁, n, rest₂, t₃, rest₃, close, ht₁, hn, ht₃, hc, rfl⟩ | ⟨close, hc, rfl⟩)
    · refine Gives.seq (optional_gives_true.mpr ⟨t₁, ht₁⟩) fun _ => ?_
      refine Gives.seq hn fun _ => ?_
      refine Gives.seq (expect_gives.mpr ht₃) fun _ => ?_
      exact Gives.seq (expect_gives.mpr hc) fun _ => Gives.pure_iff.mpr ⟨rfl, rfl⟩
    · refine Gives.seq (optional_gives_false.mpr ⟨rfl, hc.head?_ne (by decide)⟩) fun _ => ?_
      exact Gives.seq (expect_gives.mpr hc) fun _ => Gives.pure_iff.mpr ⟨rfl, rfl⟩

/-- A declaration starts with its type, and so does its span. -/
theorem varDecl_gives {d : VarDecl} :
    Gives (varDecl r tokens) d rest ↔
      ∃ k ty t rest₁ x u rest₂, r.Takes k tokens t rest₁ ∧ Grammar.TypeName k ty ∧
        r.Takes (.identifier x) rest₁ u rest₂ ∧ Gives (varRest r x ty t.span rest₂) d rest := by
  rw [varDecl]
  constructor
  · intro h
    obtain ⟨⟨ty, _⟩, rest₁, _, hty, h⟩ := Gives.bind_iff.mp h
    obtain ⟨⟨x, _⟩, rest₂, _, hx, h⟩ := Gives.bind_iff.mp h
    obtain ⟨d, _, _, hd, h⟩ := Gives.bind_iff.mp h
    obtain ⟨rfl, rfl⟩ := Gives.pure_iff.mp h
    obtain ⟨k, t, ht, hk, rfl⟩ := type_gives.mp hty
    obtain ⟨u, hu, rfl⟩ := identifier_gives.mp hx
    exact ⟨k, ty, t, rest₁, x, u, rest₂, ht, hk, hu, hd⟩
  · rintro ⟨k, ty, t, rest₁, x, u, rest₂, ht, hk, hu, hd⟩
    refine Gives.seq (type_gives.mpr ⟨k, t, ht, hk, rfl⟩) fun _ => ?_
    refine Gives.seq (identifier_gives.mpr ⟨u, hu, rfl⟩) fun _ => ?_
    exact Gives.seq hd fun _ => Gives.pure_iff.mpr ⟨rfl, rfl⟩

/-- Declarations are read as long as the next token names a type. -/
theorem varDecls_gives {ds : List VarDecl} :
    Gives (varDecls r tokens) ds rest ↔
      ((∃ d mid others, (r.current tokens).kind.type?.isSome ∧ Gives (varDecl r tokens) d mid ∧
        Gives (varDecls r mid) others rest ∧ ds = d :: others) ∨
      ((r.current tokens).kind.type? = none ∧ ds = [] ∧ rest = tokens)) := by
  rw [varDecls]
  split
  · next hk =>
    constructor
    · intro h
      obtain ⟨d, mid, _, hd, h⟩ := Gives.bind_iff.mp h
      obtain ⟨others, _, _, ho, h⟩ := Gives.bind_iff.mp h
      obtain ⟨rfl, rfl⟩ := Gives.pure_iff.mp h
      exact .inl ⟨d, mid, others, hk, hd, ho, rfl⟩
    · rintro (⟨d, mid, others, _, hd, ho, rfl⟩ | ⟨hk', _⟩)
      · refine Gives.seq hd fun _ => ?_
        exact Gives.seq ho fun _ => Gives.pure_iff.mpr ⟨rfl, rfl⟩
      · rw [hk'] at hk
        cases hk
  · next hk =>
    rw [Gives.pure_iff]
    constructor
    · rintro ⟨rfl, rfl⟩
      exact .inr ⟨Option.not_isSome_iff_eq_none.mp hk, rfl, rfl⟩
    · rintro (⟨_, _, _, hk', _⟩ | ⟨_, rfl, rfl⟩)
      · exact absurd hk' hk
      · exact ⟨rfl, rfl⟩

/-! ## Statements -/

/-- A condition is an expression with its parentheses around it. They are no part of it. -/
theorem condition_gives {e : Expr} :
    Gives (condition r tokens) e rest ↔
      ∃ t rest₁ rest₂ u, r.Takes (.sign .openParen) tokens t rest₁ ∧ Gives (expr r rest₁) e rest₂ ∧
        r.Takes (.sign .closeParen) rest₂ u rest := by
  rw [condition]
  constructor
  · intro h
    obtain ⟨t, rest₁, _, ht, h⟩ := Gives.bind_iff.mp h
    obtain ⟨e, rest₂, _, he, h⟩ := Gives.bind_iff.mp h
    obtain ⟨u, _, _, hu, h⟩ := Gives.bind_iff.mp h
    obtain ⟨rfl, rfl⟩ := Gives.pure_iff.mp h
    exact ⟨t, rest₁, rest₂, u, expect_gives.mp ht, he, expect_gives.mp hu⟩
  · rintro ⟨t, rest₁, rest₂, u, ht, he, hu⟩
    refine Gives.seq (expect_gives.mpr ht) fun _ => ?_
    refine Gives.seq he fun _ => ?_
    exact Gives.seq (expect_gives.mpr hu) fun _ => Gives.pure_iff.mpr ⟨rfl, rfl⟩

/-- A statement with a semicolon at its end spans the semicolon. -/
theorem finish_gives {start : Span} {make : Place → Stmt} {s : Stmt} :
    Gives (finish r start make tokens) s rest ↔
      ∃ close, r.Takes (.sign .semicolon) tokens close rest ∧
        s = make (r.place (start.merge close.span)) := by
  rw [finish]
  constructor
  · intro h
    obtain ⟨close, _, _, hc, h⟩ := Gives.bind_iff.mp h
    obtain ⟨rfl, rfl⟩ := Gives.pure_iff.mp h
    exact ⟨close, expect_gives.mp hc, rfl⟩
  · rintro ⟨close, hc, rfl⟩
    exact Gives.seq (expect_gives.mpr hc) fun _ => Gives.pure_iff.mpr ⟨rfl, rfl⟩

/-- Only a semicolon right away means that nothing is returned. -/
theorem returnValue_gives {value : Option Expr} :
    Gives (returnValue r tokens) value rest ↔
      ((r.current tokens).kind = .sign .semicolon ∧ value = none ∧ rest = tokens) ∨
      ∃ e, (r.current tokens).kind ≠ .sign .semicolon ∧ Gives (expr r tokens) e rest ∧
        value = some e := by
  rw [returnValue]
  split
  · next hk =>
    rw [Gives.pure_iff]
    constructor
    · rintro ⟨rfl, rfl⟩
      exact .inl ⟨hk, rfl, rfl⟩
    · rintro (⟨_, rfl, rfl⟩ | ⟨_, hk', _⟩)
      · exact ⟨rfl, rfl⟩
      · exact absurd hk hk'
  · next hk =>
    constructor
    · intro h
      obtain ⟨e, _, _, he, h⟩ := Gives.bind_iff.mp h
      obtain ⟨rfl, rfl⟩ := Gives.pure_iff.mp h
      exact .inr ⟨e, hk, he, rfl⟩
    · rintro (⟨hk', _⟩ | ⟨e, _, he, rfl⟩)
      · exact absurd hk' hk
      · exact Gives.seq he fun _ => Gives.pure_iff.mpr ⟨rfl, rfl⟩

/-- A statement that is a call. Whether the target is one is decided before it is read. -/
theorem simpleStmt_gives_call {start : Span} {s : Stmt} :
    Gives (simpleStmt r start true tokens) s rest ↔
      ∃ target mid, Gives (callOrLocation r tokens) target mid ∧
        Gives (finish r start (.call · target) mid) s rest := by
  rw [simpleStmt]
  constructor
  · intro h
    obtain ⟨target, mid, _, ht, h⟩ := Gives.bind_iff.mp h
    obtain ⟨s, _, _, hs, h⟩ := Gives.bind_iff.mp h
    obtain ⟨rfl, rfl⟩ := Gives.pure_iff.mp h
    exact ⟨target, mid, ht, hs⟩
  · rintro ⟨target, mid, ht, hs⟩
    refine Gives.seq ht fun _ => ?_
    exact Gives.seq hs fun _ => Gives.pure_iff.mpr ⟨rfl, rfl⟩

/-- An assignment. Nothing here keeps its target from being a call; it is the token behind the
name that does. -/
theorem simpleStmt_gives_assign {start : Span} {s : Stmt} :
    Gives (simpleStmt r start false tokens) s rest ↔
      ∃ target rest₁ t rest₂ value rest₃, Gives (callOrLocation r tokens) target rest₁ ∧
        r.Takes (.sign .equal) rest₁ t rest₂ ∧ Gives (expr r rest₂) value rest₃ ∧
        Gives (finish r start (.assign · target value) rest₃) s rest := by
  rw [simpleStmt]
  constructor
  · intro h
    obtain ⟨target, rest₁, _, ht, h⟩ := Gives.bind_iff.mp h
    obtain ⟨t, rest₂, _, he, h⟩ := Gives.bind_iff.mp h
    obtain ⟨value, rest₃, _, hv, h⟩ := Gives.bind_iff.mp h
    obtain ⟨s, _, _, hs, h⟩ := Gives.bind_iff.mp h
    obtain ⟨rfl, rfl⟩ := Gives.pure_iff.mp h
    exact ⟨target, rest₁, t, rest₂, value, rest₃, ht, expect_gives.mp he, hv, hs⟩
  · rintro ⟨target, rest₁, t, rest₂, value, rest₃, ht, he, hv, hs⟩
    refine Gives.seq ht fun _ => ?_
    refine Gives.seq (expect_gives.mpr he) fun _ => ?_
    refine Gives.seq hv fun _ => ?_
    exact Gives.seq hs fun _ => Gives.pure_iff.mpr ⟨rfl, rfl⟩

/-- A block is declarations and then statements, between braces that it spans. -/
theorem block_gives {b : Block} :
    Gives (block r tokens) b rest ↔
      ∃ first rest₁ locals rest₂ statements rest₃ last,
        r.Takes (.sign .openBrace) tokens first rest₁ ∧ Gives (varDecls r rest₁) locals rest₂ ∧
        Gives (stmts r rest₂) statements rest₃ ∧ r.Takes (.sign .closeBrace) rest₃ last rest ∧
        b = ⟨locals, statements, r.place (first.span.merge last.span), none⟩ := by
  rw [block]
  constructor
  · intro h
    obtain ⟨first, rest₁, _, hf, h⟩ := Gives.bind_iff.mp h
    obtain ⟨locals, rest₂, _, hl, h⟩ := Gives.bind_iff.mp h
    obtain ⟨statements, rest₃, _, hs, h⟩ := Gives.bind_iff.mp h
    obtain ⟨last, _, _, hc, h⟩ := Gives.bind_iff.mp h
    obtain ⟨rfl, rfl⟩ := Gives.pure_iff.mp h
    exact ⟨first, rest₁, locals, rest₂, statements, rest₃, last, expect_gives.mp hf, hl, hs,
      expect_gives.mp hc, rfl⟩
  · rintro ⟨first, rest₁, locals, rest₂, statements, rest₃, last, hf, hl, hs, hc, rfl⟩
    refine Gives.seq (expect_gives.mpr hf) fun _ => ?_
    refine Gives.seq hl fun _ => ?_
    refine Gives.seq hs fun _ => ?_
    exact Gives.seq (expect_gives.mpr hc) fun _ => Gives.pure_iff.mpr ⟨rfl, rfl⟩

/-- Statements are read up to a closing brace. The end of the file ends them too, so that the
complaint is about the missing brace. -/
theorem stmts_gives {ss : List Stmt} :
    Gives (stmts r tokens) ss rest ↔
      (((r.current tokens).kind = .sign .closeBrace ∨ (r.current tokens).kind = .endOfFile) ∧
        ss = [] ∧ rest = tokens) ∨
      ∃ s mid others, ¬ ((r.current tokens).kind = .sign .closeBrace ∨
          (r.current tokens).kind = .endOfFile) ∧
        Gives (stmt r tokens) s mid ∧ Gives (stmts r mid) others rest ∧ ss = s :: others := by
  rw [stmts]
  dsimp only
  split
  · next hk =>
    rw [Gives.pure_iff]
    constructor
    · rintro ⟨rfl, rfl⟩
      exact .inl ⟨hk, rfl, rfl⟩
    · rintro (⟨_, rfl, rfl⟩ | ⟨_, _, _, hk', _⟩)
      · exact ⟨rfl, rfl⟩
      · exact absurd hk hk'
  · next hk =>
    constructor
    · intro h
      obtain ⟨s, mid, _, hs, h⟩ := Gives.bind_iff.mp h
      obtain ⟨others, _, _, ho, h⟩ := Gives.bind_iff.mp h
      obtain ⟨rfl, rfl⟩ := Gives.pure_iff.mp h
      exact .inr ⟨s, mid, others, hk, hs, ho, rfl⟩
    · rintro (⟨hk', _⟩ | ⟨s, mid, others, _, hs, ho, rfl⟩)
      · exact absurd hk' hk
      · refine Gives.seq hs fun _ => ?_
        exact Gives.seq ho fun _ => Gives.pure_iff.mpr ⟨rfl, rfl⟩

section

variable {t : Token} {mid : List Token} {s : Stmt}

/-- A conditional ends with its last block, whether or not there is an `else`. -/
theorem stmt_gives_if (hk : t.kind = .word .ifWord) :
    Gives (stmt r (t :: mid)) s rest ↔ r.reach mid = .ok () ∧
      ∃ test rest₁ b rest₂, Gives (condition r mid) test rest₁ ∧ Gives (block r rest₁) b rest₂ ∧
        ((∃ u rest₃ c, r.Takes (.word .elseWord) rest₂ u rest₃ ∧ Gives (block r rest₃) c rest ∧
          s = .conditional (r.place (t.span.merge c.place.span)) test b (some c)) ∨
        ((kinds rest₂).head? ≠ some (.word .elseWord) ∧ rest = rest₂ ∧
          s = .conditional (r.place (t.span.merge b.place.span)) test b none)) := by
  rw [stmt]
  simp only [hk]
  rw [Gives.reach_iff]
  refine and_congr_right fun _ => ?_
  constructor
  · intro h
    obtain ⟨test, rest₁, _, ht, h⟩ := Gives.bind_iff.mp h
    obtain ⟨b, rest₂, _, hb, h⟩ := Gives.bind_iff.mp h
    refine ⟨test, rest₁, b, rest₂, ht, hb, ?_⟩
    rcases optional_bind_iff.mp h with ⟨u, rest₃, _, hu, h⟩ | ⟨hno, h⟩
    · obtain ⟨c, _, _, hc, h⟩ := Gives.bind_iff.mp h
      obtain ⟨rfl, rfl⟩ := Gives.pure_iff.mp h
      exact .inl ⟨u, rest₃, c, hu, hc, rfl⟩
    · obtain ⟨rfl, rfl⟩ := Gives.pure_iff.mp h
      exact .inr ⟨hno, rfl, rfl⟩
  · rintro ⟨test, rest₁, b, rest₂, ht, hb, h⟩
    refine Gives.seq ht fun _ => ?_
    refine Gives.seq hb fun _ => ?_
    rcases h with ⟨u, rest₃, c, hu, hc, rfl⟩ | ⟨hno, rfl, rfl⟩
    · refine Gives.seq (optional_gives_true.mpr ⟨u, hu⟩) fun _ => ?_
      exact Gives.seq hc fun _ => Gives.pure_iff.mpr ⟨rfl, rfl⟩
    · exact Gives.seq (optional_gives_false.mpr ⟨rfl, hno⟩) fun _ => Gives.pure_iff.mpr ⟨rfl, rfl⟩

/-- A loop ends with its block. -/
theorem stmt_gives_while (hk : t.kind = .word .whileWord) :
    Gives (stmt r (t :: mid)) s rest ↔ r.reach mid = .ok () ∧
      ∃ test rest₁ b, Gives (condition r mid) test rest₁ ∧ Gives (block r rest₁) b rest ∧
        s = .loop (r.place (t.span.merge b.place.span)) test b := by
  rw [stmt]
  simp only [hk]
  rw [Gives.reach_iff]
  refine and_congr_right fun _ => ?_
  constructor
  · intro h
    obtain ⟨test, rest₁, _, ht, h⟩ := Gives.bind_iff.mp h
    obtain ⟨b, _, _, hb, h⟩ := Gives.bind_iff.mp h
    obtain ⟨rfl, rfl⟩ := Gives.pure_iff.mp h
    exact ⟨test, rest₁, b, ht, hb, rfl⟩
  · rintro ⟨test, rest₁, b, ht, hb, rfl⟩
    refine Gives.seq ht fun _ => ?_
    exact Gives.seq hb fun _ => Gives.pure_iff.mpr ⟨rfl, rfl⟩

/-- A block may stand as a statement; it is then read from its own first token. -/
theorem stmt_gives_brace (hk : t.kind = .sign .openBrace) :
    Gives (stmt r (t :: mid)) s rest ↔
      ∃ b, Gives (block r (t :: mid)) b rest ∧ s = .block (r.place b.place.span) b := by
  rw [stmt]
  simp only [hk]
  constructor
  · intro h
    obtain ⟨b, _, _, hb, h⟩ := Gives.bind_iff.mp h
    obtain ⟨rfl, rfl⟩ := Gives.pure_iff.mp h
    exact ⟨b, hb, rfl⟩
  · rintro ⟨b, hb, rfl⟩
    exact Gives.seq hb fun _ => Gives.pure_iff.mpr ⟨rfl, rfl⟩

theorem stmt_gives_return (hk : t.kind = .word .returnWord) :
    Gives (stmt r (t :: mid)) s rest ↔ r.reach mid = .ok () ∧
      ∃ value rest₁, Gives (returnValue r mid) value rest₁ ∧
        Gives (finish r t.span (.ret · value) rest₁) s rest := by
  rw [stmt]
  simp only [hk]
  rw [Gives.reach_iff]
  refine and_congr_right fun _ => ?_
  constructor
  · intro h
    obtain ⟨value, rest₁, _, hv, h⟩ := Gives.bind_iff.mp h
    obtain ⟨s, _, _, hs, h⟩ := Gives.bind_iff.mp h
    obtain ⟨rfl, rfl⟩ := Gives.pure_iff.mp h
    exact ⟨value, rest₁, hv, hs⟩
  · rintro ⟨value, rest₁, hv, hs⟩
    refine Gives.seq hv fun _ => ?_
    exact Gives.seq hs fun _ => Gives.pure_iff.mpr ⟨rfl, rfl⟩

theorem stmt_gives_break (hk : t.kind = .word .breakWord) :
    Gives (stmt r (t :: mid)) s rest ↔ r.reach mid = .ok () ∧
      Gives (finish r t.span .break mid) s rest := by
  rw [stmt]
  simp only [hk]
  rw [Gives.reach_iff, Gives.relay_iff (by intro _ _ _; exact ⟨_, rfl⟩)]

theorem stmt_gives_continue (hk : t.kind = .word .continueWord) :
    Gives (stmt r (t :: mid)) s rest ↔ r.reach mid = .ok () ∧
      Gives (finish r t.span .continue mid) s rest := by
  rw [stmt]
  simp only [hk]
  rw [Gives.reach_iff, Gives.relay_iff (by intro _ _ _; exact ⟨_, rfl⟩)]

/-- A statement that begins with a name looks one token further to tell calls and assignments
apart. -/
theorem stmt_gives_name {x : String} (hk : t.kind = .identifier x) :
    Gives (stmt r (t :: mid)) s rest ↔ r.reach mid = .ok () ∧
      Gives (simpleStmt r t.span ((r.current mid).kind = .sign .openParen) (t :: mid)) s rest := by
  rw [stmt]
  simp only [hk]
  rw [Gives.reach_iff]

/-- A statement begins in one of seven ways. -/
theorem stmt_gives_kind (h : Gives (stmt r (t :: mid)) s rest) :
    t.kind = .word .ifWord ∨ t.kind = .word .whileWord ∨ t.kind = .sign .openBrace ∨
      t.kind = .word .returnWord ∨ t.kind = .word .breakWord ∨ t.kind = .word .continueWord ∨
      ∃ x, t.kind = .identifier x := by
  rw [stmt] at h
  split at h <;> simp_all [Gives.throw_iff]

end

/-- At the end of the text there is no statement. -/
theorem stmt_gives_nil {s : Stmt} : Gives (stmt r []) s rest ↔ False := by
  rw [stmt, Gives.error_iff]

/-! ## Programs -/

/-- A comma calls for one more parameter, so a list of parameters never ends with one. -/
theorem paramList_gives {ps : List Param} :
    Gives (paramList r tokens) ps rest ↔
      ∃ k ty t rest₁ x u rest₂, r.Takes k tokens t rest₁ ∧ Grammar.TypeName k ty ∧
        r.Takes (.identifier x) rest₁ u rest₂ ∧
        ((∃ c rest₃ others, r.Takes (.sign .comma) rest₂ c rest₃ ∧
          Gives (paramList r rest₃) others rest ∧
          ps = ⟨x, ty, r.place (t.span.merge u.span)⟩ :: others) ∨
        ((kinds rest₂).head? ≠ some (.sign .comma) ∧ rest = rest₂ ∧
          ps = [⟨x, ty, r.place (t.span.merge u.span)⟩])) := by
  rw [paramList]
  constructor
  · intro h
    obtain ⟨⟨ty, _⟩, rest₁, _, hty, h⟩ := Gives.bind_iff.mp h
    obtain ⟨⟨x, _⟩, rest₂, _, hx, h⟩ := Gives.bind_iff.mp h
    obtain ⟨k, t, ht, hk, rfl⟩ := type_gives.mp hty
    obtain ⟨u, hu, rfl⟩ := identifier_gives.mp hx
    refine ⟨k, ty, t, rest₁, x, u, rest₂, ht, hk, hu, ?_⟩
    rcases optional_bind_iff.mp h with ⟨c, rest₃, _, hc, h⟩ | ⟨hno, h⟩
    · obtain ⟨others, _, _, ho, h⟩ := Gives.bind_iff.mp h
      obtain ⟨rfl, rfl⟩ := Gives.pure_iff.mp h
      exact .inl ⟨c, rest₃, others, hc, ho, rfl⟩
    · obtain ⟨rfl, rfl⟩ := Gives.pure_iff.mp h
      exact .inr ⟨hno, rfl, rfl⟩
  · rintro ⟨k, ty, t, rest₁, x, u, rest₂, ht, hk, hu, h⟩
    refine Gives.seq (type_gives.mpr ⟨k, t, ht, hk, rfl⟩) fun _ => ?_
    refine Gives.seq (identifier_gives.mpr ⟨u, hu, rfl⟩) fun _ => ?_
    rcases h with ⟨c, rest₃, others, hc, ho, rfl⟩ | ⟨hno, rfl, rfl⟩
    · refine Gives.seq (optional_gives_true.mpr ⟨c, hc⟩) fun _ => ?_
      exact Gives.seq ho fun _ => Gives.pure_iff.mpr ⟨rfl, rfl⟩
    · exact Gives.seq (optional_gives_false.mpr ⟨rfl, hno⟩) fun _ => Gives.pure_iff.mpr ⟨rfl, rfl⟩

/-- Only a closing parenthesis right away means that there are no parameters. -/
theorem params_gives {ps : List Param} :
    Gives (params r tokens) ps rest ↔
      ((r.current tokens).kind = .sign .closeParen ∧ ps = [] ∧ rest = tokens) ∨
      ((r.current tokens).kind ≠ .sign .closeParen ∧ Gives (paramList r tokens) ps rest) := by
  rw [params]
  split
  · next hk =>
    rw [Gives.pure_iff]
    constructor
    · rintro ⟨rfl, rfl⟩
      exact .inl ⟨hk, rfl, rfl⟩
    · rintro (⟨_, rfl, rfl⟩ | ⟨hk', _⟩)
      · exact ⟨rfl, rfl⟩
      · exact absurd hk hk'
  · next hk =>
    rw [Gives.relay_iff (by intro _ _ _; exact ⟨_, rfl⟩)]
    constructor
    · intro hp
      exact .inr ⟨hk, hp⟩
    · rintro (⟨hk', _⟩ | ⟨_, hp⟩)
      · exact absurd hk' hk
      · exact hp

/-- What follows the name of a function. Its line is that of its first token, which need not be
the line of the merged span. -/
theorem functionRest_gives {x : String} {ty : Ty} {start : Span} {f : Function} :
    Gives (functionRest r x ty start tokens) f rest ↔
      ∃ t rest₁ ps rest₂ u rest₃ body, r.Takes (.sign .openParen) tokens t rest₁ ∧
        Gives (params r rest₁) ps rest₂ ∧ r.Takes (.sign .closeParen) rest₂ u rest₃ ∧
        Gives (block r rest₃) body rest ∧
        f = ⟨x, ty, ps, body, ⟨start.merge body.place.span, r.lines.lineOf start.start⟩, none⟩ := by
  rw [functionRest]
  constructor
  · intro h
    obtain ⟨t, rest₁, _, ht, h⟩ := Gives.bind_iff.mp h
    obtain ⟨ps, rest₂, _, hps, h⟩ := Gives.bind_iff.mp h
    obtain ⟨u, rest₃, _, hu, h⟩ := Gives.bind_iff.mp h
    obtain ⟨body, _, _, hb, h⟩ := Gives.bind_iff.mp h
    obtain ⟨rfl, rfl⟩ := Gives.pure_iff.mp h
    exact ⟨t, rest₁, ps, rest₂, u, rest₃, body, expect_gives.mp ht, hps, expect_gives.mp hu, hb,
      rfl⟩
  · rintro ⟨t, rest₁, ps, rest₂, u, rest₃, body, ht, hps, hu, hb, rfl⟩
    refine Gives.seq (expect_gives.mpr ht) fun _ => ?_
    refine Gives.seq hps fun _ => ?_
    refine Gives.seq (expect_gives.mpr hu) fun _ => ?_
    exact Gives.seq hb fun _ => Gives.pure_iff.mpr ⟨rfl, rfl⟩

/-- What begins with a type and a name is a function if a parenthesis follows, and a variable if
not. The optional word before it only moves the start of the span. -/
theorem topLevel_gives {item : TopLevel} :
    Gives (topLevel r tokens) item rest ↔
      ∃ rest₁ k ty t rest₂ x u rest₃,
        ((∃ d, r.Takes (.word .defWord) tokens d rest₁) ∨
          ((kinds tokens).head? ≠ some (.word .defWord) ∧ rest₁ = tokens)) ∧
        r.Takes k rest₁ t rest₂ ∧ Grammar.TypeName k ty ∧ r.Takes (.identifier x) rest₂ u rest₃ ∧
        ((∃ f, (r.current rest₃).kind = .sign .openParen ∧
          Gives (functionRest r x ty (r.current tokens).span rest₃) f rest ∧ item = .function f) ∨
        ∃ d, (r.current rest₃).kind ≠ .sign .openParen ∧
          Gives (varRest r x ty (r.current tokens).span rest₃) d rest ∧ item = .global d) := by
  rw [topLevel]
  constructor
  · intro h
    obtain ⟨found, rest₁, _, hd, h⟩ := Gives.bind_iff.mp h
    obtain ⟨⟨ty, _⟩, rest₂, _, hty, h⟩ := Gives.bind_iff.mp h
    obtain ⟨⟨x, _⟩, rest₃, _, hx, h⟩ := Gives.bind_iff.mp h
    obtain ⟨k, t, ht, hk, rfl⟩ := type_gives.mp hty
    obtain ⟨u, hu, rfl⟩ := identifier_gives.mp hx
    refine ⟨rest₁, k, ty, t, rest₂, x, u, rest₃, ?_, ht, hk, hu, ?_⟩
    · cases found with
      | true => exact .inl (optional_gives_true.mp hd)
      | false =>
        obtain ⟨rfl, hno⟩ := optional_gives_false.mp hd
        exact .inr ⟨hno, rfl⟩
    · dsimp only at h
      split at h
      · next hp =>
        obtain ⟨f, _, _, hf, h⟩ := Gives.bind_iff.mp h
        obtain ⟨rfl, rfl⟩ := Gives.pure_iff.mp h
        exact .inl ⟨f, hp, hf, rfl⟩
      · next hp =>
        obtain ⟨d, _, _, hd, h⟩ := Gives.bind_iff.mp h
        obtain ⟨rfl, rfl⟩ := Gives.pure_iff.mp h
        exact .inr ⟨d, hp, hd, rfl⟩
  · rintro ⟨rest₁, k, ty, t, rest₂, x, u, rest₃, hd, ht, hk, hu, h⟩
    have hopt : ∃ found, Gives (optional r (.word .defWord) tokens) found rest₁ := by
      rcases hd with hd | ⟨hno, rfl⟩
      · exact ⟨true, optional_gives_true.mpr hd⟩
      · exact ⟨false, optional_gives_false.mpr ⟨rfl, hno⟩⟩
    obtain ⟨found, hopt⟩ := hopt
    refine Gives.seq hopt fun _ => ?_
    refine Gives.seq (type_gives.mpr ⟨k, t, ht, hk, rfl⟩) fun _ => ?_
    refine Gives.seq (identifier_gives.mpr ⟨u, hu, rfl⟩) fun _ => ?_
    dsimp only
    rcases h with ⟨f, hp, hf, rfl⟩ | ⟨d, hp, hd, rfl⟩
    · rw [if_pos hp]
      exact Gives.seq hf fun _ => Gives.pure_iff.mpr ⟨rfl, rfl⟩
    · rw [if_neg hp]
      exact Gives.seq hd fun _ => Gives.pure_iff.mpr ⟨rfl, rfl⟩

/-- Reading a program goes on until the end of the file, so nothing is left over. -/
theorem topLevels_eq_ok_iff {items : List TopLevel} :
    topLevels r tokens = .ok items ↔
      ((r.current tokens).kind = .endOfFile ∧ items = []) ∨
      ∃ item mid others, (r.current tokens).kind ≠ .endOfFile ∧ Gives (topLevel r tokens) item mid ∧
        topLevels r mid = .ok others ∧ items = item :: others := by
  rw [topLevels]
  split
  · next hk =>
    constructor
    · intro h
      cases h
      exact .inl ⟨hk, rfl⟩
    · rintro (⟨_, rfl⟩ | ⟨_, _, _, hk', _⟩)
      · rfl
      · exact absurd hk hk'
  · next hk =>
    rw [bind_eq_ok_iff]
    constructor
    · rintro ⟨⟨item, mid, hlt⟩, ht, h⟩
      obtain ⟨others, ho, h⟩ := bind_eq_ok_iff.mp h
      cases h
      exact .inr ⟨item, mid, others, hk, ⟨hlt, ht⟩, ho, rfl⟩
    · rintro (⟨hk', _⟩ | ⟨item, mid, others, _, ⟨hlt, ht⟩, ho, rfl⟩)
      · exact absurd hk' hk
      · exact ⟨⟨item, mid, hlt⟩, ht, bind_eq_ok_iff.mpr ⟨others, ho, rfl⟩⟩

/-- Variables and functions are sorted apart, each in the order of the text. -/
theorem program_eq_ok_iff {size : Nat} {p : Program} :
    program r size tokens = .ok p ↔
      r.reach tokens = .ok () ∧ ∃ items, topLevels r tokens = .ok items ∧
        p = ⟨items.filterMap TopLevel.global?, items.filterMap TopLevel.function?,
          ⟨⟨0, size⟩, 1⟩, none⟩ := by
  rw [program, bind_eq_ok_iff]
  constructor
  · rintro ⟨_, hr, h⟩
    obtain ⟨items, hi, h⟩ := bind_eq_ok_iff.mp h
    cases h
    exact ⟨hr, items, hi, rfl⟩
  · rintro ⟨hr, items, hi, rfl⟩
    exact ⟨(), hr, bind_eq_ok_iff.mpr ⟨items, hi, rfl⟩⟩

end Parser

end Decaf
