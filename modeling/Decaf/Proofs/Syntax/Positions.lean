import Decaf.Proofs.Syntax.Induction
import Decaf.Proofs.Syntax.Nodes

/-!
# What is read stands where it was read

One lemma for each reader: from tokens that follow one another behind an offset it reads a
row of nodes between this offset and the end of the last token it takes (`Reads`). The
readers of variables, functions, blocks and statements read one node that begins with the
first token and ends with the last (`ReadsPhrase`); an expression may be smaller than its
tokens, since parentheses are no part of it. The inductions are those along the readers
(`placedExprs_handedOn`, `placedStmts_handedOn`).
-/

namespace Decaf

variable {source : String}

/-! ## Taking tokens -/

/-- Merging what comes first with what comes last. -/
theorem Span.merge_eq {a b : Span} (hstart : a.start ≤ b.start) (hstop : a.stop ≤ b.stop) :
    a.merge b = ⟨a.start, b.stop⟩ := by
  rw [merge, Nat.min_eq_left hstart, Nat.max_eq_right hstop]

/-- To take tokens off the front leads from an offset to the end of the last one taken, or
nowhere if none is taken. -/
def Leads (lo : Nat) (tokens : List Token) (hi : Nat) (rest : List Token) : Prop :=
  ∃ used, tokens = used ++ rest ∧ hi = (used.getLast?.map (·.span.stop)).getD lo

/-- The last tokens of a text, from an offset on. -/
structure At (source : String) (lo : Nat) (tokens : List Token) : Prop where
  row : TokenRow source lo tokens
  suffix : tokens <:+ (Stream.ofSource source).tokens

/-- A span that begins with the first token that is taken and ends with the last. -/
def Covered (span : Span) (tokens rest : List Token) : Prop :=
  ∃ used, tokens = used ++ rest ∧ span.Covers used

section Leads

variable {lo mid hi : Nat} {tokens rest after : List Token}

theorem Leads.refl (lo : Nat) (tokens : List Token) : Leads lo tokens lo tokens :=
  ⟨[], rfl, rfl⟩

/-- Taking some tokens and then some more. -/
theorem Leads.trans (h : Leads lo tokens mid rest) (h' : Leads mid rest hi after) :
    Leads lo tokens hi after := by
  obtain ⟨used, rfl, rfl⟩ := h
  obtain ⟨more, rfl, rfl⟩ := h'
  refine ⟨used ++ more, (List.append_assoc _ _ _).symm, ?_⟩
  rw [List.getLast?_append]
  cases more.getLast? <;> rfl

/-- What is left stands behind the offset that taking led to, and that never goes back. -/
theorem At.leads (h : At source lo tokens) (hleads : Leads lo tokens hi rest) :
    At source hi rest ∧ lo ≤ hi := by
  obtain ⟨used, rfl, hhi⟩ := hleads
  induction used generalizing lo with
  | nil =>
    subst hhi
    exact ⟨h, Nat.le_refl _⟩
  | cons t used ih =>
    obtain ⟨⟨hlo, hproper, hrow⟩, hsuffix⟩ := h
    have hstop : hi = (used.getLast?.map (·.span.stop)).getD t.span.stop := by
      rw [hhi, List.getLast?_cons]
      cases used.getLast? <;> rfl
    obtain ⟨hat, hle⟩ := ih hstop ⟨hrow, (List.suffix_cons _ _).trans hsuffix⟩
    have := hproper.lt
    exact ⟨hat, by omega⟩

/-- What taking a token comes to. -/
structure Taken (source : String) (lo : Nat) (tokens : List Token) (t : Token)
    (rest : List Token) : Prop where
  lo_le : lo ≤ t.span.start
  proper : t.span.Proper source
  leads : Leads lo tokens t.span.stop rest
  after : At source t.span.stop rest
  head : tokens.head? = some t

theorem Taken.le_stop {t : Token} (h : Taken source lo tokens t rest) : lo ≤ t.span.stop :=
  Nat.le_trans h.lo_le (Nat.le_of_lt h.proper.lt)

theorem At.takeHead {t : Token} (h : At source lo (t :: rest)) :
    Taken source lo (t :: rest) t rest := by
  have hleads : Leads lo (t :: rest) t.span.stop rest := ⟨[t], rfl, rfl⟩
  exact ⟨h.row.1, h.row.2.1, hleads, (h.leads hleads).1, rfl⟩

/-- To take a token is to take the first one, whatever kind was asked for. -/
theorem At.take (h : At source lo tokens) {r : Reading} {k : Token.Kind} {t : Token}
    (ht : r.Takes k tokens t rest) : Taken source lo tokens t rest := by
  obtain ⟨rfl, -, -⟩ := ht
  exact h.takeHead

/-- Behind the first token, if at least one is taken. -/
theorem At.stop_le (h : At source lo tokens) {t : Token} (hhead : tokens.head? = some t)
    (hleads : Leads lo tokens hi rest) (hlt : rest.length < tokens.length) : t.span.stop ≤ hi := by
  obtain ⟨used, rfl, hhi⟩ := hleads
  cases used with
  | nil => exact absurd hlt (Nat.lt_irrefl _)
  | cons u used =>
    cases hhead
    obtain ⟨⟨-, -, hrow⟩, hsuffix⟩ := h
    have hrest : At source t.span.stop (used ++ rest) :=
      ⟨hrow, (List.suffix_cons _ _).trans hsuffix⟩
    refine (hrest.leads ⟨used, rfl, ?_⟩).2
    rw [hhi, List.getLast?_cons]
    cases used.getLast? <;> rfl

end Leads

/-! ## Phrases -/

section Covered

variable {lo mid : Nat} {tokens rest after : List Token} {t : Token} {span : Span}

/-- Taking a stretch of tokens leads to where the span that covers it ends. -/
theorem Covered.leads (h : Covered span tokens rest) (lo : Nat) :
    Leads lo tokens span.stop rest := by
  obtain ⟨used, rfl, hcovers⟩ := h
  exact ⟨used, rfl, by rw [hcovers.last]; rfl⟩

/-- From the first token to one that is taken last. -/
theorem covered_of_last {r : Reading} {k : Token.Kind} {close : Token}
    (hhead : tokens.head? = some t) (hleads : Leads lo tokens mid after)
    (hclose : r.Takes k after close rest) :
    Covered ⟨t.span.start, close.span.stop⟩ tokens rest := by
  obtain ⟨used, rfl, -⟩ := hleads
  obtain ⟨rfl, -, -⟩ := hclose
  refine ⟨used ++ [close], by simp, ?_, ?_⟩
  · cases used with
    | nil =>
      cases hhead
      rfl
    | cons u used =>
      cases hhead
      rfl
  · rw [List.getLast?_concat]
    rfl

/-- From the first token to the end of a phrase that is read last. -/
theorem covered_of_phrase (hhead : tokens.head? = some t) (hleads : Leads lo tokens mid after)
    (h : Covered span after rest) : Covered ⟨t.span.start, span.stop⟩ tokens rest := by
  obtain ⟨used, rfl, -⟩ := hleads
  obtain ⟨inner, rfl, hcovers⟩ := h
  refine ⟨used ++ inner, (List.append_assoc _ _ _).symm, ?_, ?_⟩
  · cases used with
    | nil =>
      cases inner with
      | nil => cases hcovers.first
      | cons u inner =>
        cases hhead
        rfl
    | cons u used =>
      cases hhead
      rfl
  · have hlast := hcovers.last
    rw [List.getLast?_append]
    cases hinner : inner.getLast? with
    | none =>
      rw [hinner] at hlast
      cases hlast
    | some u =>
      rw [hinner] at hlast
      exact hlast

/-- What a stretch of tokens covers is a stretch of characters. -/
theorem At.proper_of_covered (h : At source lo tokens) (hcovered : Covered span tokens rest) :
    lo ≤ span.start ∧ span.Proper source := by
  obtain ⟨used, rfl, hcovers⟩ := hcovered
  induction used generalizing lo span with
  | nil => cases hcovers.first
  | cons t used ih =>
    obtain ⟨⟨hlo, hproper, hrow⟩, hsuffix⟩ := h
    have hstart : t.span.start = span.start := Option.some.inj hcovers.first
    cases hlast : used.getLast? with
    | none =>
      cases List.getLast?_eq_none_iff.mp hlast
      have hstop : t.span.stop = span.stop := Option.some.inj hcovers.last
      exact ⟨hstart ▸ hlo, hstart ▸ hstop ▸ hproper.lt, hstart ▸ hproper.start,
        hstop ▸ hproper.stop⟩
    | some u =>
      cases used with
      | nil => cases hlast
      | cons v used =>
        -- without its first token the stretch ends where it did
        have hinner : Span.Covers ⟨v.span.start, span.stop⟩ (v :: used) :=
          ⟨rfl, by rw [← hcovers.last, List.getLast?_cons_cons]⟩
        obtain ⟨hle, hrest⟩ := ih hinner ⟨hrow, (List.suffix_cons _ _).trans hsuffix⟩
        have hlt := hrest.lt
        have := hproper.lt
        exact ⟨hstart ▸ hlo, by dsimp only at hle hlt; omega, hstart ▸ hproper.start, hrest.stop⟩

end Covered

/-- Reading from an offset gives a row of nodes, up to the end of the last token taken. -/
def Reads (source : String) (lo : Nat) (tokens : List Token) (ns : List Node)
    (rest : List Token) : Prop :=
  ∃ hi, Leads lo tokens hi rest ∧ NodeRow source lo hi ns

/-- Reading from an offset gives a node that spans the tokens it was read from. -/
structure ReadsPhrase (source : String) (lo : Nat) (tokens : List Token) (n : Node)
    (rest : List Token) : Prop where
  covered : Covered n.span tokens rest
  lo_le : lo ≤ n.span.start
  row : NodeRow source n.span.start n.span.stop [n]

/-- A phrase is a row of one node. -/
theorem ReadsPhrase.reads {lo : Nat} {tokens rest : List Token} {n : Node}
    (h : ReadsPhrase source lo tokens n rest) : Reads source lo tokens [n] rest :=
  ⟨n.span.stop, h.covered.leads lo, h.row.mono h.lo_le (Nat.le_refl _)⟩

/-- A phrase at the end of a row. -/
theorem ReadsPhrase.append_row {lo mid : Nat} {tokens rest : List Token} {ns : List Node} {n : Node}
    (h : ReadsPhrase source mid tokens n rest) (hrow : NodeRow source lo mid ns) :
    NodeRow source lo n.span.stop (ns ++ [n]) :=
  hrow.append (h.row.mono h.lo_le (Nat.le_refl _))

/-- A phrase is read if its tokens are covered and its children are a row inside it. -/
theorem At.phrase {lo a b : Nat} {tokens rest : List Token} {n : Node}
    (h : At source lo tokens) (hread : n.ReadFrom (.ofSource source) tokens rest)
    (hcovered : Covered n.span tokens rest) (hchildren : NodeRow source a b n.children)
    (hlists : n.childLists = [n.children]) (ha : n.span.start ≤ a) (hb : b ≤ n.span.stop)
    (hline : n.place.line = (Lines.ofChars source.toList).lineOf n.span.start) :
    ReadsPhrase source lo tokens n rest := by
  obtain ⟨hlo, hproper⟩ := h.proper_of_covered hcovered
  refine ⟨hcovered, hlo, hchildren.node hlists hproper ha hb hline fun _ => ?_⟩
  obtain ⟨used, rfl, hcovers⟩ := hcovered
  obtain ⟨before, hbefore⟩ := h.suffix
  exact ⟨before, used, rest, by rw [← hbefore, List.append_assoc], hread, hcovers⟩

/-- Two stretches, one before the other, together. -/
theorem Span.Proper.merge {a b : Span} (ha : a.Proper source) (hb : b.Proper source)
    (h : a.stop ≤ b.start) :
    (a.merge b).Proper source ∧ (a.merge b).start = a.start ∧ (a.merge b).stop = b.stop := by
  have hlt := ha.lt
  have hlt' := hb.lt
  rw [Span.merge_eq (by omega) (by omega)]
  exact ⟨⟨by show a.start < b.stop; omega, ha.start, hb.stop⟩, rfl, rfl⟩

section Closing

variable {lo mid : Nat} {tokens after rest : List Token} {t : Token}

theorem At.head_proper (h : At source lo tokens) (hhead : tokens.head? = some t) :
    t.span.Proper source := by
  cases tokens with
  | nil => cases hhead
  | cons u tokens =>
    cases hhead
    exact h.row.2.1

/-- The offset may be moved up to the first token. -/
theorem At.from_head (h : At source lo tokens) (hhead : tokens.head? = some t) :
    lo ≤ t.span.start ∧ At source t.span.start tokens := by
  cases tokens with
  | nil => cases hhead
  | cons u tokens =>
    cases hhead
    exact ⟨h.row.1, ⟨Nat.le_refl _, h.row.2⟩, h.suffix⟩

/-- A span that begins with the first token and ends with one that is taken later on. -/
theorem At.covered_last (h : At source lo tokens) (hhead : tokens.head? = some t)
    (hleads : Leads lo tokens mid after) (ht : t.span.stop ≤ mid) {r : Reading}
    {k : Token.Kind} {close : Token} (hclose : r.Takes k after close rest) :
    Covered (t.span.merge close.span) tokens rest ∧
      (t.span.merge close.span).start = t.span.start ∧ mid ≤ (t.span.merge close.span).stop := by
  have htake := (h.leads hleads).1.take hclose
  have hlo := htake.lo_le
  have hlt := htake.proper.lt
  have hlt' := (h.head_proper hhead).lt
  rw [Span.merge_eq (by omega) (by omega)]
  exact ⟨covered_of_last hhead hleads hclose, rfl, by show mid ≤ close.span.stop; omega⟩

/-- A span that begins with the first token and ends with a phrase that is read later on. -/
theorem At.covered_phrase (h : At source lo tokens) (hhead : tokens.head? = some t)
    (hleads : Leads lo tokens mid after) (ht : t.span.stop ≤ mid) {n : Node}
    (hphrase : ReadsPhrase source mid after n rest) :
    Covered (t.span.merge n.span) tokens rest ∧
      (t.span.merge n.span).start = t.span.start ∧
      (t.span.merge n.span).stop = n.span.stop := by
  have hlo := hphrase.lo_le
  have hlt := hphrase.row.2.1.lt
  have hlt' := (h.head_proper hhead).lt
  rw [Span.merge_eq (by omega) (by omega)]
  exact ⟨covered_of_phrase hhead hleads hphrase.covered, rfl, rfl⟩

end Closing

section Between

variable {lo stop : Nat} {tokens first inner last rest : List Token} {t u close : Token}
  {ns : List Node}

/-- A row between two brackets, of which the first stands behind a name. -/
theorem Taken.row_between (ht : Taken source lo tokens t first)
    (hu : Taken source t.span.stop first u inner) (h : NodeRow source u.span.stop stop ns)
    (hclose : Taken source stop last close rest) :
    NodeRow source t.span.start close.span.stop ns := by
  have hlt := ht.proper.lt
  have hle := hu.le_stop
  exact h.mono (by omega) hclose.le_stop

/-- What stands between brackets keeps the closing one behind the opening one. -/
theorem Taken.le_close (hu : Taken source lo first u inner)
    (h : NodeRow source u.span.stop stop ns) (hclose : Taken source stop last close rest) :
    lo ≤ close.span.start := by
  have hle := hu.le_stop
  have hrow := h.le
  have hlo := hclose.lo_le
  omega

end Between

namespace Parser

/-! ## Expressions -/

section Expressions

variable {lo : Nat} {tokens rest : List Token} {e : Expr}

/-- An expression that spans a stretch of the text with its children inside is a row of one node. -/
theorem expr_row {span : Span} (hplace : e.place = (Reading.ofSource source).place span)
    (hproper : span.Proper source)
    (hchildren : NodeRow source span.start span.stop (Node.expr e).children) :
    NodeRow source span.start span.stop [.expr e] := by
  have hspan : (Node.expr e).span = span := congrArg Place.span hplace
  have hline : (Node.expr e).place.line = (Lines.ofChars source.toList).lineOf span.start :=
    congrArg Place.line hplace
  subst hspan
  exact hchildren.node rfl hproper (Nat.le_refl _) (Nat.le_refl _) hline fun h => by cases h

/-- An expression from one stretch to another behind it. -/
theorem expr_row_merge {a b : Span}
    (hplace : e.place = (Reading.ofSource source).place (a.merge b)) (ha : a.Proper source)
    (hb : b.Proper source) (hab : a.stop ≤ b.start)
    (hchildren : NodeRow source a.start b.stop (Node.expr e).children) :
    NodeRow source a.start b.stop [.expr e] := by
  obtain ⟨hproper, hstart, hstop⟩ := ha.merge hb hab
  rw [← hstart, ← hstop] at hchildren ⊢
  exact expr_row hplace hproper hchildren

/-- Two expressions in a row are joined to one: this is what the places of a chain rest on. -/
theorem joined_row (op : BinaryOp) (a b : Expr) (lo hi : Nat)
    (h : NodeRow source lo hi [.expr a, .expr b]) :
    NodeRow source lo hi [.expr (joined (.ofSource source) op a b)] := by
  obtain ⟨hlo, ha, hsound, hab, hb, hsound', hhi⟩ := h
  have hchildren : NodeRow source a.span.start b.span.stop [.expr a, .expr b] :=
    ⟨Nat.le_refl _, ha, hsound, hab, hb, hsound', Nat.le_refl _⟩
  have hnode := expr_row_merge (e := joined (.ofSource source) op a b) rfl ha hb hab hchildren
  exact hnode.mono hlo hhi

/-- What the readers of expressions give is a row of nodes in what they take. -/
def placedExprs (source : String) : ExprMotive where
  expr tokens e rest := ∀ lo, At source lo tokens → Reads source lo tokens [.expr e] rest
  operators tokens chain rest :=
    ∀ lo, At source lo tokens → Reads source lo tokens (chain.map fun x => .expr x.2) rest
  operand tokens e rest := ∀ lo, At source lo tokens → Reads source lo tokens [.expr e] rest
  primary tokens e rest := ∀ lo, At source lo tokens → Reads source lo tokens [.expr e] rest
  callOrLocation tokens e rest :=
    ∀ lo, At source lo tokens → Reads source lo tokens [.expr e] rest
  arguments tokens args rest :=
    ∀ lo, At source lo tokens → Reads source lo tokens (args.map .expr) rest
  argumentList tokens args rest :=
    ∀ lo, At source lo tokens → Reads source lo tokens (args.map .expr) rest

/-- The rows of the parts follow one another, and a node is put around them. -/
theorem placedExprs_handedOn : (placedExprs source).HandedOn (.ofSource source) where
  expr hfirst hchain lo h := by
    obtain ⟨stop, hleads, hfirst⟩ := hfirst lo h
    obtain ⟨hi, hleads', hchain⟩ := hchain stop (h.leads hleads).1
    exact ⟨hi, hleads.trans hleads', Chain.assemble_row joined_row (hfirst.append hchain)⟩
  noOperator _ lo _ := ⟨lo, .refl lo _, Nat.le_refl lo⟩
  operator ht hright hmore lo h := by
    have htake := h.take ht
    obtain ⟨stop, hleads, hright⟩ := hright _ htake.after
    obtain ⟨hi, hleads', hmore⟩ := hmore stop (htake.after.leads hleads).1
    refine ⟨hi, htake.leads.trans (hleads.trans hleads'), ?_⟩
    exact (hright.mono htake.le_stop (Nat.le_refl _)).append hmore
  operand _ hprimary := hprimary
  unary {op t _ _ _ inner} ht hinner lo h := by
    have htake := h.take ht
    obtain ⟨hi, hleads, hle, hproper, hsound, hhi⟩ := hinner _ htake.after
    have hlt := htake.proper.lt
    have hchildren : NodeRow source t.span.start inner.span.stop [.expr inner] :=
      ⟨by omega, hproper, hsound, Nat.le_refl _⟩
    have hnode := expr_row_merge (e := .unary _ none op inner) rfl htake.proper hproper hle
      hchildren
    exact ⟨hi, htake.leads.trans hleads, hnode.mono htake.lo_le hhi⟩
  parens {_ close _ _ _ _ _} ht hinner hc lo h := by
    have htake := h.take ht
    obtain ⟨hi, hleads, hinner⟩ := hinner _ htake.after
    have hclose := (htake.after.leads hleads).1.take hc
    -- the expression is smaller than its tokens: it does not span the parentheses
    exact ⟨close.span.stop, htake.leads.trans (hleads.trans hclose.leads),
      hinner.mono htake.le_stop hclose.le_stop⟩
  named _ h := h
  literal {t v _ _} ht _ lo h := by
    have htake := h.take ht
    have hnode := expr_row (e := .literal _ none v) rfl htake.proper (Nat.le_of_lt htake.proper.lt)
    exact ⟨t.span.stop, htake.leads, hnode.mono htake.lo_le (Nat.le_refl _)⟩
  call {x _ _ close _ _ _ _ _ args} ht hu hargs hc lo h := by
    have htake := h.take ht
    have hopen := htake.after.take hu
    obtain ⟨stop, hleads, hrow⟩ := hargs _ hopen.after
    have hclose := (hopen.after.leads hleads).1.take hc
    have hnode := expr_row_merge (e := .call _ none x args) rfl htake.proper hclose.proper
      (hopen.le_close hrow hclose) (htake.row_between hopen hrow hclose)
    exact ⟨close.span.stop, htake.leads.trans (hopen.leads.trans (hleads.trans hclose.leads)),
      hnode.mono htake.lo_le (Nat.le_refl _)⟩
  element {x _ _ close _ _ _ _ _ i} ht hu hindex hc lo h := by
    have htake := h.take ht
    have hopen := htake.after.take hu
    obtain ⟨stop, hleads, hrow⟩ := hindex _ hopen.after
    have hclose := (hopen.after.leads hleads).1.take hc
    have hnode := expr_row_merge (e := .location _ none x (some i)) rfl htake.proper hclose.proper
      (hopen.le_close hrow hclose) (htake.row_between hopen hrow hclose)
    exact ⟨close.span.stop, htake.leads.trans (hopen.leads.trans (hleads.trans hclose.leads)),
      hnode.mono htake.lo_le (Nat.le_refl _)⟩
  scalar {x t _ _} ht _ _ lo h := by
    have htake := h.take ht
    have hnode := expr_row (e := .location _ none x none) rfl htake.proper
      (Nat.le_of_lt htake.proper.lt)
    exact ⟨t.span.stop, htake.leads, hnode.mono htake.lo_le (Nat.le_refl _)⟩
  noArgument _ lo _ := ⟨lo, .refl lo _, Nat.le_refl lo⟩
  arguments _ hargs := hargs
  argument hfirst _ := hfirst
  moreArguments hfirst ht hothers lo h := by
    obtain ⟨stop, hleads, hrow⟩ := hfirst lo h
    have hcomma := (h.leads hleads).1.take ht
    obtain ⟨hi, hleads', hothers⟩ := hothers _ hcomma.after
    refine ⟨hi, hleads.trans (hcomma.leads.trans hleads'), ?_⟩
    exact (hrow.mono (Nat.le_refl _) hcomma.le_stop).append hothers

/-- An expression stands in what it was read from. Its span may be smaller. -/
theorem expr_reads (h : At source lo tokens)
    (he : Gives (expr (.ofSource source) tokens) e rest) :
    Reads source lo tokens [.expr e] rest :=
  placedExprs_handedOn.of_expr he lo h

theorem callOrLocation_reads (h : At source lo tokens)
    (he : Gives (callOrLocation (.ofSource source) tokens) e rest) :
    Reads source lo tokens [.expr e] rest :=
  placedExprs_handedOn.of_callOrLocation he lo h

end Expressions

/-! ## Declarations -/

section Declarations

variable {lo mid : Nat} {tokens after rest : List Token} {t : Token}

/-- The declaration of a variable, wherever its first token was taken. -/
theorem varRest_covered (h : At source lo tokens) (hhead : tokens.head? = some t)
    (hleads : Leads lo tokens mid after) (ht : t.span.stop ≤ mid) {x : String} {ty : Ty}
    {d : VarDecl} (hd : Gives (varRest (.ofSource source) x ty t.span after) d rest) :
    Covered (Node.varDecl d).span tokens rest ∧
      d.place = (Reading.ofSource source).place d.place.span := by
  rcases varRest_gives.mp hd with
    ⟨t₁, rest₁, n, rest₂, t₃, rest₃, close, ht₁, hn, ht₃, hc, rfl⟩ | ⟨close, hc, rfl⟩
  · obtain ⟨text, t₂, ht₂, -⟩ := arrayLength_gives.mp hn
    have hat := (h.leads hleads).1
    have htake₁ := hat.take ht₁
    have htake₂ := htake₁.after.take ht₂
    have htake₃ := htake₂.after.take ht₃
    have hlong := htake₁.leads.trans (htake₂.leads.trans htake₃.leads)
    have hle := (hat.leads hlong).2
    exact ⟨(h.covered_last hhead (hleads.trans hlong) (by omega) hc).1, rfl⟩
  · exact ⟨(h.covered_last hhead hleads ht hc).1, rfl⟩

/-- The declaration of a variable has no children. -/
theorem varDecl_phrase {d : VarDecl} (h : At source lo tokens)
    (hread : (Node.varDecl d).ReadFrom (.ofSource source) tokens rest)
    (hcovered : Covered (Node.varDecl d).span tokens rest)
    (hplace : d.place = (Reading.ofSource source).place d.place.span) :
    ReadsPhrase source lo tokens (.varDecl d) rest := by
  have hproper := (h.proper_of_covered hcovered).2
  exact h.phrase hread hcovered (Nat.le_of_lt hproper.lt) rfl (Nat.le_refl _) (Nat.le_refl _)
    (congrArg Place.line hplace)

/-- The declaration of a variable covers its tokens, from the type to the semicolon. -/
theorem varDecl_reads {d : VarDecl} (h : At source lo tokens)
    (hd : Gives (varDecl (.ofSource source) tokens) d rest) :
    ReadsPhrase source lo tokens (.varDecl d) rest := by
  obtain ⟨k, ty, t, rest₁, x, u, rest₂, ht, -, hu, hrest⟩ := varDecl_gives.mp hd
  have htake := h.take ht
  have hname := htake.after.take hu
  obtain ⟨hcovered, hplace⟩ := varRest_covered h htake.head (htake.leads.trans hname.leads)
    hname.le_stop hrest
  exact varDecl_phrase h (.inl hd) hcovered hplace

/-- Declarations follow one another as their tokens do. -/
theorem varDecls_reads {ds : List VarDecl} (h : At source lo tokens)
    (hd : Gives (varDecls (.ofSource source) tokens) ds rest) :
    Reads source lo tokens (ds.map .varDecl) rest := by
  induction hd using varDecls_induction generalizing lo with
  | nil _ _ => exact ⟨lo, .refl lo _, Nat.le_refl lo⟩
  | cons _ _ _ hfirst ih =>
    obtain ⟨stop, hleads, hrow⟩ := (varDecl_reads h hfirst).reads
    obtain ⟨hi, hleads', hrow'⟩ := ih (h.leads hleads).1
    exact ⟨hi, hleads.trans hleads', hrow.append hrow'⟩

end Declarations

/-! ## Statements -/

section Statements

variable {lo : Nat} {tokens rest : List Token}

/-- A condition stands inside its parentheses. -/
theorem condition_reads {e : Expr} (h : At source lo tokens)
    (he : Gives (condition (.ofSource source) tokens) e rest) :
    Reads source lo tokens [.expr e] rest := by
  obtain ⟨t, rest₁, rest₂, u, ht, he, hu⟩ := condition_gives.mp he
  have htake := h.take ht
  obtain ⟨stop, hleads, hrow⟩ := expr_reads htake.after he
  have hclose := (htake.after.leads hleads).1.take hu
  exact ⟨u.span.stop, htake.leads.trans (hleads.trans hclose.leads),
    hrow.mono htake.le_stop hclose.le_stop⟩

theorem returnValue_reads {value : Option Expr} (h : At source lo tokens)
    (hv : Gives (returnValue (.ofSource source) tokens) value rest) :
    Reads source lo tokens (value.toList.map .expr) rest := by
  rcases returnValue_gives.mp hv with ⟨-, rfl, rfl⟩ | ⟨e, -, he, rfl⟩
  · exact ⟨lo, .refl lo _, Nat.le_refl lo⟩
  · exact expr_reads h he

/-- A statement is a phrase if its span covers its tokens and its children are a row inside it. -/
theorem stmt_phrase {a b : Nat} {s : Stmt} {span : Span} (h : At source lo tokens)
    (hread : Gives (stmt (.ofSource source) tokens) s rest)
    (hplace : s.place = (Reading.ofSource source).place span)
    (hcovered : Covered span tokens rest) (hchildren : NodeRow source a b (Node.stmt s).children)
    (ha : span.start ≤ a) (hb : b ≤ span.stop) :
    ReadsPhrase source lo tokens (.stmt s) rest := by
  have hspan : (Node.stmt s).span = span := congrArg Place.span hplace
  subst hspan
  exact h.phrase hread hcovered hchildren rfl ha hb (congrArg Place.line hplace)

/-- A statement that ends with a semicolon. -/
theorem finish_phrase {a mid : Nat} {t : Token} {after : List Token} {make : Place → Stmt}
    {s : Stmt} (h : At source lo tokens) (hread : Gives (stmt (.ofSource source) tokens) s rest)
    (hmake : ∀ place, (make place).place = place) (hhead : tokens.head? = some t)
    (hleads : Leads lo tokens mid after)
    (hs : Gives (finish (.ofSource source) t.span make after) s rest)
    (hchildren : NodeRow source a mid (Node.stmt s).children) (ha : t.span.start ≤ a)
    (hmid : t.span.stop ≤ mid) : ReadsPhrase source lo tokens (.stmt s) rest := by
  obtain ⟨close, hclose, rfl⟩ := finish_gives.mp hs
  obtain ⟨hcovered, hstart, hstop⟩ := h.covered_last hhead hleads hmid hclose
  exact stmt_phrase h hread (hmake _) hcovered hchildren (by omega) hstop

/-- A statement that ends with a block. -/
theorem blockStmt_phrase {mid : Nat} {t : Token} {after : List Token} {s : Stmt} {b : Block}
    (h : At source lo tokens) (hread : Gives (stmt (.ofSource source) tokens) s rest)
    (hplace : s.place = (Reading.ofSource source).place (t.span.merge b.place.span))
    (hhead : tokens.head? = some t) (hleads : Leads lo tokens mid after)
    (hb : ReadsPhrase source mid after (.block b) rest)
    (hchildren : NodeRow source t.span.stop b.place.span.stop (Node.stmt s).children)
    (hmid : t.span.stop ≤ mid) : ReadsPhrase source lo tokens (.stmt s) rest := by
  obtain ⟨hcovered, hstart, hstop⟩ := h.covered_phrase hhead hleads hmid hb
  have hlt := (h.head_proper hhead).lt
  rw [← hstart] at hlt
  exact stmt_phrase h hread hplace hcovered hchildren (Nat.le_of_lt hlt) (Nat.le_of_eq hstop.symm)

/-- A statement with a condition and one block. -/
theorem tested_phrase {t : Token} {mid rest₁ : List Token} {s : Stmt} {test : Expr} {b : Block}
    (h : At source lo (t :: mid)) (hread : Gives (stmt (.ofSource source) (t :: mid)) s rest)
    (hplace : s.place = (Reading.ofSource source).place (t.span.merge b.place.span))
    (hparts : (Node.stmt s).children = [.expr test, .block b])
    (htest : Gives (condition (.ofSource source) mid) test rest₁)
    (hbody : ∀ lo, At source lo rest₁ → ReadsPhrase source lo rest₁ (.block b) rest) :
    ReadsPhrase source lo (t :: mid) (.stmt s) rest := by
  have htake := h.takeHead
  obtain ⟨stop, hleads, hrow⟩ := condition_reads htake.after htest
  have hphrase := hbody stop (htake.after.leads hleads).1
  have hchildren := hphrase.append_row hrow
  exact blockStmt_phrase h hread hplace rfl (htake.leads.trans hleads) hphrase
    (hparts ▸ hchildren) hrow.le

/-- A statement of one word. -/
theorem jump_phrase {t : Token} {mid : List Token} {make : Place → Stmt} {s : Stmt}
    (h : At source lo (t :: mid)) (hread : Gives (stmt (.ofSource source) (t :: mid)) s rest)
    (hmake : ∀ place, (make place).place = place)
    (hnone : ∀ place, (Node.stmt (make place)).children = [])
    (hs : Gives (finish (.ofSource source) t.span make mid) s rest) :
    ReadsPhrase source lo (t :: mid) (.stmt s) rest := by
  have htake := h.takeHead
  have hlt := htake.proper.lt
  have hchildren : NodeRow source t.span.start t.span.stop (Node.stmt s).children := by
    obtain ⟨close, -, rfl⟩ := finish_gives.mp hs
    rw [hnone]
    exact Nat.le_of_lt hlt
  exact finish_phrase h hread hmake rfl htake.leads hs hchildren (Nat.le_refl _) (Nat.le_refl _)

/-- A statement that begins with a name, the first token of its target. -/
theorem simpleStmt_phrase {t : Token} {call : Bool} {s : Stmt}
    (h : At source t.span.start tokens) (hhead : tokens.head? = some t)
    (hread : Gives (stmt (.ofSource source) tokens) s rest)
    (hs : Gives (simpleStmt (.ofSource source) t.span call tokens) s rest) :
    ReadsPhrase source t.span.start tokens (.stmt s) rest := by
  cases call with
  | true =>
    obtain ⟨target, mid, htarget, hfinish⟩ := simpleStmt_gives_call.mp hs
    obtain ⟨stop, hleads, hrow⟩ := callOrLocation_reads h htarget
    have hstop := h.stop_le hhead hleads htarget.length_lt
    obtain ⟨close, -, rfl⟩ := finish_gives.mp hfinish
    exact finish_phrase h hread (fun _ => rfl) hhead hleads hfinish hrow (Nat.le_refl _) hstop
  | false =>
    obtain ⟨target, rest₁, u, rest₂, v, rest₃, htarget, hu, hv, hfinish⟩ :=
      simpleStmt_gives_assign.mp hs
    obtain ⟨stop, hleads, hrow⟩ := callOrLocation_reads h htarget
    have hstop := h.stop_le hhead hleads htarget.length_lt
    have hequal := (h.leads hleads).1.take hu
    obtain ⟨hi, hleads', hrow'⟩ := expr_reads hequal.after hv
    have hle := hequal.le_stop
    have hboth := hrow.append (hrow'.mono hle (Nat.le_refl hi))
    have hrow_le := hrow'.le
    obtain ⟨close, -, rfl⟩ := finish_gives.mp hfinish
    exact finish_phrase h hread (fun _ => rfl) hhead
      (hleads.trans (hequal.leads.trans hleads')) hfinish hboth (Nat.le_refl _) (by omega)

/-- A block and a statement begin with the first token that is taken and end with the last. -/
def placedStmts (source : String) : StmtMotive where
  block tokens b rest := ∀ lo, At source lo tokens → ReadsPhrase source lo tokens (.block b) rest
  stmts tokens ss rest :=
    ∀ lo, At source lo tokens → Reads source lo tokens (ss.map .stmt) rest
  stmt tokens s rest := ∀ lo, At source lo tokens → ReadsPhrase source lo tokens (.stmt s) rest

/-- A statement is covered from its first token to what is read last of it. -/
theorem placedStmts_handedOn : (placedStmts source).HandedOn (.ofSource source) where
  block hb hopen hlocals hstmts hclose lo h := by
    have htake := h.take hopen
    obtain ⟨mid, hleads, hrow⟩ := varDecls_reads htake.after hlocals
    obtain ⟨stop, hleads', hrow'⟩ := hstmts mid (htake.after.leads hleads).1
    have hchildren := hrow.append hrow'
    obtain ⟨hcovered, hstart, hstop⟩ := h.covered_last htake.head
      (htake.leads.trans (hleads.trans hleads')) hchildren.le hclose
    have hlt := htake.proper.lt
    exact h.phrase hb hcovered hchildren rfl (by show (Span.merge _ _).start ≤ _; omega) hstop rfl
  noStmt _ lo _ := ⟨lo, .refl lo _, Nat.le_refl lo⟩
  moreStmts _ hfirst hothers lo h := by
    obtain ⟨stop, hleads, hrow⟩ := (hfirst lo h).reads
    obtain ⟨hi, hleads', hrow'⟩ := hothers stop (h.leads hleads).1
    exact ⟨hi, hleads.trans hleads', hrow.append hrow'⟩
  ifThen hs _ htest hbody _ _ h := tested_phrase h hs rfl rfl htest hbody
  ifElse hs _ htest hbody hu hother lo h := by
    have htake := h.takeHead
    obtain ⟨stop, hleads, hrow⟩ := condition_reads htake.after htest
    have hat := (htake.after.leads hleads).1
    have hphrase := hbody stop hat
    have hleads' := hphrase.covered.leads stop
    have helse := (hat.leads hleads').1.take hu
    have hphrase' := hother _ helse.after
    have hrow' := (hphrase.append_row hrow).mono (Nat.le_refl _) helse.le_stop
    exact blockStmt_phrase h hs rfl rfl
      (htake.leads.trans (hleads.trans (hleads'.trans helse.leads))) hphrase'
      (hphrase'.append_row hrow') hrow'.le
  loop hs _ htest hbody _ h := tested_phrase h hs rfl rfl htest hbody
  inner hs _ hbody lo h := by
    have hphrase := hbody lo h
    exact stmt_phrase h hs rfl hphrase.covered hphrase.row (Nat.le_refl _) (Nat.le_refl _)
  ret hs _ hv hfinish lo h := by
    have htake := h.takeHead
    obtain ⟨stop, hleads, hrow⟩ := returnValue_reads htake.after hv
    obtain ⟨close, -, rfl⟩ := finish_gives.mp hfinish
    exact finish_phrase h hs (fun _ => rfl) rfl (htake.leads.trans hleads) hfinish hrow
      (Nat.le_of_lt htake.proper.lt) hrow.le
  leave hs _ hfinish _ h := jump_phrase h hs (fun _ => rfl) (fun _ => rfl) hfinish
  again hs _ hfinish _ h := jump_phrase h hs (fun _ => rfl) (fun _ => rfl) hfinish
  simple hs _ hsimple lo h := by
    -- the target begins with the token that the statement begins with
    obtain ⟨hlo, hat⟩ := h.from_head rfl
    have hphrase := simpleStmt_phrase hat rfl hs hsimple
    exact ⟨hphrase.covered, Nat.le_trans hlo hphrase.lo_le, hphrase.row⟩

/-- A block covers its tokens, from brace to brace. -/
theorem block_reads {b : Block} (h : At source lo tokens)
    (hb : Gives (block (.ofSource source) tokens) b rest) :
    ReadsPhrase source lo tokens (.block b) rest :=
  placedStmts_handedOn.of_block hb lo h

end Statements

/-! ## Programs -/

section Programs

variable {lo : Nat} {tokens rest : List Token}

/-- A parameter has no children; it goes from its type to its name. -/
theorem param_row {t u : Token} {first after : List Token} {x : String} {ty : Ty}
    (ht : Taken source lo tokens t first) (hu : Taken source t.span.stop first u after) :
    NodeRow source lo u.span.stop
      [.param ⟨x, ty, (Reading.ofSource source).place (t.span.merge u.span)⟩] := by
  obtain ⟨hproper, hstart, hstop⟩ := ht.proper.merge hu.proper hu.lo_le
  have hlt : t.span.start ≤ u.span.stop := by
    have := hproper.lt
    omega
  have hrow := NodeRow.node
    (n := .param ⟨x, ty, (Reading.ofSource source).place (t.span.merge u.span)⟩)
    (show NodeRow source t.span.start u.span.stop [] from hlt) rfl hproper
    (Nat.le_of_eq hstart) (Nat.le_of_eq hstop.symm) rfl fun h => by cases h
  exact hrow.mono (Nat.le_trans ht.lo_le (Nat.le_of_eq hstart.symm)) (Nat.le_of_eq hstop)

/-- Parameters follow one another, with the commas between them. -/
theorem paramList_reads {ps : List Param} (h : At source lo tokens)
    (hp : Gives (paramList (.ofSource source) tokens) ps rest) :
    Reads source lo tokens (ps.map .param) rest := by
  induction hp using paramList_induction generalizing lo with
  | @one _ _ _ u _ _ _ _ _ ht _ hu _ =>
    have htype := h.take ht
    have hname := htype.after.take hu
    exact ⟨u.span.stop, htype.leads.trans hname.leads, param_row htype hname⟩
  | more _ _ ht _ hu hc ih =>
    have htype := h.take ht
    have hname := htype.after.take hu
    have hcomma := hname.after.take hc
    obtain ⟨hi, hleads, hrow⟩ := ih hcomma.after
    refine ⟨hi, htype.leads.trans (hname.leads.trans (hcomma.leads.trans hleads)), ?_⟩
    exact ((param_row htype hname).mono (Nat.le_refl _) hcomma.le_stop).append hrow

theorem params_reads {ps : List Param} (h : At source lo tokens)
    (hp : Gives (params (.ofSource source) tokens) ps rest) :
    Reads source lo tokens (ps.map .param) rest := by
  rcases params_gives.mp hp with ⟨-, rfl, rfl⟩ | ⟨-, hp⟩
  · exact ⟨lo, .refl lo _, Nat.le_refl lo⟩
  · exact paramList_reads h hp

/-- A function, wherever its first token was taken. -/
theorem functionRest_phrase {mid : Nat} {after : List Token} {t : Token} {x : String} {ty : Ty}
    {f : Function} (h : At source lo tokens) (hhead : tokens.head? = some t)
    (hleads : Leads lo tokens mid after) (ht : t.span.stop ≤ mid)
    (hread : Gives (topLevel (.ofSource source) tokens) (.function f) rest)
    (hf : Gives (functionRest (.ofSource source) x ty t.span after) f rest) :
    ReadsPhrase source lo tokens (.function f) rest := by
  obtain ⟨t₁, rest₁, ps, rest₂, u, rest₃, body, ht₁, hps, hu, hbody, rfl⟩ :=
    functionRest_gives.mp hf
  have hopen := (h.leads hleads).1.take ht₁
  obtain ⟨stop, hleads', hrow⟩ := params_reads hopen.after hps
  have hclose := (hopen.after.leads hleads').1.take hu
  have hphrase := block_reads hclose.after hbody
  have hall := hleads.trans (hopen.leads.trans (hleads'.trans hclose.leads))
  have hrow' := hrow.mono hopen.le_stop hclose.le_stop
  have hle := hrow'.le
  obtain ⟨hcovered, hstart, hstop⟩ := h.covered_phrase hhead hall (by omega) hphrase
  have hlt := (h.head_proper hhead).lt
  refine h.phrase hread hcovered (hphrase.append_row hrow') rfl ?_ (Nat.le_of_eq hstop.symm) ?_
  · show (t.span.merge (Node.block body).span).start ≤ mid
    omega
  · show _ = (Lines.ofChars source.toList).lineOf (t.span.merge (Node.block body).span).start
    rw [hstart]
    rfl

/-- What stands at the top level, as a node. -/
def TopLevel.node : TopLevel → Node
  | .global d => .varDecl d
  | .function f => .function f

/-- A function or a variable covers its tokens, from the first one on, be that the word `def` or
the type. -/
theorem topLevel_reads {item : TopLevel} (h : At source lo tokens)
    (hi : Gives (topLevel (.ofSource source) tokens) item rest) :
    ReadsPhrase source lo tokens item.node rest := by
  obtain ⟨rest₁, k, ty, t, rest₂, x, u, rest₃, hdef, ht, -, hu, hitem⟩ := topLevel_gives.mp hi
  -- the first token is `def` or that of the type
  obtain ⟨first, mid, hhead, hleads, hmid⟩ : ∃ first mid, tokens.head? = some first ∧
      Leads lo tokens mid rest₃ ∧ first.span.stop ≤ mid := by
    rcases hdef with ⟨d, hd⟩ | ⟨-, rfl⟩
    · have hdef := h.take hd
      have htype := hdef.after.take ht
      have hname := htype.after.take hu
      have hle := (hdef.after.leads (htype.leads.trans hname.leads)).2
      exact ⟨d, u.span.stop, hdef.head, hdef.leads.trans (htype.leads.trans hname.leads), hle⟩
    · have htype := h.take ht
      have hname := htype.after.take hu
      have hle := (htype.after.leads hname.leads).2
      exact ⟨t, u.span.stop, htype.head, htype.leads.trans hname.leads, hle⟩
  have hcurrent : (Reading.ofSource source).current tokens = first := by
    rw [Reading.current, List.headD_eq_head?_getD, hhead]
    rfl
  rw [hcurrent] at hitem
  rcases hitem with ⟨f, -, hf, rfl⟩ | ⟨d, -, hd, rfl⟩
  · exact functionRest_phrase h hhead hleads hmid hi hf
  · obtain ⟨hcovered, hplace⟩ := varRest_covered h hhead hleads hmid hd
    exact varDecl_phrase h (.inr hi) hcovered hplace

/-- What stands at the top level is one row of nodes. -/
theorem topLevels_row {items : List TopLevel} (h : At source lo tokens)
    (hi : topLevels (.ofSource source) tokens = .ok items) :
    ∃ hi, NodeRow source lo hi (items.map TopLevel.node) := by
  induction hi using topLevels_induction generalizing lo with
  | nil _ _ => exact ⟨lo, Nat.le_refl lo⟩
  | cons _ _ _ hfirst ih =>
    obtain ⟨stop, hleads, hrow⟩ := (topLevel_reads h hfirst).reads
    obtain ⟨hi, hrow'⟩ := ih (h.leads hleads).1
    exact ⟨hi, hrow.append hrow'⟩

/-- What is picked out of the top level, as nodes, keeps its order. -/
theorem picked_sublist {α : Type} {pick : TopLevel → Option α} {node : α → Node}
    (h : ∀ item a, pick item = some a → node a = item.node) (items : List TopLevel) :
    ((items.filterMap pick).map node).Sublist (items.map TopLevel.node) := by
  induction items with
  | nil => exact .slnil
  | cons item items ih =>
    cases ha : pick item with
    | none =>
      rw [List.filterMap_cons_none ha]
      exact ih.cons _
    | some a =>
      rw [List.filterMap_cons_some ha, List.map_cons, h item a ha]
      exact ih.cons_cons _

theorem globals_sublist (items : List TopLevel) :
    ((items.filterMap TopLevel.global?).map Node.varDecl).Sublist (items.map TopLevel.node) := by
  refine picked_sublist (fun item d hd => ?_) items
  cases item <;> cases hd
  rfl

/-- Functions keep their order when variables are left out, as variables do above. -/
theorem functions_sublist (items : List TopLevel) :
    ((items.filterMap TopLevel.function?).map Node.function).Sublist
      (items.map TopLevel.node) := by
  refine picked_sublist (fun item f hf => ?_) items
  cases item <;> cases hf
  rfl

end Programs

end Parser

/-- Everything in a program that was read stands where it should. -/
theorem parse_allSound {p : Program} (h : parse source = .ok p) :
    (Node.program p).AllSound source := by
  obtain ⟨-, items, hitems, rfl⟩ := Parser.program_eq_ok_iff.mp h
  have hat : At source 0 (Stream.ofSource source).tokens :=
    ⟨(Stream.ofSource_in source).row, List.suffix_refl _⟩
  obtain ⟨hi, hrow⟩ := Parser.topLevels_row hat hitems
  have hglobals := Parser.globals_sublist items
  have hfunctions := Parser.functions_sublist items
  have hmem := fun c hc => hrow.mem ((List.mem_append.mp hc).elim
    (fun hc => hglobals.subset hc) fun hc => hfunctions.subset (a := c) hc)
  refine .intro ⟨?_, fun c hc => (hmem c hc).2.2.1, fun c hc => ?_, ?_, ?_, fun h => by cases h⟩
    fun c hc => (hmem c hc).2.2.2
  · have hnone : Lines.charsBefore 0 source.toList = [] := Lines.charsBefore_append [] _
    show 1 = 1 + (Lines.charsBefore 0 source.toList).count '\n'
    rw [hnone]
    rfl
  · exact ⟨Nat.zero_le _, (hmem c hc).2.2.1.liesIn.stop_le⟩
  · -- a variable and a function are different nodes of one row
    refine List.pairwise_append.mpr ⟨hrow.disjoint.sublist hglobals,
      hrow.disjoint.sublist hfunctions, fun a ha b hb => ?_⟩
    refine hrow.disjoint_of_ne (hglobals.subset ha) (hfunctions.subset hb) ?_
    obtain ⟨d, -, rfl⟩ := List.mem_map.mp ha
    obtain ⟨f, -, rfl⟩ := List.mem_map.mp hb
    intro hsame
    cases hsame
  · intro row hmem
    rcases List.mem_cons.mp hmem with rfl | hmem
    · exact hrow.pairwise.sublist hglobals
    · cases List.mem_singleton.mp hmem
      exact hrow.pairwise.sublist hfunctions

end Decaf
