import Decaf.Proofs.Text.Lines
import Decaf.Proofs.Syntax.FirstError
import Decaf.Proofs.Syntax.Induction
import Mathlib.Data.List.Forall2

/-!
# Reading two layouts of one text

Two texts with the same tokens may differ in blanks, comments and line breaks. This
file reads them side by side. `Layouts` holds the two readings and says how much of a
line number counts: nothing, if the lines of the texts have nothing to do with each
other, or all of it, if corresponding tokens start on the same lines. Either way what
counts of the line of a merged span is given by its parts.

For every reader there is then one lemma: what the first reading gives, the second
gives as well, up to the spans of the nodes and to what does not count of their lines
(`expr_follows`, `block_follows`, `topLevel_follows` and the others). The inductions are
those along the readers: whichever way the first reading went, the second goes the same
way. A complaint follows too, at the same number of tokens (`Tracking`), so the two
readings end in the same way.
-/

namespace Decaf

/-- Forgets the spans of nodes, and what `keep` does not keep of their lines. If it keeps
nothing, this is `Relabel.unplaced`. -/
def Relabel.onLines (keep : Nat → Nat) : Relabel :=
  ⟨fun p => ⟨.point 0, keep p.line⟩, id, id⟩

namespace Chain

/-- What holds between operands, and is passed on by joining, holds between the first
operands and the tails that settling a level leaves. -/
theorem settle_related {join join' : BinaryOp → Expr → Expr → Expr} {R : Expr → Expr → Prop}
    (hjoin : ∀ op a b a' b', R a a' → R b b' → R (join op a b) (join' op a' b')) (level : Nat)
    {first first' : Expr} {rest rest' : Tail} (hfirst : R first first')
    (hrest : List.Forall₂ (fun x x' => x.1 = x'.1 ∧ R x.2 x'.2) rest rest') :
    R (settle join level first rest).1 (settle join' level first' rest').1 ∧
      List.Forall₂ (fun x x' => x.1 = x'.1 ∧ R x.2 x'.2) (settle join level first rest).2
        (settle join' level first' rest').2 := by
  induction hrest generalizing first first' with
  | nil => exact ⟨hfirst, .nil⟩
  | @cons x x' rest rest' hx hrest ih =>
    obtain ⟨op, e⟩ := x
    obtain ⟨op', e'⟩ := x'
    obtain ⟨hop, he⟩ := hx
    cases hop
    by_cases h : op.precedence = level
    · rw [settle_cons_eq join h, settle_cons_eq join' h]
      exact ih (hjoin op first e first' e' hfirst he)
    · rw [settle_cons_ne join h, settle_cons_ne join' h]
      obtain ⟨hhead, htail⟩ := ih he
      exact ⟨hfirst, .cons ⟨rfl, hhead⟩ htail⟩

/-- What holds between operands, and is passed on by joining, holds between the trees that chains
of the same operators are put together to. -/
theorem assemble_related {join join' : BinaryOp → Expr → Expr → Expr} {R : Expr → Expr → Prop}
    (hjoin : ∀ op a b a' b', R a a' → R b b' → R (join op a b) (join' op a' b'))
    {first first' : Expr} {rest rest' : Tail} (hfirst : R first first')
    (hrest : List.Forall₂ (fun x x' => x.1 = x'.1 ∧ R x.2 x'.2) rest rest') :
    R (assemble join first rest) (assemble join' first' rest') := by
  have settled : ∀ level {first first' : Expr} {rest rest' : Tail}, R first first' →
      List.Forall₂ (fun x x' => x.1 = x'.1 ∧ R x.2 x'.2) rest rest' →
      R (settleDown join level first rest).1 (settleDown join' level first' rest').1 := by
    intro level
    induction level with
    | zero => exact fun h _ => h
    | succ level ih =>
      intro first first' rest rest' hfirst hrest
      obtain ⟨hhead, htail⟩ := settle_related hjoin (level + 1) hfirst hrest
      exact ih hhead htail
  exact settled 6 hfirst hrest

end Chain

/-- The readings of two texts, the second of which is readable to its end, and what
counts of the number of a line. -/
structure Layouts where
  keep : Nat → Nat
  left : Reading
  right : Reading
  ending : left.ending.kind = .endOfFile
  whole : right.Whole
  /-- What counts of the line of a merged span depends only on what counts of the lines
  of its parts. -/
  merge : ∀ {a b a' b' : Span},
    keep (left.lines.lineOf a.start) = keep (right.lines.lineOf a'.start) →
    keep (left.lines.lineOf b.start) = keep (right.lines.lineOf b'.start) →
    keep (left.lines.lineOf (a.merge b).start) = keep (right.lines.lineOf (a'.merge b').start)

namespace Layouts

variable (l : Layouts)

/-- Two spans, one of each text, start on the same line as far as that counts. -/
def SameStart (s s' : Span) : Prop :=
  l.keep (l.left.lines.lineOf s.start) = l.keep (l.right.lines.lineOf s'.start)

/-- Two rows of tokens, one of each text, have the same kinds and start on the same
lines as far as that counts. -/
def Alike : List Token → List Token → Prop :=
  List.Forall₂ fun t t' => t.kind = t'.kind ∧ l.SameStart t.span t'.span

/-- What is left of the labels of a tree. -/
def relabel : Relabel :=
  .onLines l.keep

/-- Two expressions that are the same up to their places, and begin alike. -/
def SameExpr (e e' : Expr) : Prop :=
  e.relabel l.relabel = e'.relabel l.relabel ∧ l.SameStart e.span e'.span

/-- Two blocks that are the same up to their places, and begin alike. -/
def SameBlock (b b' : Block) : Prop :=
  b.relabel l.relabel = b'.relabel l.relabel ∧ l.SameStart b.place.span b'.place.span

/-- The second reading gives the same as the first, which gave `v`, and the tokens that are
left are alike. -/
def Answers {α : Type} {n : Nat} (same : α → α → Prop) (x' : Except ParseError (Parsed α n))
    (v : α) (rest : List Token) : Prop :=
  ∃ v' rest', Gives x' v' rest' ∧ same v v' ∧ l.Alike rest rest'

/-- Whatever the first reading gives, the second gives the same. -/
def Follows {α : Type} {m n : Nat} (same : α → α → Prop) (x : Except ParseError (Parsed α m))
    (x' : Except ParseError (Parsed α n)) : Prop :=
  ∀ v rest, Gives x v rest → l.Answers same x' v rest

variable {l} {tokens tokens' : List Token}

/-- Of a place only the line counts, and that is the same. -/
theorem SameStart.place_eq {s s' : Span} (h : l.SameStart s s') :
    l.relabel.place (l.left.place s) = l.relabel.place (l.right.place s') :=
  congrArg (Place.mk (.point 0)) h

/-- Merged spans start alike if their parts do. -/
theorem SameStart.merge {a a' b b' : Span} (ha : l.SameStart a a') (hb : l.SameStart b b') :
    l.SameStart (a.merge b) (a'.merge b') :=
  l.merge ha hb

/-- Rows that are alike have the same kinds. -/
theorem Alike.kinds_eq (h : l.Alike tokens tokens') : kinds tokens = kinds tokens' := by
  induction h with
  | nil => rfl
  | cons ht _ ih => rw [kinds_cons, kinds_cons, ht.1, ih]

/-- A row that is alike has a first token, too. -/
theorem Alike.eq_cons {t : Token} (h : l.Alike (t :: tokens) tokens') :
    ∃ t' mid', tokens' = t' :: mid' ∧ t'.kind = t.kind ∧ l.SameStart t.span t'.span ∧
      l.Alike tokens mid' := by
  cases h with
  | cons ht hrest => exact ⟨_, _, rfl, ht.1.symm, ht.2, hrest⟩

/-- Also at the end of the file the two readings see tokens of the same kind. -/
theorem Alike.current_kind (h : l.Alike tokens tokens') :
    (l.left.current tokens).kind = (l.right.current tokens').kind := by
  cases h with
  | nil => exact l.ending.trans l.whole.ending.symm
  | cons ht _ => exact ht.1

/-- What can be taken off the first row can be taken off the second. -/
theorem Alike.takes (h : l.Alike tokens tokens') {k : Token.Kind} {t : Token} {rest : List Token}
    (ht : l.left.Takes k tokens t rest) :
    ∃ t' rest', l.right.Takes k tokens' t' rest' ∧ l.SameStart t.span t'.span ∧
      l.Alike rest rest' := by
  obtain ⟨rfl, hk, _⟩ := ht
  obtain ⟨t', rest', rfl, hkind, hstart, hrest⟩ := h.eq_cons
  exact ⟨t', rest', ⟨rfl, hkind.trans hk, l.whole.reach_eq _⟩, hstart, hrest⟩

/-- The current tokens start alike if there is one to take. At the end of the file they need not. -/
theorem Alike.current_start (h : l.Alike tokens tokens') {k : Token.Kind} {t : Token}
    {rest : List Token} (ht : l.left.Takes k tokens t rest) :
    l.SameStart (l.left.current tokens).span (l.right.current tokens').span := by
  obtain ⟨rfl, _, _⟩ := ht
  obtain ⟨t', rest', rfl, _, hstart, _⟩ := h.eq_cons
  exact hstart

end Layouts

namespace Parser

open Layouts Grammar

variable {l : Layouts}

/-! ## Expressions -/

/-- Joining the same operands gives the same, and it begins where the first operand begins. -/
theorem joined_same (op : BinaryOp) (a b a' b' : Expr) (ha : l.SameExpr a a')
    (hb : l.SameExpr b b') : l.SameExpr (joined l.left op a b) (joined l.right op a' b') := by
  have hs := ha.2.merge hb.2
  refine ⟨?_, hs⟩
  rw [joined, joined, Expr.relabel, Expr.relabel, ha.1, hb.1, hs.place_eq]

theorem relabel_exprs_eq {es es' : List Expr} (h : List.Forall₂ l.SameExpr es es') :
    relabelExprs l.relabel es = relabelExprs l.relabel es' := by
  induction h with
  | nil => rfl
  | cons he _ ih => rw [relabelExprs, relabelExprs, he.1, ih]

/-- What a token denotes depends on its kind alone. -/
theorem literal?_same {t t' : Token} (hk : t.kind = t'.kind) {v : Literal}
    (h : literal? t = some (.ok v)) : literal? t' = some (.ok v) := by
  rw [literal?_eq_ok_iff] at h ⊢
  exact hk ▸ h

/-- Where the first reading read an expression, the second reads the same from tokens that are
alike. -/
def followedExprs (l : Layouts) : ExprMotive where
  expr tokens e rest :=
    ∀ tokens', l.Alike tokens tokens' → l.Answers l.SameExpr (expr l.right tokens') e rest
  operators tokens chain rest := ∀ tokens', l.Alike tokens tokens' →
    l.Answers (List.Forall₂ fun x x' => x.1 = x'.1 ∧ l.SameExpr x.2 x'.2)
      (operators l.right tokens') chain rest
  operand tokens e rest :=
    ∀ tokens', l.Alike tokens tokens' → l.Answers l.SameExpr (operand l.right tokens') e rest
  primary tokens e rest :=
    ∀ tokens', l.Alike tokens tokens' → l.Answers l.SameExpr (primary l.right tokens') e rest
  callOrLocation tokens e rest := ∀ tokens', l.Alike tokens tokens' →
    l.Answers l.SameExpr (callOrLocation l.right tokens') e rest
  arguments tokens args rest := ∀ tokens', l.Alike tokens tokens' →
    l.Answers (List.Forall₂ l.SameExpr) (arguments l.right tokens') args rest
  argumentList tokens args rest := ∀ tokens', l.Alike tokens tokens' →
    l.Answers (List.Forall₂ l.SameExpr) (argumentList l.right tokens') args rest

/-- The second reading goes the way of the first. What the way depends on are kinds, which are
the same. -/
theorem followedExprs_handedOn : (followedExprs l).HandedOn l.left where
  expr hfirst hchain tokens' ha := by
    obtain ⟨first', mid', ho', hfirst, hmid⟩ := hfirst tokens' ha
    obtain ⟨chain', rest', hc', hchain, hrest⟩ := hchain mid' hmid
    exact ⟨_, rest', expr_gives.mpr ⟨first', mid', chain', ho', hc', rfl⟩,
      Chain.assemble_related joined_same hfirst hchain, hrest⟩
  noOperator hno tokens' ha := by
    rw [ha.kinds_eq] at hno
    exact ⟨[], tokens', operators_gives.mpr (.inl ⟨hno, rfl, rfl⟩), .nil, ha⟩
  operator ht hright hmore tokens' ha := by
    obtain ⟨t', mid', ht', _, hmid⟩ := ha.takes ht
    obtain ⟨right', after', ho', hright, hafter⟩ := hright mid' hmid
    obtain ⟨more', rest', hc', hmore, hrest⟩ := hmore after' hafter
    exact ⟨_, rest', operators_gives.mpr (.inr ⟨_, t', mid', right', after', more', ht', ho', hc',
      rfl⟩), .cons ⟨rfl, hright⟩ hmore, hrest⟩
  operand hno hprimary tokens' ha := by
    rw [ha.kinds_eq] at hno
    obtain ⟨e', rest', hp', he, hrest⟩ := hprimary tokens' ha
    exact ⟨e', rest', operand_gives.mpr (.inl ⟨hno, hp'⟩), he, hrest⟩
  unary ht hinner tokens' ha := by
    obtain ⟨t', mid', ht', hstart, hmid⟩ := ha.takes ht
    obtain ⟨inner', rest', ho', hinner, hrest⟩ := hinner mid' hmid
    have hs := hstart.merge hinner.2
    refine ⟨_, rest', operand_gives.mpr (.inr ⟨_, t', mid', inner', ht', ho', rfl⟩), ⟨?_, hs⟩,
      hrest⟩
    rw [Expr.relabel, Expr.relabel, hinner.1, hs.place_eq]
  parens ht hinner hclose tokens' ha := by
    obtain ⟨t', mid', ht', _, hmid⟩ := ha.takes ht
    obtain ⟨e', after', he', hsame, hafter⟩ := hinner mid' hmid
    obtain ⟨close', rest', hc', _, hrest⟩ := hafter.takes hclose
    -- the parentheses are no part of the expression
    exact ⟨e', rest', primary_gives.mpr (.inl ⟨t', mid', after', close', ht', he', hc'⟩), hsame,
      hrest⟩
  named hx h tokens' ha := by
    rw [ha.kinds_eq] at hx
    obtain ⟨e', rest', he', hsame, hrest⟩ := h tokens' ha
    exact ⟨e', rest', primary_gives.mpr (.inr (.inl ⟨_, hx, he'⟩)), hsame, hrest⟩
  literal ht hv tokens' ha := by
    obtain ⟨t', rest', ht', hs, hrest⟩ := ha.takes ht
    have hv' := literal?_same ht'.2.1.symm hv
    rw [← ht'.2.1] at ht'
    refine ⟨_, rest', primary_gives.mpr (.inr (.inr ⟨t', _, ht', hv', rfl⟩)), ⟨?_, hs⟩, hrest⟩
    rw [Expr.relabel, Expr.relabel, hs.place_eq]
  call ht hu hargs hclose tokens' ha := by
    obtain ⟨t', mid', ht', hstart, hmid⟩ := ha.takes ht
    obtain ⟨u', first', hu', _, hfirst⟩ := hmid.takes hu
    obtain ⟨args', last', hargs', hsame, hlast⟩ := hargs first' hfirst
    obtain ⟨close', rest', hc', hstop, hrest⟩ := hlast.takes hclose
    have hs := hstart.merge hstop
    refine ⟨_, rest', callOrLocation_gives.mpr ⟨_, t', mid', ht', .inl ⟨u', args', first', last',
      close', hu', hargs', hc', rfl⟩⟩, ⟨?_, hs⟩, hrest⟩
    rw [Expr.relabel, Expr.relabel, relabel_exprs_eq hsame, hs.place_eq]
  element ht hu hindex hclose tokens' ha := by
    obtain ⟨t', mid', ht', hstart, hmid⟩ := ha.takes ht
    obtain ⟨u', first', hu', _, hfirst⟩ := hmid.takes hu
    obtain ⟨i', last', hi', hsame, hlast⟩ := hindex first' hfirst
    obtain ⟨close', rest', hc', hstop, hrest⟩ := hlast.takes hclose
    have hs := hstart.merge hstop
    refine ⟨_, rest', callOrLocation_gives.mpr ⟨_, t', mid', ht', .inr (.inl ⟨u', i', first', last',
      close', hu', hi', hc', rfl⟩)⟩, ⟨?_, hs⟩, hrest⟩
    rw [Expr.relabel, Expr.relabel, hsame.1, hs.place_eq]
  scalar ht hno hno' tokens' ha := by
    obtain ⟨t', rest', ht', hstart, hrest⟩ := ha.takes ht
    rw [hrest.kinds_eq] at hno hno'
    refine ⟨_, rest', callOrLocation_gives.mpr ⟨_, t', rest', ht', .inr (.inr ⟨hno, hno', rfl,
      rfl⟩)⟩, ⟨?_, hstart⟩, hrest⟩
    rw [Expr.relabel, Expr.relabel, hstart.place_eq]
  noArgument hk tokens' ha := by
    rw [ha.current_kind] at hk
    exact ⟨[], tokens', arguments_gives.mpr (.inl ⟨hk, rfl, rfl⟩), .nil, ha⟩
  arguments hk hargs tokens' ha := by
    rw [ha.current_kind] at hk
    obtain ⟨args', rest', hargs', hsame, hrest⟩ := hargs tokens' ha
    exact ⟨args', rest', arguments_gives.mpr (.inr ⟨hk, hargs'⟩), hsame, hrest⟩
  argument hfirst hno tokens' ha := by
    obtain ⟨e', rest', he', hsame, hrest⟩ := hfirst tokens' ha
    rw [hrest.kinds_eq] at hno
    exact ⟨_, rest', argumentList_gives.mpr ⟨e', rest', he', .inr ⟨hno, rfl, rfl⟩⟩,
      .cons hsame .nil, hrest⟩
  moreArguments hfirst ht hothers tokens' ha := by
    obtain ⟨e', mid', he', hsame, hmid⟩ := hfirst tokens' ha
    obtain ⟨t', after', ht', _, hafter⟩ := hmid.takes ht
    obtain ⟨es', rest', hes', hothers, hrest⟩ := hothers after' hafter
    exact ⟨_, rest', argumentList_gives.mpr ⟨e', mid', he', .inl ⟨t', after', es', ht', hes',
      rfl⟩⟩, .cons hsame hothers, hrest⟩

/-- The same expression is read from both texts. -/
theorem expr_follows {tokens tokens' : List Token} (ha : l.Alike tokens tokens') :
    l.Follows l.SameExpr (expr l.left tokens) (expr l.right tokens') :=
  fun _ _ h => followedExprs_handedOn.of_expr h tokens' ha

theorem callOrLocation_follows {tokens tokens' : List Token} (ha : l.Alike tokens tokens') :
    l.Follows l.SameExpr (callOrLocation l.left tokens) (callOrLocation l.right tokens') :=
  fun _ _ h => followedExprs_handedOn.of_callOrLocation h tokens' ha

/-! ## Declarations and statements -/

/-- A length is the same, without any place in it. -/
theorem arrayLength_follows {tokens tokens' : List Token} (ha : l.Alike tokens tokens') :
    l.Follows Eq (arrayLength l.left tokens) (arrayLength l.right tokens') := by
  intro n rest h
  obtain ⟨text, t, ht, hn⟩ := arrayLength_gives.mp h
  obtain ⟨t', rest', ht', _, hrest⟩ := ha.takes ht
  exact ⟨n, rest', arrayLength_gives.mpr ⟨text, t', ht', hn⟩, rfl, hrest⟩

/-- The rest of a declaration, if both declarations started alike. -/
theorem varRest_follows {tokens tokens' : List Token} (ha : l.Alike tokens tokens') {x : String}
    {ty : Ty} {start start' : Span} (hstart : l.SameStart start start') :
    l.Follows (fun d d' => d.relabel l.relabel = d'.relabel l.relabel)
      (varRest l.left x ty start tokens) (varRest l.right x ty start' tokens') := by
  intro d rest h
  rcases varRest_gives.mp h with ⟨t₁, rest₁, n, rest₂, t₃, rest₃, close, h₁, hn, h₃, hc, rfl⟩ |
    ⟨close, hc, rfl⟩
  · obtain ⟨t₁', rest₁', h₁', _, ha₁⟩ := ha.takes h₁
    obtain ⟨_, rest₂', hn', rfl, ha₂⟩ := arrayLength_follows ha₁ _ _ hn
    obtain ⟨t₃', rest₃', h₃', _, ha₃⟩ := ha₂.takes h₃
    obtain ⟨close', rest', hc', hstop, hrest⟩ := ha₃.takes hc
    refine ⟨_, rest', varRest_gives.mpr (.inl ⟨t₁', rest₁', n, rest₂', t₃', rest₃', close', h₁',
      hn', h₃', hc', rfl⟩), ?_, hrest⟩
    exact congrArg (VarDecl.mk x ty (some n)) (hstart.merge hstop).place_eq
  · obtain ⟨close', rest', hc', hstop, hrest⟩ := ha.takes hc
    refine ⟨_, rest', varRest_gives.mpr (.inr ⟨close', hc', rfl⟩), ?_, hrest⟩
    exact congrArg (VarDecl.mk x ty none) (hstart.merge hstop).place_eq

theorem varDecl_follows {tokens tokens' : List Token} (ha : l.Alike tokens tokens') :
    l.Follows (fun d d' => d.relabel l.relabel = d'.relabel l.relabel)
      (varDecl l.left tokens) (varDecl l.right tokens') := by
  intro d rest h
  obtain ⟨k, ty, t, rest₁, x, u, rest₂, ht, hk, hu, hd⟩ := varDecl_gives.mp h
  obtain ⟨t', rest₁', ht', hstart, ha₁⟩ := ha.takes ht
  obtain ⟨u', rest₂', hu', _, ha₂⟩ := ha₁.takes hu
  obtain ⟨d', rest', hd', hsame, hrest⟩ := varRest_follows ha₂ hstart _ _ hd
  exact ⟨d', rest', varDecl_gives.mpr ⟨k, ty, t', rest₁', x, u', rest₂', ht', hk, hu', hd'⟩, hsame,
    hrest⟩

/-- The same declarations are read from both texts. -/
theorem varDecls_follows {tokens tokens' : List Token} (ha : l.Alike tokens tokens') :
    l.Follows (fun ds ds' => ds.map (·.relabel l.relabel) = ds'.map (·.relabel l.relabel))
      (varDecls l.left tokens) (varDecls l.right tokens') := by
  intro ds rest h
  induction h using varDecls_induction generalizing tokens' with
  | nil _ hk =>
    rw [ha.current_kind] at hk
    exact ⟨[], tokens', varDecls_gives.mpr (.inr ⟨hk, rfl, rfl⟩), rfl, ha⟩
  | @cons _ _ _ d others _ _ hk hd ih =>
    rw [ha.current_kind] at hk
    obtain ⟨d', mid', hd', hsame, hmid⟩ := varDecl_follows ha _ _ hd
    obtain ⟨others', rest', hds', hothers, hrest⟩ := ih hmid
    refine ⟨_, rest', varDecls_gives.mpr (.inl ⟨d', mid', others', hk, hd', hds', rfl⟩), ?_, hrest⟩
    show (d :: others).map _ = (d' :: others').map _
    rw [List.map_cons, List.map_cons, hsame, hothers]

theorem condition_follows {tokens tokens' : List Token} (ha : l.Alike tokens tokens') :
    l.Follows l.SameExpr (condition l.left tokens) (condition l.right tokens') := by
  intro e rest h
  obtain ⟨t, rest₁, rest₂, u, ht, he, hu⟩ := condition_gives.mp h
  obtain ⟨t', rest₁', ht', _, ha₁⟩ := ha.takes ht
  obtain ⟨e', rest₂', he', hsame, ha₂⟩ := expr_follows ha₁ _ _ he
  obtain ⟨u', rest', hu', _, hrest⟩ := ha₂.takes hu
  exact ⟨e', rest', condition_gives.mpr ⟨t', rest₁', rest₂', u', ht', he', hu'⟩, hsame, hrest⟩

/-- A statement up to its semicolon, if both readings make the same of its place. -/
theorem finish_follows {tokens tokens' : List Token} (ha : l.Alike tokens tokens')
    {start start' : Span} (hstart : l.SameStart start start') {make make' : Place → Stmt}
    (hmake : ∀ p p', l.relabel.place p = l.relabel.place p' →
      (make p).relabel l.relabel = (make' p').relabel l.relabel) :
    l.Follows (fun s s' => s.relabel l.relabel = s'.relabel l.relabel)
      (finish l.left start make tokens) (finish l.right start' make' tokens') := by
  intro s rest h
  obtain ⟨close, hc, rfl⟩ := finish_gives.mp h
  obtain ⟨close', rest', hc', hstop, hrest⟩ := ha.takes hc
  exact ⟨_, rest', finish_gives.mpr ⟨close', hc', rfl⟩, hmake _ _ (hstart.merge hstop).place_eq,
    hrest⟩

/-- Both readings see a semicolon, or both read a value. -/
theorem returnValue_follows {tokens tokens' : List Token} (ha : l.Alike tokens tokens') :
    l.Follows (fun v v' => v.map (·.relabel l.relabel) = v'.map (·.relabel l.relabel))
      (returnValue l.left tokens) (returnValue l.right tokens') := by
  intro value rest h
  have hcurrent := ha.current_kind
  rcases returnValue_gives.mp h with ⟨hk, rfl, rfl⟩ | ⟨e, hk, he, rfl⟩
  · rw [hcurrent] at hk
    exact ⟨none, tokens', returnValue_gives.mpr (.inl ⟨hk, rfl, rfl⟩), rfl, ha⟩
  · rw [hcurrent] at hk
    obtain ⟨e', rest', he', hsame, hrest⟩ := expr_follows ha _ _ he
    exact ⟨some e', rest', returnValue_gives.mpr (.inr ⟨e', hk, he', rfl⟩),
      congrArg some hsame.1, hrest⟩

/-- A call or an assignment, if both readings know which it is. -/
theorem simpleStmt_follows {tokens tokens' : List Token} (ha : l.Alike tokens tokens')
    {start start' : Span} (hstart : l.SameStart start start') (isCall : Bool) :
    l.Follows (fun s s' => s.relabel l.relabel = s'.relabel l.relabel)
      (simpleStmt l.left start isCall tokens) (simpleStmt l.right start' isCall tokens') := by
  intro s rest h
  cases isCall with
  | true =>
    obtain ⟨target, mid, hc, hf⟩ := simpleStmt_gives_call.mp h
    obtain ⟨target', mid', hc', hsame, hmid⟩ := callOrLocation_follows ha _ _ hc
    have hmake : ∀ p p', l.relabel.place p = l.relabel.place p' →
        (Stmt.call p target).relabel l.relabel = (Stmt.call p' target').relabel l.relabel := by
      intro p p' hp
      rw [Stmt.relabel, Stmt.relabel, hp, hsame.1]
    obtain ⟨s', rest', hf', hs, hrest⟩ := finish_follows hmid hstart hmake _ _ hf
    exact ⟨s', rest', simpleStmt_gives_call.mpr ⟨target', mid', hc', hf'⟩, hs, hrest⟩
  | false =>
    obtain ⟨target, rest₁, t, rest₂, value, rest₃, hc, ht, hv, hf⟩ := simpleStmt_gives_assign.mp h
    obtain ⟨target', rest₁', hc', htarget, ha₁⟩ := callOrLocation_follows ha _ _ hc
    obtain ⟨t', rest₂', ht', _, ha₂⟩ := ha₁.takes ht
    obtain ⟨value', rest₃', hv', hvalue, ha₃⟩ := expr_follows ha₂ _ _ hv
    have hmake : ∀ p p', l.relabel.place p = l.relabel.place p' →
        (Stmt.assign p target value).relabel l.relabel =
          (Stmt.assign p' target' value').relabel l.relabel := by
      intro p p' hp
      rw [Stmt.relabel, Stmt.relabel, hp, htarget.1, hvalue.1]
    obtain ⟨s', rest', hf', hs, hrest⟩ := finish_follows ha₃ hstart hmake _ _ hf
    exact ⟨s', rest', simpleStmt_gives_assign.mpr ⟨target', rest₁', t', rest₂', value', rest₃', hc',
      ht', hv', hf'⟩, hs, hrest⟩

/-- Where the first reading read a block or a statement, the second reads the same from tokens
that are alike. -/
def followedStmts (l : Layouts) : StmtMotive where
  block tokens b rest :=
    ∀ tokens', l.Alike tokens tokens' → l.Answers l.SameBlock (block l.right tokens') b rest
  stmts tokens ss rest := ∀ tokens', l.Alike tokens tokens' →
    l.Answers (fun ss ss' => relabelStmts l.relabel ss = relabelStmts l.relabel ss')
      (stmts l.right tokens') ss rest
  stmt tokens s rest := ∀ tokens', l.Alike tokens tokens' →
    l.Answers (fun s s' => s.relabel l.relabel = s'.relabel l.relabel) (stmt l.right tokens') s rest

/-- The second reading goes the way of the first. -/
theorem followedStmts_handedOn : (followedStmts l).HandedOn l.left where
  block _ hopen hlocals hstatements hclose tokens' ha := by
    obtain ⟨first', rest₁', ht', hstart, ha₁⟩ := ha.takes hopen
    obtain ⟨locals', rest₂', hd', hlocals, ha₂⟩ := varDecls_follows ha₁ _ _ hlocals
    obtain ⟨statements', rest₃', hs', hstatements, ha₃⟩ := hstatements rest₂' ha₂
    obtain ⟨last', rest', hu', hstop, hrest⟩ := ha₃.takes hclose
    have hspan := hstart.merge hstop
    refine ⟨_, rest', block_gives.mpr ⟨first', rest₁', locals', rest₂', statements', rest₃', last',
      ht', hd', hs', hu', rfl⟩, ⟨?_, hspan⟩, hrest⟩
    rw [Block.relabel, Block.relabel, hlocals, hstatements, hspan.place_eq]
  noStmt hk tokens' ha := by
    rw [ha.current_kind] at hk
    exact ⟨[], tokens', stmts_gives.mpr (.inl ⟨hk, rfl, rfl⟩), rfl, ha⟩
  moreStmts {_ _ _ s others} hk hfirst hothers tokens' ha := by
    rw [ha.current_kind] at hk
    obtain ⟨s', mid', hs', hsame, hmid⟩ := hfirst tokens' ha
    obtain ⟨others', rest', hss', hothers, hrest⟩ := hothers mid' hmid
    refine ⟨_, rest', stmts_gives.mpr (.inr ⟨s', mid', others', hk, hs', hss', rfl⟩), ?_, hrest⟩
    show relabelStmts _ (s :: others) = relabelStmts _ (s' :: others')
    rw [relabelStmts, relabelStmts, hsame, hothers]
  -- a conditional ends where its last block ends
  ifThen {_ _ _ _ test b} _ hk htest hbody hno tokens' ha := by
    obtain ⟨t', mid', rfl, hkind, hstart, hmid⟩ := ha.eq_cons
    obtain ⟨test', rest₁', htest', hsame, ha₁⟩ := condition_follows hmid _ _ htest
    obtain ⟨b', rest', hb', hbody, hrest⟩ := hbody rest₁' ha₁
    rw [hrest.kinds_eq] at hno
    refine ⟨_, rest', (stmt_gives_if (hkind.trans hk)).mpr ⟨l.whole.reach_eq mid', test', rest₁',
      b', rest', htest', hb', .inr ⟨hno, rfl, rfl⟩⟩, ?_, hrest⟩
    show (Stmt.conditional _ test b none).relabel _ = (Stmt.conditional _ test' b' none).relabel _
    rw [Stmt.relabel, Stmt.relabel, hsame.1, hbody.1, (hstart.merge hbody.2).place_eq]
  ifElse {_ _ _ _ _ _ _ test b c} _ hk htest hbody helse hother tokens' ha := by
    obtain ⟨t', mid', rfl, hkind, hstart, hmid⟩ := ha.eq_cons
    obtain ⟨test', rest₁', htest', hsame, ha₁⟩ := condition_follows hmid _ _ htest
    obtain ⟨b', rest₂', hb', hbody, ha₂⟩ := hbody rest₁' ha₁
    obtain ⟨u', rest₃', hu', _, ha₃⟩ := ha₂.takes helse
    obtain ⟨c', rest', hc', hother, hrest⟩ := hother rest₃' ha₃
    refine ⟨_, rest', (stmt_gives_if (hkind.trans hk)).mpr ⟨l.whole.reach_eq mid', test', rest₁',
      b', rest₂', htest', hb', .inl ⟨u', rest₃', c', hu', hc', rfl⟩⟩, ?_, hrest⟩
    show (Stmt.conditional _ test b (some c)).relabel _ =
      (Stmt.conditional _ test' b' (some c')).relabel _
    rw [Stmt.relabel, Stmt.relabel, hsame.1, hbody.1, hother.1, (hstart.merge hother.2).place_eq]
  loop {_ _ _ _ test b} _ hk htest hbody tokens' ha := by
    obtain ⟨t', mid', rfl, hkind, hstart, hmid⟩ := ha.eq_cons
    obtain ⟨test', rest₁', htest', hsame, ha₁⟩ := condition_follows hmid _ _ htest
    obtain ⟨b', rest', hb', hbody, hrest⟩ := hbody rest₁' ha₁
    refine ⟨_, rest', (stmt_gives_while (hkind.trans hk)).mpr ⟨l.whole.reach_eq mid', test', rest₁',
      b', htest', hb', rfl⟩, ?_, hrest⟩
    show (Stmt.loop _ test b).relabel _ = (Stmt.loop _ test' b').relabel _
    rw [Stmt.relabel, Stmt.relabel, hsame.1, hbody.1, (hstart.merge hbody.2).place_eq]
  inner {_ _ _ b} _ hk hbody tokens' ha := by
    obtain ⟨b', rest', hb', hbody, hrest⟩ := hbody tokens' ha
    obtain ⟨t', mid', rfl, hkind, _, _⟩ := ha.eq_cons
    refine ⟨_, rest', (stmt_gives_brace (hkind.trans hk)).mpr ⟨b', hb', rfl⟩, ?_, hrest⟩
    show (Stmt.block _ b).relabel _ = (Stmt.block _ b').relabel _
    rw [Stmt.relabel, Stmt.relabel, hbody.1, hbody.2.place_eq]
  ret {_ _ _ _ value _} _ hk hv hf tokens' ha := by
    obtain ⟨t', mid', rfl, hkind, hstart, hmid⟩ := ha.eq_cons
    obtain ⟨value', rest₁', hv', hvalue, ha₁⟩ := returnValue_follows hmid _ _ hv
    have hmake : ∀ p p', l.relabel.place p = l.relabel.place p' →
        (Stmt.ret p value).relabel l.relabel = (Stmt.ret p' value').relabel l.relabel := by
      intro p p' hp
      rw [Stmt.relabel, Stmt.relabel, hp, hvalue]
    obtain ⟨s', rest', hf', hs, hrest⟩ := finish_follows ha₁ hstart hmake _ _ hf
    exact ⟨s', rest', (stmt_gives_return (hkind.trans hk)).mpr ⟨l.whole.reach_eq mid', value',
      rest₁', hv', hf'⟩, hs, hrest⟩
  leave _ hk hf tokens' ha := by
    obtain ⟨t', mid', rfl, hkind, hstart, hmid⟩ := ha.eq_cons
    have hmake : ∀ p p', l.relabel.place p = l.relabel.place p' →
        (Stmt.break p).relabel l.relabel = (Stmt.break p').relabel l.relabel :=
      fun _ _ hp => congrArg Stmt.break hp
    obtain ⟨s', rest', hf', hs, hrest⟩ := finish_follows hmid hstart hmake _ _ hf
    exact ⟨s', rest', (stmt_gives_break (hkind.trans hk)).mpr ⟨l.whole.reach_eq mid', hf'⟩, hs,
      hrest⟩
  again _ hk hf tokens' ha := by
    obtain ⟨t', mid', rfl, hkind, hstart, hmid⟩ := ha.eq_cons
    have hmake : ∀ p p', l.relabel.place p = l.relabel.place p' →
        (Stmt.continue p).relabel l.relabel = (Stmt.continue p').relabel l.relabel :=
      fun _ _ hp => congrArg Stmt.continue hp
    obtain ⟨s', rest', hf', hs, hrest⟩ := finish_follows hmid hstart hmake _ _ hf
    exact ⟨s', rest', (stmt_gives_continue (hkind.trans hk)).mpr ⟨l.whole.reach_eq mid', hf'⟩, hs,
      hrest⟩
  simple _ hk h tokens' ha := by
    obtain ⟨t', mid', rfl, hkind, hstart, hmid⟩ := ha.eq_cons
    -- the token behind the name tells calls and assignments apart
    rw [hmid.current_kind] at h
    obtain ⟨s', rest', hs', hsame, hrest⟩ := simpleStmt_follows ha hstart _ _ _ h
    exact ⟨s', rest', (stmt_gives_name (hkind.trans hk)).mpr ⟨l.whole.reach_eq mid', hs'⟩, hsame,
      hrest⟩

/-- The same block is read from both texts. -/
theorem block_follows {tokens tokens' : List Token} (ha : l.Alike tokens tokens') :
    l.Follows l.SameBlock (block l.left tokens) (block l.right tokens') :=
  fun _ _ h => followedStmts_handedOn.of_block h tokens' ha

/-! ## Programs -/

/-- The same parameters, since both readings see the same commas. -/
theorem paramList_follows {tokens tokens' : List Token} (ha : l.Alike tokens tokens') :
    l.Follows (fun ps ps' => ps.map (·.relabel l.relabel) = ps'.map (·.relabel l.relabel))
      (paramList l.left tokens) (paramList l.right tokens') := by
  intro ps rest h
  induction h using paramList_induction generalizing tokens' with
  | @one k ty t u x _ _ _ _ ht hk hu hno =>
    obtain ⟨t', rest₁', ht', hstart, ha₁⟩ := ha.takes ht
    obtain ⟨u', rest', hu', hstop, hrest⟩ := ha₁.takes hu
    rw [hrest.kinds_eq] at hno
    refine ⟨_, rest', paramList_gives.mpr ⟨k, ty, t', rest₁', x, u', rest', ht', hk, hu',
      .inr ⟨hno, rfl, rfl⟩⟩, ?_, hrest⟩
    show [(Param.mk x ty _).relabel l.relabel] = [(Param.mk x ty _).relabel l.relabel]
    rw [Param.relabel, Param.relabel, (hstart.merge hstop).place_eq]
  | @more k ty t u x _ _ _ _ _ others _ _ _ ht hk hu hc ih =>
    obtain ⟨t', rest₁', ht', hstart, ha₁⟩ := ha.takes ht
    obtain ⟨u', rest₂', hu', hstop, ha₂⟩ := ha₁.takes hu
    obtain ⟨c', rest₃', hc', _, ha₃⟩ := ha₂.takes hc
    obtain ⟨others', rest', hps', hothers, hrest⟩ := ih ha₃
    refine ⟨_, rest', paramList_gives.mpr ⟨k, ty, t', rest₁', x, u', rest₂', ht', hk, hu',
      .inl ⟨c', rest₃', others', hc', hps', rfl⟩⟩, ?_, hrest⟩
    show (_ :: others).map _ = (_ :: others').map _
    rw [List.map_cons, List.map_cons, hothers, Param.relabel, Param.relabel,
      (hstart.merge hstop).place_eq]

theorem params_follows {tokens tokens' : List Token} (ha : l.Alike tokens tokens') :
    l.Follows (fun ps ps' => ps.map (·.relabel l.relabel) = ps'.map (·.relabel l.relabel))
      (params l.left tokens) (params l.right tokens') := by
  intro ps rest h
  have hcurrent := ha.current_kind
  rcases params_gives.mp h with ⟨hk, rfl, rfl⟩ | ⟨hk, hps⟩
  · rw [hcurrent] at hk
    exact ⟨[], tokens', params_gives.mpr (.inl ⟨hk, rfl, rfl⟩), rfl, ha⟩
  · rw [hcurrent] at hk
    obtain ⟨ps', rest', hps', hsame, hrest⟩ := paramList_follows ha _ _ hps
    exact ⟨ps', rest', params_gives.mpr (.inr ⟨hk, hps'⟩), hsame, hrest⟩

/-- The rest of a function, if both functions started alike. -/
theorem functionRest_follows {tokens tokens' : List Token} (ha : l.Alike tokens tokens')
    {x : String} {ty : Ty} {start start' : Span} (hstart : l.SameStart start start') :
    l.Follows (fun f f' => f.relabel l.relabel = f'.relabel l.relabel)
      (functionRest l.left x ty start tokens) (functionRest l.right x ty start' tokens') := by
  intro f rest h
  obtain ⟨t, rest₁, ps, rest₂, u, rest₃, body, ht, hps, hu, hb, rfl⟩ := functionRest_gives.mp h
  obtain ⟨t', rest₁', ht', _, ha₁⟩ := ha.takes ht
  obtain ⟨ps', rest₂', hps', hparams, ha₂⟩ := params_follows ha₁ _ _ hps
  obtain ⟨u', rest₃', hu', _, ha₃⟩ := ha₂.takes hu
  obtain ⟨body', rest', hb', hbody, hrest⟩ := block_follows ha₃ _ _ hb
  refine ⟨_, rest', functionRest_gives.mpr ⟨t', rest₁', ps', rest₂', u', rest₃', body', ht', hps',
    hu', hb', rfl⟩, ?_, hrest⟩
  -- the line of a function is the one on which it starts, whatever its body says
  have hplace : l.relabel.place ⟨start.merge body.place.span, l.left.lines.lineOf start.start⟩ =
      l.relabel.place ⟨start'.merge body'.place.span, l.right.lines.lineOf start'.start⟩ :=
    congrArg (Place.mk (.point 0)) hstart
  show (Function.mk x ty ps body _ none).relabel _ = (Function.mk x ty ps' body' _ none).relabel _
  rw [Function.relabel, Function.relabel, hparams, hbody.1, hplace]

/-- The same function or variable, whether or not the word before it is there: it is there in both
texts or in neither. -/
theorem topLevel_follows {tokens tokens' : List Token} (ha : l.Alike tokens tokens') :
    l.Follows (fun item item' => item.relabel l.relabel = item'.relabel l.relabel)
      (topLevel l.left tokens) (topLevel l.right tokens') := by
  intro item rest h
  obtain ⟨rest₁, k, ty, t, rest₂, x, u, rest₃, hdef, ht, hk, hu, h⟩ := topLevel_gives.mp h
  -- the item starts at `def`, or at its type if there is no `def`
  obtain ⟨rest₁', hdef', ha₁, hstart⟩ : ∃ rest₁',
      ((∃ d', l.right.Takes (.word .defWord) tokens' d' rest₁') ∨
        ((kinds tokens').head? ≠ some (.word .defWord) ∧ rest₁' = tokens')) ∧
      l.Alike rest₁ rest₁' ∧
      l.SameStart (l.left.current tokens).span (l.right.current tokens').span := by
    rcases hdef with ⟨d, hd⟩ | ⟨hno, rfl⟩
    · obtain ⟨d', rest₁', hd', _, ha₁⟩ := ha.takes hd
      exact ⟨rest₁', .inl ⟨d', hd'⟩, ha₁, ha.current_start hd⟩
    · rw [ha.kinds_eq] at hno
      exact ⟨tokens', .inr ⟨hno, rfl⟩, ha, ha.current_start ht⟩
  obtain ⟨t', rest₂', ht', _, ha₂⟩ := ha₁.takes ht
  obtain ⟨u', rest₃', hu', _, ha₃⟩ := ha₂.takes hu
  have hcurrent := ha₃.current_kind
  rcases h with ⟨f, hp, hf, rfl⟩ | ⟨d, hp, hd, rfl⟩
  · rw [hcurrent] at hp
    obtain ⟨f', rest', hf', hsame, hrest⟩ := functionRest_follows ha₃ hstart _ _ hf
    exact ⟨.function f', rest', topLevel_gives.mpr ⟨rest₁', k, ty, t', rest₂', x, u', rest₃', hdef',
      ht', hk, hu', .inl ⟨f', hp, hf', rfl⟩⟩, congrArg TopLevel.function hsame, hrest⟩
  · rw [hcurrent] at hp
    obtain ⟨d', rest', hd', hsame, hrest⟩ := varRest_follows ha₃ hstart _ _ hd
    exact ⟨.global d', rest', topLevel_gives.mpr ⟨rest₁', k, ty, t', rest₂', x, u', rest₃', hdef',
      ht', hk, hu', .inr ⟨d', hp, hd', rfl⟩⟩, congrArg TopLevel.global hsame, hrest⟩

/-- The same program is read from both texts. -/
theorem topLevels_follows {tokens tokens' : List Token} (ha : l.Alike tokens tokens')
    {items : List TopLevel} (h : topLevels l.left tokens = .ok items) :
    ∃ items', topLevels l.right tokens' = .ok items' ∧
      items.map (·.relabel l.relabel) = items'.map (·.relabel l.relabel) := by
  induction h using topLevels_induction generalizing tokens' with
  | nil _ hk =>
    rw [ha.current_kind] at hk
    exact ⟨[], topLevels_eq_ok_iff.mpr (.inl ⟨hk, rfl⟩), rfl⟩
  | cons _ _ hk hi ih =>
    rw [ha.current_kind] at hk
    obtain ⟨item', mid', hi', hsame, hmid⟩ := topLevel_follows ha _ _ hi
    obtain ⟨others', hothers', hmore⟩ := ih hmid
    refine ⟨item' :: others', topLevels_eq_ok_iff.mpr (.inr ⟨item', mid', others', hk, hi',
      hothers', rfl⟩), ?_⟩
    rw [List.map_cons, List.map_cons, hsame, hmore]

end Parser

/-! ## Two texts -/

namespace Layouts

variable {source source' : String}

/-- Two texts whose lines do not count. -/
def unlined (source source' : String) (h : (Stream.ofSource source').fault = none) : Layouts where
  keep _ := 0
  left := .ofSource source
  right := .ofSource source'
  ending := rfl
  whole := ⟨rfl, h⟩
  merge _ _ := rfl

/-- Two texts whose lines count. -/
def lined (source source' : String) (h : (Stream.ofSource source').fault = none) : Layouts where
  keep := id
  left := .ofSource source
  right := .ofSource source'
  ending := rfl
  whole := ⟨rfl, h⟩
  merge {a b a' b'} ha hb := by
    -- of two spans, the one that starts first gives the line
    have hleft := Lines.lineOf_min source.toList a.start b.start
    have hright := Lines.lineOf_min source'.toList a'.start b'.start
    exact hleft.trans ((congrArg₂ min ha hb).trans hright.symm)

/-- The lines on which the tokens of a text start. -/
def startLines (source : String) (tokens : List Token) : List Nat :=
  tokens.map fun t => (Lines.ofChars source.toList).lineOf t.span.start

/-- Rows are alike if they have the same kinds and start on the same lines as far as that
counts. -/
theorem alike_of_lines {l : Layouts} {tokens tokens' : List Token}
    (hk : kinds tokens = kinds tokens')
    (hlines : tokens.map (fun t => l.keep (l.left.lines.lineOf t.span.start)) =
      tokens'.map fun t => l.keep (l.right.lines.lineOf t.span.start)) :
    l.Alike tokens tokens' := by
  induction tokens generalizing tokens' with
  | nil =>
    cases List.map_eq_nil_iff.mp hk.symm
    exact .nil
  | cons t tokens ih =>
    cases tokens' with
    | nil => cases hk
    | cons t' tokens' =>
      injection hk with hkind hk
      injection hlines with hline hlines
      exact .cons ⟨hkind, hline⟩ (ih hk hlines)

/-- If lines do not count, rows of the same kinds are alike. -/
theorem alike_unlined (h : (Stream.ofSource source').fault = none) {tokens tokens' : List Token}
    (hk : kinds tokens = kinds tokens') : (unlined source source' h).Alike tokens tokens' := by
  apply alike_of_lines hk
  have hlength : tokens.length = tokens'.length := by
    simpa using congrArg List.length hk
  show tokens.map (fun _ => 0) = tokens'.map fun _ => 0
  rw [List.map_const', List.map_const', hlength]

/-- If a text is read as a program, a text whose tokens are alike is read as the same
program, up to places. -/
theorem Alike.parse {l : Layouts} (hleft : l.left = .ofSource source)
    (hright : l.right = .ofSource source')
    (ha : l.Alike (Stream.ofSource source).tokens (Stream.ofSource source').tokens) {p : Program}
    (hp : Decaf.parse source = .ok p) :
    ∃ p', Decaf.parse source' = .ok p' ∧ p.relabel l.relabel = p'.relabel l.relabel := by
  obtain ⟨_, items, hitems, rfl⟩ := Parser.program_eq_ok_iff.mp hp
  rw [← hleft] at hitems
  obtain ⟨items', hitems', hsame⟩ := Parser.topLevels_follows ha hitems
  have hreach := l.whole.reach_eq (Stream.ofSource source').tokens
  rw [hright] at hitems' hreach
  refine ⟨_, Parser.program_eq_ok_iff.mpr ⟨hreach, items', hitems', rfl⟩, ?_⟩
  rw [Parser.relabel_items, Parser.relabel_items, hsame]
  rfl

end Layouts

/-- A row of the same kinds divides in the same way. -/
theorem shares_of_kinds {pre left tokens' : List Token} (h : kinds (pre ++ left) = kinds tokens') :
    ∃ pre' left', tokens' = pre' ++ left' ∧ pre'.length = pre.length ∧
      Shares pre left tokens' left' := by
  have hsplit : kinds tokens' = kinds pre ++ kinds left := h.symm.trans List.map_append
  obtain ⟨pre', left', rfl, hpre, hleft⟩ := List.map_eq_append_iff.mp hsplit
  have hlength : pre'.length = pre.length := by simpa using congrArg List.length hpre
  exact ⟨pre', left', rfl, hlength, pre', rfl, hpre, congrArg List.head? hleft.symm⟩

/-- The current token, in the row that ends with the end of the file. -/
theorem getElem?_current (r : Reading) (pre left : List Token) :
    (pre ++ left ++ [r.ending])[pre.length]? = some (r.current left) := by
  rw [List.append_assoc, List.getElem?_append_right (Nat.le_refl _), Nat.sub_self]
  cases left <;> rfl

/-- If a text that divides into tokens is complained about, then so is every text with
tokens of the same kinds, at the same token. -/
theorem parse_error_same_token {source source' : String} {tokens tokens' : List Token}
    {last last' : Token} (ht : tokenize source = .ok (tokens ++ [last]))
    (ht' : tokenize source' = .ok (tokens' ++ [last'])) (hk : kinds tokens = kinds tokens')
    {e : ParseError} (he : parse source = .error e) :
    ∃ (e' : ParseError) (i : Nat) (t t' : Token), parse source' = .error e' ∧
      (tokens ++ [last])[i]? = some t ∧ (tokens' ++ [last'])[i]? = some t' ∧
      e.span = t.span ∧ e'.span = t'.span := by
  obtain ⟨hf, rfl, rfl⟩ := tokenize_eq_ok_iff.mp ht
  obtain ⟨hf', rfl, rfl⟩ := tokenize_eq_ok_iff.mp ht'
  have hr : (Reading.ofSource source).Whole := ⟨rfl, hf⟩
  have hr' : (Reading.ofSource source').Whole := ⟨rfl, hf'⟩
  cases hlate : e.late? with
  | none =>
    obtain ⟨f, rfl⟩ := ParseError.late?_eq_none_iff.mp hlate
    exact absurd he (parse_ne_unreadable ht f)
  | some late =>
    rcases Parser.program_eq_error_iff.mp he with hreach | ⟨hreach, htop⟩
    · rw [hr.reach_eq] at hreach
      cases hreach
    · -- the second reading is the one that the first is compared with
      have hfalters := Parser.topLevels_falters rfl hr' _ hreach
      obtain ⟨pre, left, htokens, _, _, hspan, _, hshared⟩ := hfalters.complains e late htop hlate
      obtain ⟨pre', left', htokens', hlength, hshares⟩ := shares_of_kinds (htokens ▸ hk)
      obtain ⟨e', htop', _, hspan', _⟩ := hshared _ _ hshares _ _ rfl
      refine ⟨e', pre.length, _, _,
        Parser.program_eq_error_iff.mpr (.inr ⟨hr'.reach_eq _, htop'⟩), ?_, ?_, hspan, hspan'⟩
      · rw [htokens]
        exact getElem?_current (.ofSource source) pre left
      · rw [htokens', ← hlength]
        exact getElem?_current (.ofSource source') pre' _

end Decaf
