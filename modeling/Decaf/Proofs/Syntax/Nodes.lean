import Decaf.Syntax.Walk
import Decaf.Proofs.Text.Lines
import Decaf.Proofs.Token.Rows
import Decaf.Proofs.Syntax.Readers

/-!
# Nodes and where they stand

A program seen as a tree of nodes, each with its place and its children. A node is sound
(`Node.Sound`) if its line is the line its span begins on and its children are stretches of
the text inside it that do not overlap; variables, functions, blocks and statements also
span exactly the tokens they were read from.

Whatever reads a piece of syntax reads a row of nodes: they follow one another between two
offsets, and all that is in them is sound (`NodeRow`). Rows are put together from rows, and a
node that encloses a row of children makes a row of its own (`NodeRow.node`).
-/

namespace Decaf

/-! ## The tree of nodes -/

namespace Node

/-- Where a node stands. -/
def place : Node → Place
  | program p => p.place
  | function f => f.place
  | param p => p.place
  | varDecl d => d.place
  | block b => b.place
  | stmt s => s.place
  | expr e => e.place

/-- The span of a node. -/
def span (n : Node) : Span :=
  n.place.span

/-- The nodes directly inside a node. -/
def children : Node → List Node
  | program p => p.globals.map varDecl ++ p.functions.map function
  | function f => f.params.map param ++ [block f.body]
  | param _ => []
  | varDecl _ => []
  | block b => b.locals.map varDecl ++ b.statements.map stmt
  | stmt (.assign _ target value) => [expr target, expr value]
  | stmt (.call _ e) => [expr e]
  | stmt (.conditional _ test b c) => [expr test, block b] ++ c.toList.map block
  | stmt (.loop _ test b) => [expr test, block b]
  | stmt (.ret _ value) => value.toList.map expr
  | stmt (.break _) => []
  | stmt (.continue _) => []
  | stmt (.block _ b) => [block b]
  | expr (.literal ..) => []
  | expr (.location _ _ _ index) => index.toList.map expr
  | expr (.binary _ _ _ l r) => [expr l, expr r]
  | expr (.unary _ _ _ e) => [expr e]
  | expr (.call _ _ _ args) => args.map expr

/-- The children in lists that are in the order of the text. The variables and the functions
of a program may be mixed there. -/
def childLists : Node → List (List Node)
  | program p => [p.globals.map varDecl, p.functions.map function]
  | n => [n.children]

/-- The nodes of a tree: its root, and the children of its nodes. -/
inductive Has (root : Node) : Node → Prop
  | self : Has root root
  | child {n c : Node} : Has root n → c ∈ n.children → Has root c

/-- What is in a node is the node or in one of its children. -/
theorem Has.cases {n m : Node} (h : n.Has m) : m = n ∨ ∃ c ∈ n.children, c.Has m := by
  induction h with
  | self => exact .inl rfl
  | child _ hc ih =>
    rcases ih with rfl | ⟨d, hd, hhas⟩
    · exact .inr ⟨_, hc, .self⟩
    · exact .inr ⟨d, hd, hhas.child hc⟩

/-- What is in a child is in the node. -/
theorem Has.of_child {n c m : Node} (hc : c ∈ n.children) (h : c.Has m) : n.Has m := by
  induction h with
  | self => exact Has.self.child hc
  | child _ hm ih => exact ih.child hm

/-- What holds of a node and of all nodes of its children holds of all nodes in it. -/
theorem forall_has {P : Node → Prop} {n : Node} (h : P n)
    (hchildren : ∀ c ∈ n.children, ∀ m, c.Has m → P m) : ∀ m, n.Has m → P m := by
  intro m hm
  rcases hm.cases with rfl | ⟨c, hc, hm⟩
  · exact h
  · exact hchildren c hc m hm

/-- The nodes that span exactly the tokens they are read from. -/
def isPhrase : Node → Bool
  | function _ | varDecl _ | block _ | stmt _ => true
  | _ => false

/-- The reader of such nodes gives this one, from `tokens` down to `rest`. -/
def ReadFrom (r : Reading) (tokens rest : List Token) : Node → Prop
  | varDecl d =>
    Gives (Parser.varDecl r tokens) d rest ∨ Gives (Parser.topLevel r tokens) (.global d) rest
  | function f => Gives (Parser.topLevel r tokens) (.function f) rest
  | block b => Gives (Parser.block r tokens) b rest
  | stmt s => Gives (Parser.stmt r tokens) s rest
  | _ => False

end Node

/-- A span that begins with the first of some tokens and ends with the last. -/
structure Span.Covers (span : Span) (used : List Token) : Prop where
  first : used.head?.map (·.span.start) = some span.start
  last : used.getLast?.map (·.span.stop) = some span.stop

/-- A node of a program that was read from a text stands where it should, and so do its
children. -/
structure Node.Sound (source : String) (n : Node) : Prop where
  /-- It is on the line on which it begins. -/
  line : n.place.line = 1 + (Lines.charsBefore n.span.start source.toList).count '\n'
  /-- A child is a stretch of characters that is not empty. -/
  proper : ∀ c ∈ n.children, c.span.Proper source
  inside : ∀ c ∈ n.children, n.span.start ≤ c.span.start ∧ c.span.stop ≤ n.span.stop
  disjoint : n.children.Pairwise fun a b => a.span.stop ≤ b.span.start ∨ b.span.stop ≤ a.span.start
  inOrder : ∀ row ∈ n.childLists, row.Pairwise fun a b => a.span.stop ≤ b.span.start
  /-- It spans the tokens that were taken to read it. -/
  taken : n.isPhrase = true → ∃ before used rest,
    (Stream.ofSource source).tokens = before ++ used ++ rest ∧
    n.ReadFrom (.ofSource source) (used ++ rest) rest ∧ n.span.Covers used

/-- A node is sound, and all that are in it are. -/
def Node.AllSound (source : String) (n : Node) : Prop :=
  ∀ m, n.Has m → m.Sound source

variable {source : String}

/-- From the children to the node. -/
theorem Node.AllSound.intro {n : Node} (h : n.Sound source)
    (hchildren : ∀ c ∈ n.children, c.AllSound source) : n.AllSound source :=
  forall_has h hchildren

/-! ## Rows of nodes -/

/-- Nodes that follow one another between two offsets, sound with all that is in them. -/
def NodeRow (source : String) : Nat → Nat → List Node → Prop
  | lo, hi, [] => lo ≤ hi
  | lo, hi, n :: ns =>
    lo ≤ n.span.start ∧ n.span.Proper source ∧ n.AllSound source ∧
      NodeRow source n.span.stop hi ns

namespace NodeRow

variable {lo hi : Nat} {n : Node} {ns ms : List Node}

/-- A row goes forward, even an empty one. -/
theorem le (h : NodeRow source lo hi ns) : lo ≤ hi := by
  induction ns generalizing lo with
  | nil => exact h
  | cons n ns ih =>
    obtain ⟨hlo, hproper, -, hrest⟩ := h
    have := hproper.lt
    have := ih hrest
    omega

/-- A row may be seen between wider offsets. -/
theorem mono {lo' hi' : Nat} (h : NodeRow source lo hi ns) (hlo : lo' ≤ lo) (hhi : hi ≤ hi') :
    NodeRow source lo' hi' ns := by
  induction ns generalizing lo lo' with
  | nil => exact Nat.le_trans hlo (Nat.le_trans h hhi)
  | cons n ns ih => exact ⟨Nat.le_trans hlo h.1, h.2.1, h.2.2.1, ih h.2.2.2 (Nat.le_refl _)⟩

/-- Rows put together: the second begins where the first ends at the latest. -/
theorem append {mid : Nat} (h : NodeRow source lo mid ns) (h' : NodeRow source mid hi ms) :
    NodeRow source lo hi (ns ++ ms) := by
  induction ns generalizing lo with
  | nil => exact h'.mono h (Nat.le_refl _)
  | cons n ns ih => exact ⟨h.1, h.2.1, h.2.2.1, ih h.2.2.2⟩

/-- What is known of each node in a row. -/
theorem mem (h : NodeRow source lo hi ns) (hn : n ∈ ns) :
    lo ≤ n.span.start ∧ n.span.stop ≤ hi ∧ n.span.Proper source ∧ n.AllSound source := by
  induction ns generalizing lo with
  | nil => cases hn
  | cons m ns ih =>
    obtain ⟨hlo, hproper, hsound, hrest⟩ := h
    rcases List.mem_cons.mp hn with rfl | hn
    · exact ⟨hlo, hrest.le, hproper, hsound⟩
    · obtain ⟨hstart, hstop⟩ := ih hrest hn
      have := hproper.lt
      exact ⟨by omega, hstop⟩

/-- Each node of a row ends before the later ones start, so none overlap. -/
theorem pairwise (h : NodeRow source lo hi ns) :
    ns.Pairwise fun a b => a.span.stop ≤ b.span.start := by
  induction ns generalizing lo with
  | nil => exact .nil
  | cons n ns ih => exact .cons (fun m hm => (h.2.2.2.mem hm).1) (ih h.2.2.2)

theorem disjoint (h : NodeRow source lo hi ns) :
    ns.Pairwise fun a b => a.span.stop ≤ b.span.start ∨ b.span.stop ≤ a.span.start :=
  h.pairwise.imp .inl

/-- Two different nodes of a row do not overlap, whichever comes first. -/
theorem disjoint_of_ne {a b : Node} (h : NodeRow source lo hi ns) (ha : a ∈ ns) (hb : b ∈ ns)
    (hne : a ≠ b) : a.span.stop ≤ b.span.start ∨ b.span.stop ≤ a.span.start := by
  induction ns generalizing lo with
  | nil => cases ha
  | cons n ns ih =>
    rcases List.mem_cons.mp ha with rfl | ha'
    · rcases List.mem_cons.mp hb with rfl | hb'
      · exact absurd rfl hne
      · exact .inl (h.2.2.2.mem hb').1
    · rcases List.mem_cons.mp hb with rfl | hb'
      · exact .inr (h.2.2.2.mem ha').1
      · exact ih h.2.2.2 ha' hb'

/-- A node that encloses a row of children is a row of its own. -/
theorem node {a b : Nat} (hchildren : NodeRow source a b n.children)
    (hlists : n.childLists = [n.children]) (hproper : n.span.Proper source)
    (ha : n.span.start ≤ a) (hb : b ≤ n.span.stop)
    (hline : n.place.line = (Lines.ofChars source.toList).lineOf n.span.start)
    (htaken : n.isPhrase = true → ∃ before used rest,
      (Stream.ofSource source).tokens = before ++ used ++ rest ∧
      n.ReadFrom (.ofSource source) (used ++ rest) rest ∧ n.span.Covers used) :
    NodeRow source n.span.start n.span.stop [n] := by
  refine ⟨Nat.le_refl _, hproper, .intro ?_ fun c hc => (hchildren.mem hc).2.2.2, Nat.le_refl _⟩
  refine ⟨hline.trans (Lines.lineOf_eq _ _), fun c hc => (hchildren.mem hc).2.2.1, fun c hc => ?_,
    hchildren.disjoint, fun row hrow => ?_, htaken⟩
  · obtain ⟨hstart, hstop, -⟩ := hchildren.mem hc
    exact ⟨by omega, by omega⟩
  · rw [hlists, List.mem_singleton] at hrow
    rw [hrow]
    exact hchildren.pairwise

end NodeRow

/-! ## Chains of operators -/

namespace Chain

variable {join : BinaryOp → Expr → Expr → Expr}

/-- The operands of a chain, in order. -/
def operands (first : Expr) (rest : Tail) : List Node :=
  .expr first :: rest.map fun x => .expr x.2

/-- Settling one level of a chain keeps its operands in a row, if joining does. -/
theorem settle_row
    (hjoin : ∀ op a b lo hi, NodeRow source lo hi [.expr a, .expr b] →
      NodeRow source lo hi [.expr (join op a b)])
    (level : Nat) {first : Expr} {rest : Tail} {lo hi : Nat}
    (h : NodeRow source lo hi (operands first rest)) :
    NodeRow source lo hi
      (operands (settle join level first rest).1 (settle join level first rest).2) := by
  induction rest generalizing first lo with
  | nil => exact h
  | cons x rest ih =>
    obtain ⟨op, e⟩ := x
    unfold settle
    by_cases hlevel : op.precedence = level
    · rw [if_pos hlevel]
      -- the two neighbours become one node, and what follows them stays
      obtain ⟨hlo, hfirst, hsound, hstart, hproper, hsound', hrest⟩ := h
      have hpair : NodeRow source lo e.span.stop [.expr first, .expr e] :=
        ⟨hlo, hfirst, hsound, hstart, hproper, hsound', Nat.le_refl _⟩
      exact ih ((hjoin op first e lo _ hpair).append hrest)
    · rw [if_neg hlevel]
      obtain ⟨hlo, hfirst, hsound, hrest⟩ := h
      exact ⟨hlo, hfirst, hsound, ih hrest⟩

theorem settleDown_row
    (hjoin : ∀ op a b lo hi, NodeRow source lo hi [.expr a, .expr b] →
      NodeRow source lo hi [.expr (join op a b)])
    (level : Nat) {first : Expr} {rest : Tail} {lo hi : Nat}
    (h : NodeRow source lo hi (operands first rest)) :
    NodeRow source lo hi
      (operands (settleDown join level first rest).1 (settleDown join level first rest).2) := by
  induction level generalizing first rest with
  | zero => exact h
  | succ level ih => exact ih (settle_row hjoin (level + 1) h)

/-- The tree of a chain stands where the chain stood. -/
theorem assemble_row
    (hjoin : ∀ op a b lo hi, NodeRow source lo hi [.expr a, .expr b] →
      NodeRow source lo hi [.expr (join op a b)])
    {first : Expr} {rest : Tail} {lo hi : Nat} (h : NodeRow source lo hi (operands first rest)) :
    NodeRow source lo hi [.expr (assemble join first rest)] := by
  obtain ⟨hlo, hproper, hsound, hrest⟩ := settleDown_row hjoin 6 h
  exact ⟨hlo, hproper, hsound, hrest.le⟩

end Chain

end Decaf
