import Decaf.Proofs.Syntax.Induction
import Decaf.Proofs.Syntax.Layout
import Decaf.Proofs.Syntax.Nodes

/-!
# Where the application of an operator stands

Every binary expression of a program that was read goes from its left operand to its right
one (`parse_allJoined`). Parentheses are no part of an expression, so this is no fact about
tokens: it is how two operands are joined, and nothing else makes a binary expression. In the
inductions along the readers only `joined_allJoined` has something to say; elsewhere what holds
of the parts is handed on.
-/

namespace Decaf

/-- The application of an operator goes from its left operand to its right one. -/
def Node.Joined : Node → Prop
  | .expr (.binary p _ _ l r) => p.span = l.span.merge r.span
  | _ => True

/-- All applications of operators in a node go from operand to operand. -/
def Node.AllJoined (n : Node) : Prop :=
  ∀ m, n.Has m → m.Joined

/-- From the children to the node. -/
theorem Node.AllJoined.intro {n : Node} (h : n.Joined)
    (hchildren : ∀ c ∈ n.children, c.AllJoined) : n.AllJoined :=
  forall_has h hchildren

/-- A node without parts. -/
theorem Node.AllJoined.leaf {n : Node} (h : n.Joined) (hnone : n.children = []) :
    n.AllJoined := by
  refine .intro h fun c hc => ?_
  rw [hnone] at hc
  cases hc

/-- What holds of the operands of a chain and is passed on by joining holds of its tree. -/
theorem Chain.assemble_all {join : BinaryOp → Expr → Expr → Expr} {P : Expr → Prop}
    (hjoin : ∀ op a b, P a → P b → P (join op a b)) {first : Expr} {rest : Tail}
    (hfirst : P first) (hrest : ∀ x ∈ rest, P x.2) : P (assemble join first rest) := by
  -- the chain beside itself
  have hpairs : List.Forall₂ (fun x x' => x.1 = x'.1 ∧ x.2 = x'.2 ∧ P x.2) rest rest :=
    List.forall₂_same.mpr fun x hx => ⟨rfl, rfl, hrest x hx⟩
  have hjoin' : ∀ op a b a' b', a = a' ∧ P a → b = b' ∧ P b →
      join op a b = join op a' b' ∧ P (join op a b) := by
    rintro op a b _ _ ⟨rfl, ha⟩ ⟨rfl, hb⟩
    exact ⟨rfl, hjoin op a b ha hb⟩
  exact (assemble_related (R := fun a a' => a = a' ∧ P a) hjoin' ⟨rfl, hfirst⟩ hpairs).2

namespace Parser

variable {r : Reading}

/-! ## Expressions -/

/-- The only place where the application of a binary operator is made: it spans its operands. -/
theorem joined_allJoined (op : BinaryOp) (a b : Expr) (ha : (Node.expr a).AllJoined)
    (hb : (Node.expr b).AllJoined) : (Node.expr (joined r op a b)).AllJoined := by
  refine .intro rfl fun c hc => ?_
  rcases List.mem_cons.mp hc with rfl | hc
  · exact ha
  · cases List.mem_singleton.mp hc
    exact hb

/-- All applications of operators in what the readers of expressions give go from operand to
operand. -/
def allJoinedExprs : ExprMotive where
  expr _ e _ := (Node.expr e).AllJoined
  operators _ chain _ := ∀ x ∈ chain, (Node.expr x.2).AllJoined
  operand _ e _ := (Node.expr e).AllJoined
  primary _ e _ := (Node.expr e).AllJoined
  callOrLocation _ e _ := (Node.expr e).AllJoined
  arguments _ args _ := ∀ a ∈ args, (Node.expr a).AllJoined
  argumentList _ args _ := ∀ a ∈ args, (Node.expr a).AllJoined

/-- No other way to read makes a binary expression, so the rest is handing on. -/
theorem allJoinedExprs_handedOn : allJoinedExprs.HandedOn r where
  expr hfirst hchain := Chain.assemble_all (P := fun e => (Node.expr e).AllJoined)
    joined_allJoined hfirst hchain
  noOperator _ := fun _ hx => absurd hx List.not_mem_nil
  operator _ hright hmore := List.forall_mem_cons.mpr ⟨hright, hmore⟩
  operand _ hprimary := hprimary
  unary _ hinner := .intro trivial (List.forall_mem_singleton.mpr hinner)
  parens _ hinner _ := hinner
  named _ h := h
  literal _ _ := .leaf trivial rfl
  call _ _ hargs _ := .intro trivial (List.forall_mem_map.mpr hargs)
  element _ _ hindex _ := .intro trivial (List.forall_mem_singleton.mpr hindex)
  scalar _ _ _ := .leaf trivial rfl
  noArgument _ := fun _ ha => absurd ha List.not_mem_nil
  arguments _ hargs := hargs
  argument hfirst _ := List.forall_mem_singleton.mpr hfirst
  moreArguments hfirst _ hothers := List.forall_mem_cons.mpr ⟨hfirst, hothers⟩

/-- In an expression that was read, operators are applied from operand to operand. -/
theorem expr_allJoined {tokens rest : List Token} {e : Expr}
    (h : Gives (expr r tokens) e rest) : (Node.expr e).AllJoined :=
  allJoinedExprs_handedOn.of_expr h

theorem callOrLocation_allJoined {tokens rest : List Token} {e : Expr}
    (h : Gives (callOrLocation r tokens) e rest) : (Node.expr e).AllJoined :=
  allJoinedExprs_handedOn.of_callOrLocation h

/-! ## Statements -/

theorem varDecl_allJoined (d : VarDecl) : (Node.varDecl d).AllJoined :=
  .leaf trivial rfl

theorem condition_allJoined {tokens rest : List Token} {e : Expr}
    (h : Gives (condition r tokens) e rest) : (Node.expr e).AllJoined := by
  obtain ⟨t, rest₁, rest₂, u, -, he, -⟩ := condition_gives.mp h
  exact expr_allJoined he

/-- The same of what a `return` gives, if it gives anything. -/
theorem returnValue_allJoined {tokens rest : List Token} {value : Option Expr}
    (h : Gives (returnValue r tokens) value rest) :
    ∀ c ∈ value.toList.map Node.expr, c.AllJoined := by
  rcases returnValue_gives.mp h with ⟨-, rfl, rfl⟩ | ⟨e, -, he, rfl⟩
  · exact fun c hc => absurd hc List.not_mem_nil
  · exact List.forall_mem_singleton.mpr (expr_allJoined he)

/-- A call or an assignment hands on what holds of its one or two expressions. -/
theorem simpleStmt_allJoined {tokens rest : List Token} {first : Span} {call : Bool} {s : Stmt}
    (h : Gives (simpleStmt r first call tokens) s rest) : (Node.stmt s).AllJoined := by
  cases call with
  | true =>
    obtain ⟨target, mid, htarget, hfinish⟩ := simpleStmt_gives_call.mp h
    obtain ⟨close, -, rfl⟩ := finish_gives.mp hfinish
    exact .intro trivial (List.forall_mem_singleton.mpr (callOrLocation_allJoined htarget))
  | false =>
    obtain ⟨target, rest₁, u, rest₂, v, rest₃, htarget, -, hv, hfinish⟩ :=
      simpleStmt_gives_assign.mp h
    obtain ⟨close, -, rfl⟩ := finish_gives.mp hfinish
    exact .intro trivial (List.forall_mem_cons.mpr ⟨callOrLocation_allJoined htarget,
      List.forall_mem_singleton.mpr (expr_allJoined hv)⟩)

/-- The same of blocks and statements. -/
def allJoinedStmts : StmtMotive where
  block _ b _ := (Node.block b).AllJoined
  stmts _ ss _ := ∀ s ∈ ss, (Node.stmt s).AllJoined
  stmt _ s _ := (Node.stmt s).AllJoined

/-- No statement is a binary expression, so everything is handed on. -/
theorem allJoinedStmts_handedOn : allJoinedStmts.HandedOn r where
  block _ _ _ hstmts _ := .intro trivial (List.forall_mem_append.mpr
    ⟨List.forall_mem_map.mpr fun d _ => varDecl_allJoined d, List.forall_mem_map.mpr hstmts⟩)
  noStmt _ := fun _ hs => absurd hs List.not_mem_nil
  moreStmts _ hfirst hothers := List.forall_mem_cons.mpr ⟨hfirst, hothers⟩
  ifThen _ _ htest hthen _ := .intro trivial (List.forall_mem_cons.mpr
    ⟨condition_allJoined htest, List.forall_mem_singleton.mpr hthen⟩)
  ifElse _ _ htest hthen _ helse := .intro trivial (List.forall_mem_cons.mpr
    ⟨condition_allJoined htest, List.forall_mem_cons.mpr
      ⟨hthen, List.forall_mem_singleton.mpr helse⟩⟩)
  loop _ _ htest hbody := .intro trivial (List.forall_mem_cons.mpr
    ⟨condition_allJoined htest, List.forall_mem_singleton.mpr hbody⟩)
  inner _ _ hbody := .intro trivial (List.forall_mem_singleton.mpr hbody)
  ret _ _ hvalue hfinish := by
    obtain ⟨close, -, rfl⟩ := finish_gives.mp hfinish
    exact .intro trivial (returnValue_allJoined hvalue)
  leave _ _ hfinish := by
    obtain ⟨close, -, rfl⟩ := finish_gives.mp hfinish
    exact .leaf trivial rfl
  again _ _ hfinish := by
    obtain ⟨close, -, rfl⟩ := finish_gives.mp hfinish
    exact .leaf trivial rfl
  simple _ _ h := simpleStmt_allJoined h

/-! ## Programs -/

/-- A function hands on what holds of its body. -/
theorem topLevel_allJoined {tokens rest : List Token} {f : Function}
    (h : Gives (topLevel r tokens) (.function f) rest) : (Node.function f).AllJoined := by
  obtain ⟨rest₁, k, ty, t, rest₂, x, u, rest₃, -, -, -, -, hitem⟩ := topLevel_gives.mp h
  rcases hitem with ⟨g, -, hg, hsame⟩ | ⟨d, -, -, hsame⟩
  · cases hsame
    obtain ⟨t₁, rest₁, ps, rest₂, v, rest₃, body, -, -, -, hbody, rfl⟩ := functionRest_gives.mp hg
    refine .intro trivial (List.forall_mem_append.mpr ⟨List.forall_mem_map.mpr fun x _ => ?_,
      List.forall_mem_singleton.mpr (allJoinedStmts_handedOn.of_block hbody)⟩)
    exact .leaf trivial rfl
  · cases hsame

theorem topLevels_allJoined {tokens : List Token} {items : List TopLevel}
    (h : topLevels r tokens = .ok items) :
    ∀ f, .function f ∈ items → (Node.function f).AllJoined := by
  induction h using topLevels_induction with
  | nil _ _ => exact fun f hf => absurd hf List.not_mem_nil
  | cons _ _ _ hfirst ih =>
    intro f hf
    rcases List.mem_cons.mp hf with rfl | hf
    · exact topLevel_allJoined hfirst
    · exact ih f hf

end Parser

/-- All applications of operators in a program that was read go from operand to operand. -/
theorem parse_allJoined {source : String} {p : Program} (h : parse source = .ok p) :
    (Node.program p).AllJoined := by
  obtain ⟨-, items, hitems, rfl⟩ := Parser.program_eq_ok_iff.mp h
  refine .intro trivial (List.forall_mem_append.mpr
    ⟨List.forall_mem_map.mpr fun d _ => Parser.varDecl_allJoined d,
      List.forall_mem_map.mpr fun f hf => ?_⟩)
  obtain ⟨item, hitem, hsome⟩ := List.mem_filterMap.mp hf
  cases item <;> cases hsome
  exact Parser.topLevels_allJoined hitems f hitem

end Decaf
