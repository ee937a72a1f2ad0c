import Decaf.Proofs.Syntax.Precedence
import Decaf.Proofs.Syntax.Induction
import Decaf.Proofs.Syntax.Literals

/-!
# What is read is derivable

Whatever a reader gives, the grammar derives from the kinds of the tokens it took,
once places are left out of the tree: `expr_sound`, `block_sound`, `topLevel_sound`
and the others. The inductions are those along the readers, with one case for each
way to read something (`soundExprs_handedOn`, `soundStmts_handedOn`).

Beside the derivation each lemma keeps that the text is readable up to the first
token that is left. That is what remains at the very end: the readers came to the
end of the text and not to an unreadable spot (`topLevels_sound`).
-/

namespace Decaf.Parser

open Grammar

variable {r : Reading}

/-! ## Expressions -/

/-- Joining and leaving out places may be exchanged, so the tree that a chain is put together to
is that of the grammar. -/
theorem relabel_joined (op : BinaryOp) (a b : Expr) :
    (joined r op a b).relabel .unplaced = join op (a.relabel .unplaced) (b.relabel .unplaced) := by
  rw [joined, Expr.relabel]
  rfl

/-- What soundness says of the readers of expressions. Those that may read nothing keep the text
readable; the others find out that it is. -/
def soundExprs (r : Reading) : ExprMotive where
  expr tokens e rest :=
    ExprAt 1 (kinds tokens) (e.relabel .unplaced) (kinds rest) ∧ r.reach rest = .ok ()
  operators tokens chain rest := r.reach tokens = .ok () →
    Operators 7 (kinds tokens) (Chain.mapTail (·.relabel .unplaced) chain) (kinds rest) ∧
      r.reach rest = .ok ()
  operand tokens e rest :=
    ExprAt 7 (kinds tokens) (e.relabel .unplaced) (kinds rest) ∧ r.reach rest = .ok ()
  primary tokens e rest :=
    Primary (kinds tokens) (e.relabel .unplaced) (kinds rest) ∧ r.reach rest = .ok ()
  callOrLocation tokens e rest :=
    (Location (kinds tokens) (e.relabel .unplaced) (kinds rest) ∧
        (kinds tokens).tail.head? ≠ some (.sign .openParen) ∨
      Call (kinds tokens) (e.relabel .unplaced) (kinds rest)) ∧ r.reach rest = .ok ()
  arguments tokens args rest := r.reach tokens = .ok () →
    Arguments (kinds tokens) (args.map (·.relabel .unplaced)) (kinds rest) ∧
      r.reach rest = .ok ()
  argumentList tokens args rest :=
    ArgumentList (kinds tokens) (args.map (·.relabel .unplaced)) (kinds rest) ∧
      r.reach rest = .ok ()

/-- Each way to read an expression is a rule of the grammar. -/
theorem soundExprs_handedOn : (soundExprs r).HandedOn r where
  expr hfirst hchain := by
    obtain ⟨hfirst, hr⟩ := hfirst
    obtain ⟨hchain, hr'⟩ := hchain hr
    refine ⟨?_, hr'⟩
    rw [Chain.map_assemble relabel_joined]
    exact .of_chain hfirst hchain
  noOperator _ hr := ⟨.nil, hr⟩
  operator ht hright hmore _ := by
    obtain ⟨hright, hr⟩ := hright
    obtain ⟨hmore, hr'⟩ := hmore hr
    refine ⟨?_, hr'⟩
    rw [ht.kinds_eq]
    exact .cons hright hmore
  operand _ hprimary := ⟨.primary hprimary.1, hprimary.2⟩
  unary ht hinner := by
    refine ⟨?_, hinner.2⟩
    rw [ht.kinds_eq, Expr.relabel]
    exact .unary hinner.1
  parens ht hinner hclose := by
    obtain ⟨hinner, _⟩ := hinner
    rw [hclose.kinds_eq] at hinner
    refine ⟨?_, hclose.2.2⟩
    rw [ht.kinds_eq]
    exact .parens hinner
  named _ h := by
    rcases h with ⟨⟨hlocation, _⟩ | hcall, hr⟩
    · exact ⟨.location hlocation, hr⟩
    · exact ⟨.call hcall, hr⟩
  literal ht hv := by
    refine ⟨?_, ht.2.2⟩
    rw [ht.kinds_eq, Expr.relabel]
    exact .literal (literal?_eq_ok_iff.mp hv)
  call ht hu hargs hclose := by
    obtain ⟨hargs, _⟩ := hargs hu.2.2
    rw [hclose.kinds_eq] at hargs
    refine ⟨.inr ?_, hclose.2.2⟩
    rw [ht.kinds_eq, hu.kinds_eq, Expr.relabel, relabelExprs_eq_map]
    exact .mk hargs
  element ht hu hindex hclose := by
    obtain ⟨hindex, _⟩ := hindex
    rw [hclose.kinds_eq] at hindex
    refine ⟨.inl ?_, hclose.2.2⟩
    rw [ht.kinds_eq, hu.kinds_eq, Expr.relabel]
    exact ⟨.element hindex, by simp⟩
  scalar ht hno _ := by
    refine ⟨.inl ?_, ht.2.2⟩
    rw [ht.kinds_eq, Expr.relabel]
    exact ⟨.scalar, hno⟩
  noArgument _ hr := ⟨.none, hr⟩
  arguments _ hargs _ := ⟨.some hargs.1, hargs.2⟩
  argument hfirst _ := ⟨.one hfirst.1, hfirst.2⟩
  moreArguments hfirst ht hothers := by
    obtain ⟨hfirst, _⟩ := hfirst
    rw [ht.kinds_eq] at hfirst
    exact ⟨.more hfirst hothers.1, hothers.2⟩

/-- What is read as an expression is one, at the lowest level of precedence. -/
theorem expr_sound {tokens rest : List Token} {e : Expr} (h : Gives (expr r tokens) e rest) :
    ExprAt 1 (kinds tokens) (e.relabel .unplaced) (kinds rest) ∧ r.reach rest = .ok () :=
  soundExprs_handedOn.of_expr h

/-- After a name a call was read if a parenthesis follows, and a location if not. -/
theorem callOrLocation_sound {tokens rest : List Token} {e : Expr}
    (h : Gives (callOrLocation r tokens) e rest) :
    (Location (kinds tokens) (e.relabel .unplaced) (kinds rest) ∧
        (kinds tokens).tail.head? ≠ some (.sign .openParen) ∨
      Call (kinds tokens) (e.relabel .unplaced) (kinds rest)) ∧ r.reach rest = .ok () :=
  soundExprs_handedOn.of_callOrLocation h

/-! ## Declarations -/

/-- Together with the type and the name before it, the rest of a declaration is one. -/
theorem varRest_sound {k : Token.Kind} {ty : Ty} {x : String} {start : Span} {d : VarDecl}
    {tokens rest : List Token} (hk : TypeName k ty)
    (h : Gives (varRest r x ty start tokens) d rest) :
    Variable (k :: .identifier x :: kinds tokens) (d.relabel .unplaced) (kinds rest) ∧
      r.reach rest = .ok () := by
  rcases varRest_gives.mp h with ⟨_, _, n, _, _, _, _, h₁, hn, h₃, h₄, rfl⟩ | ⟨_, h₁, rfl⟩
  · obtain ⟨text, _, h₂, hlength⟩ := arrayLength_gives.mp hn
    obtain ⟨hle, rfl⟩ := lengthOfDecimal?_eq_some_iff.mp hlength
    rw [h₁.kinds_eq, h₂.kinds_eq, h₃.kinds_eq, h₄.kinds_eq]
    exact ⟨.array hk hle, h₄.2.2⟩
  · rw [h₁.kinds_eq]
    exact ⟨.scalar hk, h₁.2.2⟩

/-- What is read as a declaration is one. -/
theorem varDecl_sound {d : VarDecl} {tokens rest : List Token}
    (h : Gives (varDecl r tokens) d rest) :
    Variable (kinds tokens) (d.relabel .unplaced) (kinds rest) ∧ r.reach rest = .ok () := by
  obtain ⟨_, _, _, _, _, _, _, ht, hk, hu, hd⟩ := varDecl_gives.mp h
  rw [ht.kinds_eq, hu.kinds_eq]
  exact varRest_sound hk hd

/-- Declarations are read in a row, as the grammar has them. -/
theorem varDecls_sound {ds : List VarDecl} {tokens rest : List Token}
    (h : Gives (varDecls r tokens) ds rest) (hr : r.reach tokens = .ok ()) :
    Variables (kinds tokens) (ds.map (·.relabel .unplaced)) (kinds rest) ∧
      r.reach rest = .ok () := by
  induction h using varDecls_induction with
  | nil _ _ => exact ⟨.nil, hr⟩
  | cons _ _ _ hd ih =>
    obtain ⟨hfirst, hr'⟩ := varDecl_sound hd
    obtain ⟨hothers, hr''⟩ := ih hr'
    exact ⟨.cons hfirst hothers, hr''⟩

/-! ## Statements -/

/-- A condition is an expression, with a parenthesis on either side. -/
theorem condition_sound {e : Expr} {tokens rest : List Token}
    (h : Gives (condition r tokens) e rest) :
    ∃ mid, kinds tokens = .sign .openParen :: mid ∧
      ExprAt 1 mid (e.relabel .unplaced) (.sign .closeParen :: kinds rest) := by
  obtain ⟨_, first, _, _, ht, he, hu⟩ := condition_gives.mp h
  obtain ⟨htest, _⟩ := expr_sound he
  rw [hu.kinds_eq] at htest
  exact ⟨kinds first, ht.kinds_eq, htest⟩

/-- What begins with a name is an assignment or a call. The reader does not ask what the target of
an assignment is, but it reads no call there: it would have seen the parenthesis. -/
theorem simpleStmt_sound (hend : r.ending.kind = .endOfFile) {t : Token} {start : Span} {s : Stmt}
    {mid rest : List Token}
    (h : Gives (simpleStmt r start ((r.current mid).kind = .sign .openParen) (t :: mid)) s rest) :
    Statement (kinds (t :: mid)) (s.relabel .unplaced) (kinds rest) ∧ r.reach rest = .ok () := by
  -- the token after the name tells the two sorts of statement apart, for the
  -- reader and for the grammar
  by_cases hp : (r.current mid).kind = .sign .openParen
  · rw [decide_eq_true hp] at h
    obtain ⟨target, _, hc, hf⟩ := simpleStmt_gives_call.mp h
    obtain ⟨_, hsemi, rfl⟩ := finish_gives.mp hf
    rcases (callOrLocation_sound hc).1 with ⟨_, hno⟩ | hcall
    · exact absurd ((Reading.current_kind_iff hend (by decide)).mp hp) hno
    · rw [hsemi.kinds_eq] at hcall
      rw [Stmt.relabel]
      exact ⟨.call hcall, hsemi.2.2⟩
  · rw [decide_eq_false hp] at h
    obtain ⟨target, _, _, _, value, _, hc, heq, hv, hf⟩ := simpleStmt_gives_assign.mp h
    obtain ⟨_, hsemi, rfl⟩ := finish_gives.mp hf
    obtain ⟨hvalue, _⟩ := expr_sound hv
    rw [hsemi.kinds_eq] at hvalue
    rcases (callOrLocation_sound hc).1 with ⟨hl, _⟩ | hcall
    · rw [heq.kinds_eq] at hl
      rw [Stmt.relabel]
      exact ⟨.assign hl hvalue, hsemi.2.2⟩
    · -- a call, although no parenthesis is next
      obtain ⟨x, more, hx⟩ := hcall.head
      injection hx with _ hmid
      rw [Reading.current_kind_iff hend (by decide), kinds, hmid] at hp
      exact absurd rfl hp

/-- What is read behind `return` makes it one of the two rules for it. -/
theorem returnValue_sound {t : Token} {s : Stmt}
    {value : Option Expr} {tokens mid rest : List Token}
    (hv : Gives (returnValue r tokens) value mid)
    (hf : Gives (finish r t.span (.ret · value) mid) s rest) :
    Statement (.word .returnWord :: kinds tokens) (s.relabel .unplaced) (kinds rest) ∧
      r.reach rest = .ok () := by
  obtain ⟨_, hsemi, rfl⟩ := finish_gives.mp hf
  rw [Stmt.relabel]
  rcases returnValue_gives.mp hv with ⟨_, rfl, rfl⟩ | ⟨e, _, he, rfl⟩
  · rw [hsemi.kinds_eq]
    exact ⟨.giveNothing, hsemi.2.2⟩
  · obtain ⟨hvalue, _⟩ := expr_sound he
    rw [hsemi.kinds_eq] at hvalue
    exact ⟨.give hvalue, hsemi.2.2⟩

/-- What soundness says of the readers of blocks and statements. -/
def soundStmts (r : Reading) : StmtMotive where
  block tokens b rest :=
    Braces (kinds tokens) (b.relabel .unplaced) (kinds rest) ∧ r.reach rest = .ok ()
  stmts tokens ss rest := r.reach tokens = .ok () →
    Statements (kinds tokens) (ss.map (·.relabel .unplaced)) (kinds rest) ∧
      r.reach rest = .ok ()
  stmt tokens s rest :=
    Statement (kinds tokens) (s.relabel .unplaced) (kinds rest) ∧ r.reach rest = .ok ()

/-- Each way to read a statement is a rule of the grammar. -/
theorem soundStmts_handedOn (hend : r.ending.kind = .endOfFile) : (soundStmts r).HandedOn r where
  block _ hopen hlocals hstatements hclose := by
    obtain ⟨hlocals, hr⟩ := varDecls_sound hlocals hopen.2.2
    obtain ⟨hstatements, _⟩ := hstatements hr
    rw [hclose.kinds_eq] at hstatements
    refine ⟨?_, hclose.2.2⟩
    rw [hopen.kinds_eq, Block.relabel, relabelStmts_eq_map]
    exact .mk hlocals hstatements
  noStmt _ hr := ⟨.nil, hr⟩
  moreStmts _ hfirst hothers _ := by
    obtain ⟨hothers, hr⟩ := hothers hfirst.2
    exact ⟨.cons hfirst.1 hothers, hr⟩
  ifThen _ hk htest hbody _ := by
    obtain ⟨_, hmid, hcondition⟩ := condition_sound htest
    refine ⟨?_, hbody.2⟩
    rw [kinds_cons, hk, hmid, Stmt.relabel]
    exact .ifThen hcondition hbody.1
  ifElse _ hk htest hbody helse hother := by
    obtain ⟨_, hmid, hcondition⟩ := condition_sound htest
    obtain ⟨hbody, _⟩ := hbody
    rw [helse.kinds_eq] at hbody
    refine ⟨?_, hother.2⟩
    rw [kinds_cons, hk, hmid, Stmt.relabel]
    exact .ifElse hcondition hbody hother.1
  loop _ hk htest hbody := by
    obtain ⟨_, hmid, hcondition⟩ := condition_sound htest
    refine ⟨?_, hbody.2⟩
    rw [kinds_cons, hk, hmid, Stmt.relabel]
    exact .loop hcondition hbody.1
  inner _ _ hbody := by
    refine ⟨?_, hbody.2⟩
    rw [Stmt.relabel]
    exact .braces hbody.1
  ret _ hk hvalue hfinish := by
    have h := returnValue_sound hvalue hfinish
    rw [← hk] at h
    exact h
  leave _ hk hfinish := by
    obtain ⟨_, hsemi, rfl⟩ := finish_gives.mp hfinish
    refine ⟨?_, hsemi.2.2⟩
    rw [kinds_cons, hk, hsemi.kinds_eq, Stmt.relabel]
    exact .leave
  again _ hk hfinish := by
    obtain ⟨_, hsemi, rfl⟩ := finish_gives.mp hfinish
    refine ⟨?_, hsemi.2.2⟩
    rw [kinds_cons, hk, hsemi.kinds_eq, Stmt.relabel]
    exact .again
  simple _ _ h := simpleStmt_sound hend h

/-- What is read as a block is one. -/
theorem block_sound (hend : r.ending.kind = .endOfFile) {b : Block} {tokens rest : List Token}
    (h : Gives (block r tokens) b rest) :
    Braces (kinds tokens) (b.relabel .unplaced) (kinds rest) ∧ r.reach rest = .ok () :=
  (soundStmts_handedOn hend).of_block h

/-! ## Programs -/

/-- Parameters are read with commas between them, as the grammar has them. -/
theorem paramList_sound {ps : List Param} {tokens rest : List Token}
    (h : Gives (paramList r tokens) ps rest) :
    ParameterList (kinds tokens) (ps.map (·.relabel .unplaced)) (kinds rest) := by
  induction h using paramList_induction with
  | one _ ht hk hu _ =>
    rw [ht.kinds_eq, hu.kinds_eq]
    exact .one hk
  | more _ _ ht hk hu hc ih =>
    rw [ht.kinds_eq, hu.kinds_eq, hc.kinds_eq]
    exact .more hk ih

/-- What is read as parameters is derivable. -/
theorem params_sound {ps : List Param} {tokens rest : List Token}
    (h : Gives (params r tokens) ps rest) :
    Parameters (kinds tokens) (ps.map (·.relabel .unplaced)) (kinds rest) := by
  rcases params_gives.mp h with ⟨_, rfl, rfl⟩ | ⟨_, hps⟩
  · exact .none
  · exact .some (paramList_sound hps)

/-- A thing at the top level, with its places left out. -/
def TopLevel.unplaced : TopLevel → TopLevel
  | .global d => .global (d.relabel .unplaced)
  | .function f => .function (f.relabel .unplaced)

/-- What is read at the top level is derivable, behind the word `def` if it is there. -/
theorem topLevel_sound (hend : r.ending.kind = .endOfFile) {item : TopLevel}
    {tokens rest : List Token} (h : Gives (topLevel r tokens) item rest) :
    ∃ a, (kinds tokens = a ∨ kinds tokens = .word .defWord :: a) ∧
      Item a item.unplaced (kinds rest) ∧ r.reach rest = .ok () := by
  obtain ⟨first, k, ty, t, _, x, u, _, hdef, ht, hk, hu, h⟩ := topLevel_gives.mp h
  refine ⟨kinds first, ?_, ?_⟩
  · rcases hdef with ⟨d, hd⟩ | ⟨_, rfl⟩
    · exact .inr hd.kinds_eq
    · exact .inl rfl
  · rw [ht.kinds_eq, hu.kinds_eq]
    rcases h with ⟨f, _, hf, rfl⟩ | ⟨d, _, hd, rfl⟩
    · obtain ⟨_, _, ps, _, _, _, body, h₁, hps, h₂, hb, rfl⟩ := functionRest_gives.mp hf
      have hparams := params_sound hps
      obtain ⟨hbody, hr⟩ := block_sound hend hb
      rw [h₂.kinds_eq] at hparams
      rw [h₁.kinds_eq]
      exact ⟨.function hk hparams hbody, hr⟩
    · obtain ⟨hglobal, hr⟩ := varRest_sound hk hd
      exact ⟨.global hglobal, hr⟩

/-- What is read as a program is one, and all of its text was readable. -/
theorem topLevels_sound (hend : r.ending.kind = .endOfFile) {items : List TopLevel}
    {tokens : List Token} (hno : .endOfFile ∉ kinds tokens) (hr : r.reach tokens = .ok ())
    (h : topLevels r tokens = .ok items) :
    Items (kinds tokens) (items.map (·.unplaced)) ∧ r.fault = none := by
  induction h using topLevels_induction with
  | @nil tokens _ hk =>
    -- the reader stops at the end of the file, which is no token of the text
    cases tokens with
    | nil =>
      refine ⟨.nil, ?_⟩
      cases hf : r.fault with
      | none => rfl
      | some e => simp [Reading.reach, hf] at hr
    | cons t rest => exact absurd (hk ▸ List.mem_cons_self) hno
  | @cons tokens mid _ _ _ _ _ hi ih =>
    obtain ⟨a, ha, hitem, hr'⟩ := topLevel_sound hend hi
    have hsub : kinds mid <:+ kinds tokens := by
      rcases ha with ha | ha
      · exact ha ▸ hitem.suffix
      · exact ha ▸ hitem.suffix.trans (List.suffix_cons _ _)
    obtain ⟨hmore, hf⟩ := ih (fun hm => hno (hsub.mem hm)) hr'
    refine ⟨?_, hf⟩
    rcases ha with ha | ha
    · exact ha ▸ .plain hitem hmore
    · exact ha ▸ .defined hitem hmore

end Decaf.Parser
