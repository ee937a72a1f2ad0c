import Decaf.Proofs.Syntax.Readers

/-!
# Induction along the readers

The readers of expressions call one another, and so do those of statements. What is proved
of all of them at once is proved along their calls. A reader calls another one either on fewer
tokens or on the same tokens, and then the other one has a lower rank. This file says so once,
in two ways.

`ranked_induction` is about tokens: what holds of a reader on some tokens if it holds of the
others on fewer tokens, and of those of lower rank on the same tokens, holds of all readers on
all tokens. It serves where nothing is known about how a reading ends.

Of a reading that gives something more can be said, since it is known which way it took. A motive
(`ExprMotive`, `StmtMotive`) is a property of what each reader gives. It is handed on
(`ExprMotive.HandedOn`, `StmtMotive.HandedOn`) if for each way to read something it passes from
the parts to the whole, and then it holds of all that the readers give. Neither ranks nor numbers
of tokens occur there. Rows of declarations, parameters and things at the top level are read by
loops; these have inductions of their own.
-/

namespace Decaf.Parser

/-! ## Fewer tokens, or a lower rank -/

/-- What a reader on some tokens may rely on: the others on fewer tokens, and those of lower rank
on the same tokens. -/
def Below {ι : Type} (rank : ι → Nat) (P : ι → List Token → Prop) (x : ι) (tokens : List Token) :
    Prop :=
  ∀ y rest, rest.length < tokens.length ∨ rest = tokens ∧ rank y < rank x → P y rest

section Below

variable {ι : Type} {rank : ι → Nat} {P : ι → List Token → Prop} {x : ι} {tokens rest : List Token}

/-- A call after a token was taken. -/
theorem Below.later (h : Below rank P x tokens) (y : ι) (hlt : rest.length < tokens.length) :
    P y rest :=
  h y rest (.inl hlt)

/-- A call before a token was taken. -/
theorem Below.now (h : Below rank P x tokens) (y : ι) (hlt : rank y < rank x) : P y tokens :=
  h y tokens (.inr ⟨rfl, hlt⟩)

/-- What each reader can draw from the readers that it calls holds of all of them. -/
theorem ranked_induction (rank : ι → Nat) {P : ι → List Token → Prop}
    (step : ∀ x tokens, Below rank P x tokens → P x tokens) (x : ι) (tokens : List Token) :
    P x tokens :=
  step x tokens fun y rest _ => ranked_induction rank step y rest
termination_by (tokens.length, rank x)
decreasing_by
  rename_i h
  rcases h with hlt | ⟨rfl, hlt⟩
  · exact Prod.Lex.left _ _ hlt
  · exact Prod.Lex.right _ hlt

/-- The same for a single reader that calls itself on fewer tokens. -/
theorem length_induction {Q : List Token → Prop}
    (step : ∀ tokens, (∀ rest, rest.length < tokens.length → Q rest) → Q tokens)
    (tokens : List Token) : Q tokens :=
  ranked_induction (fun _ : Unit => 0) (P := fun _ => Q)
    (fun _ tokens below => step tokens fun _ hlt => below.later () hlt) () tokens

end Below

/-- The readers of expressions. -/
inductive ExprReader where
  | expr | operators | operand | primary | callOrLocation | arguments | argumentList

/-- A reader of expressions hands on all its tokens only to one of lower rank. -/
def ExprReader.rank : ExprReader → Nat
  | operators | callOrLocation => 0
  | primary => 1
  | operand => 2
  | expr => 3
  | argumentList => 4
  | arguments => 5

/-- The readers of statements. -/
inductive StmtReader where
  | block | stmts | stmt

/-- A reader of statements hands on all its tokens only to one of lower rank. -/
def StmtReader.rank : StmtReader → Nat
  | block => 0
  | stmt => 1
  | stmts => 2

/-! ## Expressions -/

/-- Something to be shown of what the readers of expressions give: a relation between the tokens
that are read, what is given, and the tokens that are left. -/
structure ExprMotive where
  expr : List Token → Expr → List Token → Prop
  operators : List Token → Chain.Tail → List Token → Prop
  operand : List Token → Expr → List Token → Prop
  primary : List Token → Expr → List Token → Prop
  callOrLocation : List Token → Expr → List Token → Prop
  arguments : List Token → List Expr → List Token → Prop
  argumentList : List Token → List Expr → List Token → Prop

namespace ExprMotive

variable {P : ExprMotive} {r : Reading}

/-- The motive passes from the parts of an expression to the expression, whichever way it is
read. -/
structure HandedOn (P : ExprMotive) (r : Reading) : Prop where
  expr {tokens mid rest : List Token} {first : Expr} {chain : Chain.Tail} :
    P.operand tokens first mid → P.operators mid chain rest →
    P.expr tokens (Chain.assemble (joined r) first chain) rest
  noOperator {tokens : List Token} :
    (∀ op : BinaryOp, (kinds tokens).head? ≠ some (.sign op.sign)) → P.operators tokens [] tokens
  operator {op : BinaryOp} {t : Token} {tokens mid after rest : List Token} {right : Expr}
    {more : Chain.Tail} :
    r.Takes (.sign op.sign) tokens t mid → P.operand mid right after →
    P.operators after more rest → P.operators tokens ((op, right) :: more) rest
  operand {tokens rest : List Token} {e : Expr} :
    (∀ op : UnaryOp, (kinds tokens).head? ≠ some (.sign op.sign)) → P.primary tokens e rest →
    P.operand tokens e rest
  unary {op : UnaryOp} {t : Token} {tokens mid rest : List Token} {inner : Expr} :
    r.Takes (.sign op.sign) tokens t mid → P.operand mid inner rest →
    P.operand tokens (.unary (r.place (t.span.merge inner.span)) none op inner) rest
  parens {t close : Token} {tokens mid after rest : List Token} {e : Expr} :
    r.Takes (.sign .openParen) tokens t mid → P.expr mid e after →
    r.Takes (.sign .closeParen) after close rest → P.primary tokens e rest
  named {x : String} {tokens rest : List Token} {e : Expr} :
    (kinds tokens).head? = some (.identifier x) → P.callOrLocation tokens e rest →
    P.primary tokens e rest
  literal {t : Token} {v : Literal} {tokens rest : List Token} :
    r.Takes t.kind tokens t rest → literal? t = some (.ok v) →
    P.primary tokens (.literal (r.place t.span) none v) rest
  call {x : String} {t u close : Token} {tokens mid first last rest : List Token}
    {args : List Expr} :
    r.Takes (.identifier x) tokens t mid → r.Takes (.sign .openParen) mid u first →
    P.arguments first args last → r.Takes (.sign .closeParen) last close rest →
    P.callOrLocation tokens (.call (r.place (t.span.merge close.span)) none x args) rest
  element {x : String} {t u close : Token} {tokens mid first last rest : List Token} {i : Expr} :
    r.Takes (.identifier x) tokens t mid → r.Takes (.sign .openBracket) mid u first →
    P.expr first i last → r.Takes (.sign .closeBracket) last close rest →
    P.callOrLocation tokens (.location (r.place (t.span.merge close.span)) none x (some i)) rest
  scalar {x : String} {t : Token} {tokens rest : List Token} :
    r.Takes (.identifier x) tokens t rest → (kinds rest).head? ≠ some (.sign .openParen) →
    (kinds rest).head? ≠ some (.sign .openBracket) →
    P.callOrLocation tokens (.location (r.place t.span) none x none) rest
  noArgument {tokens : List Token} :
    (r.current tokens).kind = .sign .closeParen → P.arguments tokens [] tokens
  arguments {tokens rest : List Token} {args : List Expr} :
    (r.current tokens).kind ≠ .sign .closeParen → P.argumentList tokens args rest →
    P.arguments tokens args rest
  argument {tokens rest : List Token} {e : Expr} :
    P.expr tokens e rest → (kinds rest).head? ≠ some (.sign .comma) →
    P.argumentList tokens [e] rest
  moreArguments {t : Token} {tokens mid after rest : List Token} {e : Expr} {es : List Expr} :
    P.expr tokens e mid → r.Takes (.sign .comma) mid t after → P.argumentList after es rest →
    P.argumentList tokens (e :: es) rest

/-- The motive holds of all that one of the readers gives. -/
def Holds (P : ExprMotive) (r : Reading) : ExprReader → List Token → Prop
  | .expr, tokens => ∀ {e rest}, Gives (Parser.expr r tokens) e rest → P.expr tokens e rest
  | .operators, tokens =>
    ∀ {chain rest}, Gives (Parser.operators r tokens) chain rest → P.operators tokens chain rest
  | .operand, tokens => ∀ {e rest}, Gives (Parser.operand r tokens) e rest → P.operand tokens e rest
  | .primary, tokens => ∀ {e rest}, Gives (Parser.primary r tokens) e rest → P.primary tokens e rest
  | .callOrLocation, tokens =>
    ∀ {e rest}, Gives (Parser.callOrLocation r tokens) e rest → P.callOrLocation tokens e rest
  | .arguments, tokens =>
    ∀ {args rest}, Gives (Parser.arguments r tokens) args rest → P.arguments tokens args rest
  | .argumentList, tokens =>
    ∀ {args rest}, Gives (Parser.argumentList r tokens) args rest → P.argumentList tokens args rest

namespace HandedOn

/-- The induction: one case for each reader, by the equivalence that says what it gives. -/
theorem holds (h : P.HandedOn r) : ∀ x tokens, P.Holds r x tokens := by
  refine ranked_induction ExprReader.rank fun x tokens below => ?_
  cases x with
  | expr =>
    intro e rest hgives
    obtain ⟨first, mid, chain, ho, hc, rfl⟩ := expr_gives.mp hgives
    exact h.expr (below.now .operand (by decide) ho) (below.later .operators ho.length_lt hc)
  | operators =>
    intro chain rest hgives
    rcases operators_gives.mp hgives with ⟨hno, rfl, rfl⟩ |
      ⟨op, t, mid, right, after, more, ht, ho, hc, rfl⟩
    · exact h.noOperator hno
    · have hlt := ht.length_lt
      have hlt' := ho.length_lt
      exact h.operator ht (below.later .operand hlt ho) (below.later .operators (by omega) hc)
  | operand =>
    intro e rest hgives
    rcases operand_gives.mp hgives with ⟨hno, hp⟩ | ⟨op, t, mid, inner, ht, ho, rfl⟩
    · exact h.operand hno (below.now .primary (by decide) hp)
    · exact h.unary ht (below.later .operand ht.length_lt ho)
  | primary =>
    intro e rest hgives
    rcases primary_gives.mp hgives with ⟨t, mid, after, close, ht, he, hc⟩ | ⟨x, hx, he⟩ |
      ⟨t, v, ht, hv, rfl⟩
    · exact h.parens ht (below.later .expr ht.length_lt he) hc
    · exact h.named hx (below.now .callOrLocation (by decide) he)
    · exact h.literal ht hv
  | callOrLocation =>
    intro e rest hgives
    obtain ⟨x, t, mid, ht, hgives⟩ := callOrLocation_gives.mp hgives
    have hlt := ht.length_lt
    rcases hgives with ⟨u, args, first, last, close, hu, hargs, hc, rfl⟩ |
      ⟨u, i, first, last, close, hu, hi, hc, rfl⟩ | ⟨hno, hno', rfl, rfl⟩
    · have hlt' := hu.length_lt
      exact h.call ht hu (below.later .arguments (by omega) hargs) hc
    · have hlt' := hu.length_lt
      exact h.element ht hu (below.later .expr (by omega) hi) hc
    · exact h.scalar ht hno hno'
  | arguments =>
    intro args rest hgives
    rcases arguments_gives.mp hgives with ⟨hk, rfl, rfl⟩ | ⟨hk, hargs⟩
    · exact h.noArgument hk
    · exact h.arguments hk (below.now .argumentList (by decide) hargs)
  | argumentList =>
    intro args rest hgives
    obtain ⟨e, mid, he, hgives⟩ := argumentList_gives.mp hgives
    have hlt := he.length_lt
    have hfirst := below.now .expr (by decide) he
    rcases hgives with ⟨t, after, es, ht, hes, rfl⟩ | ⟨hno, rfl, rfl⟩
    · have hlt' := ht.length_lt
      exact h.moreArguments hfirst ht (below.later .argumentList (by omega) hes)
    · exact h.argument hfirst hno

variable {tokens rest : List Token} {e : Expr}

/-- What is read as an expression has the property. -/
theorem of_expr (h : P.HandedOn r) (he : Gives (Parser.expr r tokens) e rest) :
    P.expr tokens e rest :=
  h.holds .expr tokens he

/-- So has what is read where a name begins it, as the target of a statement. -/
theorem of_callOrLocation (h : P.HandedOn r) (he : Gives (Parser.callOrLocation r tokens) e rest) :
    P.callOrLocation tokens e rest :=
  h.holds .callOrLocation tokens he

end HandedOn

end ExprMotive

/-! ## Statements -/

/-- Something to be shown of what the readers of blocks and statements give. -/
structure StmtMotive where
  block : List Token → Block → List Token → Prop
  stmts : List Token → List Stmt → List Token → Prop
  stmt : List Token → Stmt → List Token → Prop

namespace StmtMotive

variable {P : StmtMotive} {r : Reading}

/-- The motive passes from the parts of blocks and statements to the whole, whichever way it is
read. What the whole is read from is known as well. -/
structure HandedOn (P : StmtMotive) (r : Reading) : Prop where
  block {first last : Token} {tokens rest₁ rest₂ rest₃ rest : List Token}
    {locals : List VarDecl} {statements : List Stmt} :
    Gives (Parser.block r tokens)
      ⟨locals, statements, r.place (first.span.merge last.span), none⟩ rest →
    r.Takes (.sign .openBrace) tokens first rest₁ → Gives (varDecls r rest₁) locals rest₂ →
    P.stmts rest₂ statements rest₃ → r.Takes (.sign .closeBrace) rest₃ last rest →
    P.block tokens ⟨locals, statements, r.place (first.span.merge last.span), none⟩ rest
  noStmt {tokens : List Token} :
    (r.current tokens).kind = .sign .closeBrace ∨ (r.current tokens).kind = .endOfFile →
    P.stmts tokens [] tokens
  moreStmts {tokens mid rest : List Token} {s : Stmt} {others : List Stmt} :
    ¬ ((r.current tokens).kind = .sign .closeBrace ∨ (r.current tokens).kind = .endOfFile) →
    P.stmt tokens s mid → P.stmts mid others rest → P.stmts tokens (s :: others) rest
  ifThen {t : Token} {mid rest₁ rest : List Token} {test : Expr} {b : Block} :
    Gives (Parser.stmt r (t :: mid))
      (.conditional (r.place (t.span.merge b.place.span)) test b none) rest →
    t.kind = .word .ifWord → Gives (condition r mid) test rest₁ → P.block rest₁ b rest →
    (kinds rest).head? ≠ some (.word .elseWord) →
    P.stmt (t :: mid) (.conditional (r.place (t.span.merge b.place.span)) test b none) rest
  ifElse {t u : Token} {mid rest₁ rest₂ rest₃ rest : List Token} {test : Expr} {b c : Block} :
    Gives (Parser.stmt r (t :: mid))
      (.conditional (r.place (t.span.merge c.place.span)) test b (some c)) rest →
    t.kind = .word .ifWord → Gives (condition r mid) test rest₁ → P.block rest₁ b rest₂ →
    r.Takes (.word .elseWord) rest₂ u rest₃ → P.block rest₃ c rest →
    P.stmt (t :: mid) (.conditional (r.place (t.span.merge c.place.span)) test b (some c)) rest
  loop {t : Token} {mid rest₁ rest : List Token} {test : Expr} {b : Block} :
    Gives (Parser.stmt r (t :: mid)) (.loop (r.place (t.span.merge b.place.span)) test b) rest →
    t.kind = .word .whileWord → Gives (condition r mid) test rest₁ → P.block rest₁ b rest →
    P.stmt (t :: mid) (.loop (r.place (t.span.merge b.place.span)) test b) rest
  inner {t : Token} {mid rest : List Token} {b : Block} :
    Gives (Parser.stmt r (t :: mid)) (.block (r.place b.place.span) b) rest →
    t.kind = .sign .openBrace → P.block (t :: mid) b rest →
    P.stmt (t :: mid) (.block (r.place b.place.span) b) rest
  ret {t : Token} {mid rest₁ rest : List Token} {value : Option Expr} {s : Stmt} :
    Gives (Parser.stmt r (t :: mid)) s rest → t.kind = .word .returnWord →
    Gives (returnValue r mid) value rest₁ →
    Gives (finish r t.span (.ret · value) rest₁) s rest → P.stmt (t :: mid) s rest
  leave {t : Token} {mid rest : List Token} {s : Stmt} :
    Gives (Parser.stmt r (t :: mid)) s rest → t.kind = .word .breakWord →
    Gives (finish r t.span .break mid) s rest → P.stmt (t :: mid) s rest
  again {t : Token} {mid rest : List Token} {s : Stmt} :
    Gives (Parser.stmt r (t :: mid)) s rest → t.kind = .word .continueWord →
    Gives (finish r t.span .continue mid) s rest → P.stmt (t :: mid) s rest
  simple {x : String} {t : Token} {mid rest : List Token} {s : Stmt} :
    Gives (Parser.stmt r (t :: mid)) s rest → t.kind = .identifier x →
    Gives (simpleStmt r t.span ((r.current mid).kind = .sign .openParen) (t :: mid)) s rest →
    P.stmt (t :: mid) s rest

/-- The motive holds of all that one of the readers gives. -/
def Holds (P : StmtMotive) (r : Reading) : StmtReader → List Token → Prop
  | .block, tokens => ∀ {b rest}, Gives (Parser.block r tokens) b rest → P.block tokens b rest
  | .stmts, tokens => ∀ {ss rest}, Gives (Parser.stmts r tokens) ss rest → P.stmts tokens ss rest
  | .stmt, tokens => ∀ {s rest}, Gives (Parser.stmt r tokens) s rest → P.stmt tokens s rest

namespace HandedOn

/-- A statement, by the word or the sign that it begins with. -/
theorem of_below (h : P.HandedOn r) {tokens rest : List Token} {s : Stmt}
    (below : Below StmtReader.rank (P.Holds r) .stmt tokens)
    (hgives : Gives (Parser.stmt r tokens) s rest) : P.stmt tokens s rest := by
  cases tokens with
  | nil => exact (stmt_gives_nil.mp hgives).elim
  | cons t mid =>
    have hlength : (t :: mid).length = mid.length + 1 := List.length_cons
    rcases stmt_gives_kind hgives with hk | hk | hk | hk | hk | hk | ⟨x, hk⟩
    · obtain ⟨-, test, rest₁, b, rest₂, htest, hb, helse⟩ := (stmt_gives_if hk).mp hgives
      have h₁ := htest.length_lt
      have h₂ := hb.length_lt
      have hthen := below.later .block (by omega) hb
      rcases helse with ⟨u, rest₃, c, hu, hc, rfl⟩ | ⟨hno, rfl, rfl⟩
      · have h₃ := hu.length_lt
        exact h.ifElse hgives hk htest hthen hu (below.later .block (by omega) hc)
      · exact h.ifThen hgives hk htest hthen hno
    · obtain ⟨-, test, rest₁, b, htest, hb, rfl⟩ := (stmt_gives_while hk).mp hgives
      have h₁ := htest.length_lt
      exact h.loop hgives hk htest (below.later .block (by omega) hb)
    · obtain ⟨b, hb, rfl⟩ := (stmt_gives_brace hk).mp hgives
      exact h.inner hgives hk (below.now .block (by decide) hb)
    · obtain ⟨-, value, rest₁, hv, hfinish⟩ := (stmt_gives_return hk).mp hgives
      exact h.ret hgives hk hv hfinish
    · exact h.leave hgives hk ((stmt_gives_break hk).mp hgives).2
    · exact h.again hgives hk ((stmt_gives_continue hk).mp hgives).2
    · exact h.simple hgives hk ((stmt_gives_name hk).mp hgives).2

/-- The induction. -/
theorem holds (h : P.HandedOn r) : ∀ x tokens, P.Holds r x tokens := by
  refine ranked_induction StmtReader.rank fun x tokens below => ?_
  cases x with
  | block =>
    intro b rest hgives
    obtain ⟨first, rest₁, locals, rest₂, statements, rest₃, last, hopen, hlocals, hstmts, hclose,
      rfl⟩ := block_gives.mp hgives
    have h₁ := hopen.length_lt
    have h₂ := hlocals.length_lt
    exact h.block hgives hopen hlocals (below.later .stmts (by omega) hstmts) hclose
  | stmts =>
    intro ss rest hgives
    rcases stmts_gives.mp hgives with ⟨hk, rfl, rfl⟩ | ⟨s, mid, others, hk, hs, hothers, rfl⟩
    · exact h.noStmt hk
    · exact h.moreStmts hk (below.now .stmt (by decide) hs)
        (below.later .stmts hs.length_lt hothers)
  | stmt =>
    intro s rest hgives
    exact h.of_below below hgives

/-- What is read as a block has the property. -/
theorem of_block (h : P.HandedOn r) {tokens rest : List Token} {b : Block}
    (hb : Gives (Parser.block r tokens) b rest) : P.block tokens b rest :=
  h.holds .block tokens hb

end HandedOn

end StmtMotive

/-! ## Rows -/

section Rows

variable {r : Reading}

/-- Declarations of variables, one after the other. -/
theorem varDecls_induction
    {motive : (tokens : List Token) → (ds : List VarDecl) → (rest : List Token) →
      Gives (varDecls r tokens) ds rest → Prop}
    (nil : ∀ {tokens} (h : Gives (varDecls r tokens) [] tokens),
      (r.current tokens).kind.type? = none → motive tokens [] tokens h)
    (cons : ∀ {tokens mid rest d others} (h : Gives (varDecls r tokens) (d :: others) rest)
      (hothers : Gives (varDecls r mid) others rest), (r.current tokens).kind.type?.isSome →
      Gives (varDecl r tokens) d mid → motive mid others rest hothers →
      motive tokens (d :: others) rest h)
    {tokens : List Token} {ds : List VarDecl} {rest : List Token}
    (h : Gives (varDecls r tokens) ds rest) : motive tokens ds rest h := by
  induction tokens using length_induction generalizing ds rest with
  | step tokens ih =>
    rcases varDecls_gives.mp h with ⟨d, mid, others, hk, hd, hothers, rfl⟩ | ⟨hk, rfl, rfl⟩
    · exact cons h hothers hk hd (ih mid hd.length_lt hothers)
    · exact nil h hk

/-- Parameters, with commas between them. -/
theorem paramList_induction
    {motive : (tokens : List Token) → (ps : List Param) → (rest : List Token) →
      Gives (paramList r tokens) ps rest → Prop}
    (one : ∀ {k ty t u x tokens mid rest}
      (h : Gives (paramList r tokens) [⟨x, ty, r.place (t.span.merge u.span)⟩] rest),
      r.Takes k tokens t mid → Grammar.TypeName k ty → r.Takes (.identifier x) mid u rest →
      (kinds rest).head? ≠ some (.sign .comma) → motive tokens _ rest h)
    (more : ∀ {k ty t u x c tokens mid after next others rest}
      (h : Gives (paramList r tokens) (⟨x, ty, r.place (t.span.merge u.span)⟩ :: others) rest)
      (hothers : Gives (paramList r next) others rest),
      r.Takes k tokens t mid → Grammar.TypeName k ty → r.Takes (.identifier x) mid u after →
      r.Takes (.sign .comma) after c next → motive next others rest hothers →
      motive tokens _ rest h)
    {tokens : List Token} {ps : List Param} {rest : List Token}
    (h : Gives (paramList r tokens) ps rest) : motive tokens ps rest h := by
  induction tokens using length_induction generalizing ps rest with
  | step tokens ih =>
    obtain ⟨k, ty, t, mid, x, u, after, ht, hk, hu, hmore⟩ := paramList_gives.mp h
    have h₁ := ht.length_lt
    have h₂ := hu.length_lt
    rcases hmore with ⟨c, next, others, hc, hothers, rfl⟩ | ⟨hno, rfl, rfl⟩
    · have h₃ := hc.length_lt
      exact more h hothers ht hk hu hc (ih next (by omega) hothers)
    · exact one h ht hk hu hno

/-- Things at the top level, up to the end of the file. -/
theorem topLevels_induction
    {motive : (tokens : List Token) → (items : List TopLevel) →
      topLevels r tokens = .ok items → Prop}
    (nil : ∀ {tokens} (h : topLevels r tokens = .ok []),
      (r.current tokens).kind = .endOfFile → motive tokens [] h)
    (cons : ∀ {tokens mid item others} (h : topLevels r tokens = .ok (item :: others))
      (hothers : topLevels r mid = .ok others), (r.current tokens).kind ≠ .endOfFile →
      Gives (topLevel r tokens) item mid → motive mid others hothers →
      motive tokens (item :: others) h)
    {tokens : List Token} {items : List TopLevel} (h : topLevels r tokens = .ok items) :
    motive tokens items h := by
  induction tokens using length_induction generalizing items with
  | step tokens ih =>
    rcases topLevels_eq_ok_iff.mp h with ⟨hk, rfl⟩ | ⟨item, mid, others, hk, hi, hothers, rfl⟩
    · exact nil h hk
    · exact cons h hothers hk hi (ih mid hi.length_lt hothers)

end Rows

end Decaf.Parser
