import Mathlib.Computability.Language
import Mathlib.Order.CompletePartialOrder
import Decaf.Proofs.Syntax.Printed

/-!
# Constructs as languages

A construct of the grammar is a language: the rows that make it up whatever comes
after them (`phrases`). The rules of the grammar then read as inclusions between
languages, with `*` for one thing after another and `+` for a choice. A right side
is what a reader goes through, token by token, so these inclusions are what a
reader has to show for the tokens it took.

A row opens a language if it can be completed to one of its rows (`Opens`). The
completion has to be well spelled, for it is to stand in a text. Every construct is
opened by the empty row: nothing in the grammar is impossible to finish.
-/

namespace Decaf.Grammar

/-! ## Rows of a single token -/

/-- The rows of one token, of a kind with a given property. -/
def single (p : Token.Kind → Prop) : Language Token.Kind :=
  {u | ∃ k, p k ∧ u = [k]}

/-- The row of one token of a given kind. -/
def token (k : Token.Kind) : Language Token.Kind :=
  single (· = k)

/-- The kinds that are names. -/
def IsIdentifier (k : Token.Kind) : Prop :=
  ∃ x, k = .identifier x

/-- The kinds that name a type. -/
def IsTypeName (k : Token.Kind) : Prop :=
  ∃ ty, TypeName k ty

/-- The kinds that are literals. -/
def IsLiteral (k : Token.Kind) : Prop :=
  ∃ v, Denotes k v

/-- The kinds that can be the length of an array. -/
def IsLength (k : Token.Kind) : Prop :=
  ∃ text, k = .decLiteral text ∧ digitsValue 10 text.toList ≤ 18446744073709551615

/-- The kinds that are operators between two operands. -/
def IsBinary (k : Token.Kind) : Prop :=
  ∃ op : BinaryOp, k = .sign op.sign

/-- The kinds that are operators before an operand. -/
def IsUnary (k : Token.Kind) : Prop :=
  ∃ op : UnaryOp, k = .sign op.sign

theorem mem_single {p : Token.Kind → Prop} {k : Token.Kind} : [k] ∈ single p ↔ p k := by
  constructor
  · intro h
    obtain ⟨k', hk, he⟩ := h
    cases he
    exact hk
  · intro h
    exact ⟨k, h, rfl⟩

/-! ## Going through a product -/

/-- To say something of all rows of a product, say it of two rows put together. With the next
lemmas this turns an inclusion into a statement about single rows. -/
theorem forall_mem_mul {L M : Language Token.Kind} {P : Word → Prop} :
    (∀ w ∈ L * M, P w) ↔ ∀ u ∈ L, ∀ v ∈ M, P (u ++ v) := by
  constructor
  · intro h u hu v hv
    exact h _ (Language.append_mem_mul hu hv)
  · intro h w hw
    obtain ⟨u, hu, v, hv, rfl⟩ := Language.mem_mul.mp hw
    exact h u hu v hv

theorem forall_mem_add {L M : Language Token.Kind} {P : Word → Prop} :
    (∀ w ∈ L + M, P w) ↔ (∀ w ∈ L, P w) ∧ ∀ w ∈ M, P w := by
  simp only [Language.mem_add, or_imp, forall_and]

theorem forall_mem_one {P : Word → Prop} : (∀ w ∈ (1 : Language Token.Kind), P w) ↔ P [] := by
  simp only [Language.mem_one, forall_eq]

theorem forall_mem_single {p : Token.Kind → Prop} {P : Word → Prop} :
    (∀ w ∈ single p, P w) ↔ ∀ k, p k → P [k] := by
  constructor
  · intro h k hk
    exact h [k] (mem_single.mpr hk)
  · intro h w hw
    obtain ⟨k, hk, rfl⟩ := hw
    exact h k hk

/-- A language of one row. -/
theorem forall_mem_token {k : Token.Kind} {P : Word → Prop} :
    (∀ w ∈ token k, P w) ↔ P [k] := by
  simp only [token, forall_mem_single, forall_eq]

/-! ## Rows that can be completed -/

/-- A row that well spelled tokens complete to one of the language. -/
def Opens (L : Language Token.Kind) (u : Word) : Prop :=
  ∃ c, Spelled c ∧ u ++ c ∈ L

namespace Opens

variable {L M : Language Token.Kind} {u v : Word}

theorem of_mem (h : u ∈ L) : Opens L u :=
  ⟨[], .nil, by rwa [List.append_nil]⟩

/-- What opens a construct opens whatever the construct may be. -/
theorem mono (h : Opens L u) (hle : L ≤ M) : Opens M u := by
  obtain ⟨c, hc, hmem⟩ := h
  exact ⟨c, hc, hle hmem⟩

/-- What is opened can be completed and then followed by something. -/
theorem mul_left (h : Opens L u) (hM : Opens M []) : Opens (L * M) u := by
  obtain ⟨c, hc, hmem⟩ := h
  obtain ⟨d, hd, hmem'⟩ := hM
  refine ⟨c ++ d, hc.append hd, ?_⟩
  rw [← List.append_assoc]
  exact Language.append_mem_mul hmem hmem'

/-- Behind a finished part, what opens the next part opens the whole. -/
theorem mul_right (h : u ∈ L) (hM : Opens M v) : Opens (L * M) (u ++ v) := by
  obtain ⟨c, hc, hmem⟩ := hM
  refine ⟨c, hc, ?_⟩
  rw [List.append_assoc]
  exact Language.append_mem_mul h hmem

theorem add_left (h : Opens L u) : Opens (L + M) u :=
  h.mono le_self_add

theorem add_right (h : Opens M u) : Opens (L + M) u :=
  h.mono le_add_self

/-- Nothing is missing from the empty row. -/
theorem one : Opens 1 [] :=
  of_mem Language.nil_mem_one

/-- A token that can be spelled completes the empty row. -/
theorem single {p : Token.Kind → Prop} (k : Token.Kind) (hk : p k) (hs : k.WellSpelled) :
    Opens (Grammar.single p) [] :=
  ⟨[k], .cons hs .nil, mem_single.mpr hk⟩

theorem sign (s : Sign) : Opens (token (.sign s)) [] :=
  single (.sign s) rfl trivial

theorem identifier : Opens (Grammar.single IsIdentifier) [] :=
  single (.identifier "x") ⟨"x", rfl⟩ (show IsName "x" by decide)

theorem typeName : Opens (Grammar.single IsTypeName) [] :=
  single (.word .intWord) ⟨.int, .int⟩ trivial

theorem literal : Opens (Grammar.single IsLiteral) [] :=
  single (.word .trueWord) ⟨.bool true, .true⟩ trivial

/-- The length zero will do: the grammar asks only that it is not too large. -/
theorem length : Opens (Grammar.single IsLength) [] :=
  single (numeral 0) ⟨_, rfl, by rw [digitsValue_toString]; omega⟩ (numeral_wellSpelled 0)

end Opens

/-! ## Constructs -/

/-- The rows that are a construct by themselves: with any row behind them the
construct is derived, and that row is left. -/
def phrases {α : Type} (R : Word → α → Word → Prop) : Language Token.Kind :=
  {u | ∀ b, ∃ tree, R (u ++ b) tree b}

/-- What it takes for an inclusion among constructs: each row is read as the construct, whatever
comes after it. -/
theorem le_phrases {α : Type} {L : Language Token.Kind} {R : Word → α → Word → Prop} :
    L ≤ phrases R ↔ ∀ w ∈ L, ∀ b, ∃ tree, R (w ++ b) tree b :=
  Iff.rfl

/-- The rows that make up a whole program. -/
def itemRows : Language Token.Kind :=
  {u | ∃ items, Items u items}

/-- The same for whole programs, after which nothing comes. -/
theorem le_itemRows {L : Language Token.Kind} :
    L ≤ itemRows ↔ ∀ w ∈ L, ∃ items, Items w items :=
  Iff.rfl

/-! ### Expressions -/

/-- A primary expression is an operand. -/
theorem primary_rule : phrases Primary ≤ phrases (ExprAt 7) := by
  intro u hu b
  obtain ⟨e, he⟩ := hu b
  exact ⟨e, .primary he⟩

/-- Unary operators stand before an operand. -/
theorem unary_rule : single IsUnary * phrases (ExprAt 7) ≤ phrases (ExprAt 7) := by
  simp only [le_phrases, forall_mem_mul, forall_mem_single]
  intro k hk u hu b
  obtain ⟨op, rfl⟩ := hk
  obtain ⟨e, he⟩ := hu b
  exact ⟨_, .unary he⟩

theorem noOperators_rule : 1 ≤ phrases (Operators 7) := by
  simp only [le_phrases, forall_mem_one]
  intro b
  exact ⟨_, .nil⟩

/-- One more operator with its operand at the front of a chain. -/
theorem operators_rule :
    single IsBinary * (phrases (ExprAt 7) * phrases (Operators 7)) ≤ phrases (Operators 7) := by
  simp only [le_phrases, forall_mem_mul, forall_mem_single, List.append_assoc]
  intro k hk u hu v hv b
  obtain ⟨op, rfl⟩ := hk
  obtain ⟨rest, hrest⟩ := hv b
  obtain ⟨e, he⟩ := hu (v ++ b)
  exact ⟨_, .cons he hrest⟩

/-- An operand and a chain are an expression. This is where precedence comes in: the chain is
flat, the derivation is not. -/
theorem expr_rule : phrases (ExprAt 7) * phrases (Operators 7) ≤ phrases (ExprAt 1) := by
  simp only [le_phrases, forall_mem_mul, List.append_assoc]
  intro u hu v hv b
  obtain ⟨rest, hrest⟩ := hv b
  obtain ⟨first, hfirst⟩ := hu (v ++ b)
  exact ⟨_, .of_chain hfirst hrest⟩

/-- Parentheses make a primary expression of any expression. -/
theorem parens_rule :
    token (.sign .openParen) * (phrases (ExprAt 1) * token (.sign .closeParen)) ≤
      phrases Primary := by
  simp only [le_phrases, forall_mem_mul, forall_mem_token, List.append_assoc]
  intro u hu b
  obtain ⟨e, he⟩ := hu (.sign .closeParen :: b)
  exact ⟨e, .parens he⟩

theorem literal_rule : single IsLiteral ≤ phrases Primary := by
  simp only [le_phrases, forall_mem_single]
  intro k hk b
  obtain ⟨v, hv⟩ := hk
  exact ⟨_, .literal hv⟩

theorem location_rule : phrases Location ≤ phrases Primary := by
  intro u hu b
  obtain ⟨e, he⟩ := hu b
  exact ⟨e, .location he⟩

theorem callExpr_rule : phrases Call ≤ phrases Primary := by
  intro u hu b
  obtain ⟨e, he⟩ := hu b
  exact ⟨e, .call he⟩

/-- A name is a location of its own. -/
theorem scalar_rule : single IsIdentifier ≤ phrases Location := by
  simp only [le_phrases, forall_mem_single]
  intro k hk b
  obtain ⟨x, rfl⟩ := hk
  exact ⟨_, .scalar⟩

/-- A name with an index is a location. -/
theorem element_rule :
    single IsIdentifier * (token (.sign .openBracket) *
      (phrases (ExprAt 1) * token (.sign .closeBracket))) ≤ phrases Location := by
  simp only [le_phrases, forall_mem_mul, forall_mem_single, forall_mem_token, List.append_assoc]
  intro k hk u hu b
  obtain ⟨x, rfl⟩ := hk
  obtain ⟨i, hi⟩ := hu (.sign .closeBracket :: b)
  exact ⟨_, .element hi⟩

/-- A name with arguments is a call. -/
theorem call_rule :
    single IsIdentifier * (token (.sign .openParen) *
      (phrases Arguments * token (.sign .closeParen))) ≤ phrases Call := by
  simp only [le_phrases, forall_mem_mul, forall_mem_single, forall_mem_token, List.append_assoc]
  intro k hk u hu b
  obtain ⟨x, rfl⟩ := hk
  obtain ⟨args, hargs⟩ := hu (.sign .closeParen :: b)
  exact ⟨_, .mk hargs⟩

theorem noArguments_rule : 1 ≤ phrases Arguments := by
  simp only [le_phrases, forall_mem_one]
  intro b
  exact ⟨_, .none⟩

theorem arguments_rule : phrases ArgumentList ≤ phrases Arguments := by
  intro u hu b
  obtain ⟨args, hargs⟩ := hu b
  exact ⟨args, .some hargs⟩

/-- Arguments with commas between them; the choice behind the first one is whether a comma
follows. -/
theorem argumentList_rule :
    phrases (ExprAt 1) * (token (.sign .comma) * phrases ArgumentList + 1) ≤
      phrases ArgumentList := by
  simp only [le_phrases, forall_mem_mul, forall_mem_add, forall_mem_one, forall_mem_token,
    List.append_assoc]
  intro u hu
  refine ⟨fun v hv b => ?_, fun b => ?_⟩
  · obtain ⟨es, hes⟩ := hv b
    obtain ⟨e, he⟩ := hu (.sign .comma :: (v ++ b))
    exact ⟨_, .more he hes⟩
  · obtain ⟨e, he⟩ := hu b
    exact ⟨_, .one he⟩

/-! ### Declarations -/

/-- What follows the name in the declaration of a variable. -/
def variableRest : Language Token.Kind :=
  token (.sign .openBracket) * (single IsLength * (token (.sign .closeBracket) *
    token (.sign .semicolon))) + token (.sign .semicolon)

/-- The two ways to go on behind a name, with a length or without one. -/
theorem variable_rule :
    single IsTypeName * (single IsIdentifier * variableRest) ≤ phrases Variable := by
  simp only [variableRest, le_phrases, forall_mem_mul, forall_mem_add, forall_mem_single,
    forall_mem_token, List.append_assoc]
  intro k hk k' hk'
  obtain ⟨ty, hty⟩ := hk
  obtain ⟨x, rfl⟩ := hk'
  refine ⟨fun n hn b => ?_, fun b => ?_⟩
  · obtain ⟨text, rfl, hle⟩ := hn
    exact ⟨_, .array hty hle⟩
  · exact ⟨_, .scalar hty⟩

theorem noVariables_rule : 1 ≤ phrases Variables := by
  simp only [le_phrases, forall_mem_one]
  intro b
  exact ⟨_, .nil⟩

/-- One more declaration at the front. -/
theorem variables_rule : phrases Variable * phrases Variables ≤ phrases Variables := by
  simp only [le_phrases, forall_mem_mul, List.append_assoc]
  intro u hu v hv b
  obtain ⟨ds, hds⟩ := hv b
  obtain ⟨d, hd⟩ := hu (v ++ b)
  exact ⟨_, .cons hd hds⟩

/-! ### Statements -/

/-- Conditions: expressions in parentheses. -/
def conditions : Language Token.Kind :=
  token (.sign .openParen) * (phrases (ExprAt 1) * token (.sign .closeParen))

/-- A block has its declarations before its statements. -/
theorem braces_rule :
    token (.sign .openBrace) * (phrases Variables * (phrases Statements *
      token (.sign .closeBrace))) ≤ phrases Braces := by
  simp only [le_phrases, forall_mem_mul, forall_mem_token, List.append_assoc]
  intro u hu v hv b
  obtain ⟨statements, hstatements⟩ := hv (.sign .closeBrace :: b)
  obtain ⟨locals, hlocals⟩ := hu (v ++ .sign .closeBrace :: b)
  exact ⟨_, .mk hlocals hstatements⟩

/-- An assignment begins with a location, so a name alone may still become one. -/
theorem assign_rule :
    phrases Location * (token (.sign .equal) * (phrases (ExprAt 1) * token (.sign .semicolon))) ≤
      phrases Statement := by
  simp only [le_phrases, forall_mem_mul, forall_mem_token, List.append_assoc]
  intro u hu v hv b
  obtain ⟨value, hvalue⟩ := hv (.sign .semicolon :: b)
  obtain ⟨target, htarget⟩ := hu (.sign .equal :: (v ++ .sign .semicolon :: b))
  exact ⟨_, .assign htarget hvalue⟩

theorem callStmt_rule : phrases Call * token (.sign .semicolon) ≤ phrases Statement := by
  simp only [le_phrases, forall_mem_mul, forall_mem_token, List.append_assoc]
  intro u hu b
  obtain ⟨e, he⟩ := hu (.sign .semicolon :: b)
  exact ⟨_, .call he⟩

/-- Both forms of a conditional at once, since which it is depends on what follows the first
block. -/
theorem if_rule :
    token (.word .ifWord) * (conditions * (phrases Braces *
      (token (.word .elseWord) * phrases Braces + 1))) ≤ phrases Statement := by
  simp only [conditions, le_phrases, forall_mem_mul, forall_mem_add, forall_mem_one,
    forall_mem_token, List.append_assoc]
  intro u hu v hv
  refine ⟨fun w hw b => ?_, fun b => ?_⟩
  · obtain ⟨other, hother⟩ := hw b
    obtain ⟨body, hbody⟩ := hv (.word .elseWord :: (w ++ b))
    obtain ⟨test, htest⟩ := hu (.sign .closeParen :: (v ++ .word .elseWord :: (w ++ b)))
    exact ⟨_, .ifElse htest hbody hother⟩
  · obtain ⟨body, hbody⟩ := hv b
    obtain ⟨test, htest⟩ := hu (.sign .closeParen :: (v ++ b))
    exact ⟨_, .ifThen htest hbody⟩

/-- A loop. -/
theorem while_rule :
    token (.word .whileWord) * (conditions * phrases Braces) ≤ phrases Statement := by
  simp only [conditions, le_phrases, forall_mem_mul, forall_mem_token, List.append_assoc]
  intro u hu v hv b
  obtain ⟨body, hbody⟩ := hv b
  obtain ⟨test, htest⟩ := hu (.sign .closeParen :: (v ++ b))
  exact ⟨_, .loop htest hbody⟩

/-- A `return` with a value or without one. -/
theorem return_rule :
    token (.word .returnWord) * ((1 + phrases (ExprAt 1)) * token (.sign .semicolon)) ≤
      phrases Statement := by
  simp only [le_phrases, forall_mem_mul, forall_mem_add, forall_mem_one, forall_mem_token,
    List.append_assoc]
  refine ⟨fun b => ⟨_, .giveNothing⟩, fun u hu b => ?_⟩
  obtain ⟨value, hvalue⟩ := hu (.sign .semicolon :: b)
  exact ⟨_, .give hvalue⟩

theorem break_rule :
    token (.word .breakWord) * token (.sign .semicolon) ≤ phrases Statement := by
  simp only [le_phrases, forall_mem_mul, forall_mem_token]
  intro b
  exact ⟨_, .leave⟩

theorem continue_rule :
    token (.word .continueWord) * token (.sign .semicolon) ≤ phrases Statement := by
  simp only [le_phrases, forall_mem_mul, forall_mem_token]
  intro b
  exact ⟨_, .again⟩

theorem inner_rule : phrases Braces ≤ phrases Statement := by
  intro u hu b
  obtain ⟨body, hbody⟩ := hu b
  exact ⟨_, .braces hbody⟩

theorem noStatements_rule : 1 ≤ phrases Statements := by
  simp only [le_phrases, forall_mem_one]
  intro b
  exact ⟨_, .nil⟩

/-- One more statement at the front. -/
theorem statements_rule : phrases Statement * phrases Statements ≤ phrases Statements := by
  simp only [le_phrases, forall_mem_mul, List.append_assoc]
  intro u hu v hv b
  obtain ⟨ss, hss⟩ := hv b
  obtain ⟨s, hs⟩ := hu (v ++ b)
  exact ⟨_, .cons hs hss⟩

/-! ### Programs -/

/-- Parameters with commas between them. -/
theorem parameterList_rule :
    single IsTypeName * (single IsIdentifier *
      (token (.sign .comma) * phrases ParameterList + 1)) ≤ phrases ParameterList := by
  simp only [le_phrases, forall_mem_mul, forall_mem_add, forall_mem_one, forall_mem_single,
    forall_mem_token, List.append_assoc]
  intro k hk k' hk'
  obtain ⟨ty, hty⟩ := hk
  obtain ⟨x, rfl⟩ := hk'
  refine ⟨fun u hu b => ?_, fun b => ?_⟩
  · obtain ⟨ps, hps⟩ := hu b
    exact ⟨_, .more hty hps⟩
  · exact ⟨_, .one hty⟩

theorem noParameters_rule : 1 ≤ phrases Parameters := by
  simp only [le_phrases, forall_mem_one]
  intro b
  exact ⟨_, .none⟩

theorem parameters_rule : phrases ParameterList ≤ phrases Parameters := by
  intro u hu b
  obtain ⟨ps, hps⟩ := hu b
  exact ⟨ps, .some hps⟩

/-- What follows the name in the declaration of a function. -/
def functionRest : Language Token.Kind :=
  token (.sign .openParen) * (phrases Parameters * (token (.sign .closeParen) * phrases Braces))

/-- Behind a type and a name, at the top level, comes a function or a variable. -/
theorem item_rule :
    single IsTypeName * (single IsIdentifier * (functionRest + variableRest)) ≤ phrases Item := by
  rw [mul_add, mul_add]
  refine add_le ?_ ?_
  · simp only [functionRest, le_phrases, forall_mem_mul, forall_mem_single, forall_mem_token,
      List.append_assoc]
    intro k hk k' hk' u hu v hv b
    obtain ⟨ty, hty⟩ := hk
    obtain ⟨x, rfl⟩ := hk'
    obtain ⟨body, hbody⟩ := hv b
    obtain ⟨ps, hps⟩ := hu (.sign .closeParen :: (v ++ b))
    exact ⟨_, .function hty hps hbody⟩
  · intro u hu b
    obtain ⟨d, hd⟩ := variable_rule hu b
    exact ⟨_, .global hd⟩

theorem noItems_rule : 1 ≤ itemRows := by
  simp only [le_itemRows, forall_mem_one]
  exact ⟨_, .nil⟩

/-- One more thing at the top level, with or without the word before it. -/
theorem items_rule :
    (token (.word .defWord) * phrases Item + phrases Item) * itemRows ≤ itemRows := by
  simp only [le_itemRows, add_mul, forall_mem_add, forall_mem_mul, forall_mem_token,
    List.append_assoc]
  refine ⟨fun u hu v hv => ?_, fun u hu v hv => ?_⟩
  · obtain ⟨items, hitems⟩ := hv
    obtain ⟨item, hitem⟩ := hu v
    exact ⟨_, .defined hitem hitems⟩
  · obtain ⟨items, hitems⟩ := hv
    obtain ⟨item, hitem⟩ := hu v
    exact ⟨_, .plain hitem hitems⟩

/-! ### Every construct can be finished -/

namespace Opens

/-- A literal finishes a primary expression, and with it an operand. -/
theorem primary : Opens (phrases Primary) [] :=
  literal.mono literal_rule

theorem operand : Opens (phrases (ExprAt 7)) [] :=
  primary.mono primary_rule

/-- A chain need not have operators. -/
theorem operators : Opens (phrases (Operators 7)) [] :=
  one.mono noOperators_rule

/-- From an operand an expression is finished without further operators. -/
theorem expr : Opens (phrases (ExprAt 1)) [] :=
  (operand.mul_left operators).mono expr_rule

/-- A call need not have arguments. -/
theorem arguments : Opens (phrases Arguments) [] :=
  one.mono noArguments_rule

theorem argumentList : Opens (phrases ArgumentList) [] :=
  (expr.mul_left one.add_right).mono argumentList_rule

/-- A semicolon finishes a declaration. -/
theorem variableRest : Opens variableRest [] :=
  (sign .semicolon).add_right

/-- A literal in parentheses will do as a condition. -/
theorem conditions : Opens conditions [] :=
  (sign .openParen).mul_left (expr.mul_left (sign .closeParen))

theorem locals : Opens (phrases Variables) [] :=
  one.mono noVariables_rule

theorem statements : Opens (phrases Statements) [] :=
  one.mono noStatements_rule

/-- An empty block. -/
theorem braces : Opens (phrases Braces) [] :=
  ((sign .openBrace).mul_left (locals.mul_left (statements.mul_left (sign .closeBrace)))).mono
    braces_rule

/-- An empty block will do as a statement. -/
theorem statement : Opens (phrases Statement) [] :=
  braces.mono inner_rule

theorem parameters : Opens (phrases Parameters) [] :=
  one.mono noParameters_rule

theorem parameterList : Opens (phrases ParameterList) [] :=
  (typeName.mul_left (identifier.mul_left one.add_right)).mono parameterList_rule

/-- A variable will do at the top level. -/
theorem item : Opens (phrases Item) [] :=
  (typeName.mul_left (identifier.mul_left variableRest.add_right)).mono item_rule

/-- The empty program. -/
theorem items : Opens itemRows [] :=
  one.mono noItems_rule

end Opens

end Decaf.Grammar
