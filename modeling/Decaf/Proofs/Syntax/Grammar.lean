import Decaf.Syntax.Parser
import Decaf.Proofs.Syntax.Tree

/-!
# The grammar

The grammar of the language, as relations over rows of token kinds. Each reads
`R a t b`: the row `a` begins with a construct of this sort, whose tree is `t`,
and `b` is what comes after it. Trees carry no labels here (`Place.nowhere`, no
types, no scopes), so a derivation says what was written and not where.

Expressions have levels. Those of level `n` are joined by operators of
precedence `n`, and the right side of such an operator is one level tighter; so
a row has at most one tree, with equal operators grouped to the left. Level 7 is
for the unary operators. The limits on literals are part of the grammar: a number
that is too large, or a string with an unknown escape, is not derivable.

What comes after a construct is the end of the row it began in (`ExprAt.suffix`,
`Item.suffix` and the others).
-/

namespace Decaf.Grammar

/-- A row of token kinds. -/
abbrev Word : Type := List Token.Kind

/-! ## Types and literals -/

/-- The kinds that name a type. -/
inductive TypeName : Token.Kind → Ty → Prop
  | int : TypeName (.word .intWord) .int
  | bool : TypeName (.word .boolWord) .bool
  | void : TypeName (.word .voidWord) .void

/-- A word names at most one type. -/
theorem TypeName.unique {k : Token.Kind} {ty ty' : Ty} (h : TypeName k ty) (h' : TypeName k ty') :
    ty = ty' := by
  cases h <;> cases h' <;> rfl

/-- The name of a type is a token of the text. -/
theorem TypeName.ne_endOfFile {k : Token.Kind} {ty : Ty} (h : TypeName k ty) : k ≠ .endOfFile := by
  cases h <;> decide

/-- The characters that may be escaped, with what they stand for. -/
inductive Escape : Char → Char → Prop
  | newline : Escape 'n' '\n'
  | tab : Escape 't' '\t'
  | backslash : Escape '\\' '\\'
  | quote : Escape '"' '"'

/-- `Spells content value`: between the quotes of a literal, `content` stands
for `value`. -/
inductive Spells : List Char → List Char → Prop
  | nil : Spells [] []
  | plain {c : Char} {cs value : List Char} :
    c ≠ '\\' → Spells cs value → Spells (c :: cs) (c :: value)
  | escape {c d : Char} {cs value : List Char} :
    Escape c d → Spells cs value → Spells ('\\' :: c :: cs) (d :: value)

/-- What stands between the quotes of a string literal. -/
def content (text : String) : List Char :=
  (text.toList.drop 1).dropLast

/-- The kinds that are literals, with their values. An integer has 64 bits, one of
them for the sign. -/
inductive Denotes : Token.Kind → Literal → Prop
  | dec {text : String} :
    digitsValue 10 text.toList ≤ 9223372036854775807 →
    Denotes (.decLiteral text) (.int (digitsValue 10 text.toList))
  | hex {text : String} :
    digitsValue 16 (text.toList.drop 2) ≤ 9223372036854775807 →
    Denotes (.hexLiteral text) (.int (digitsValue 16 (text.toList.drop 2)))
  | str {text : String} {value : List Char} :
    Spells (content text) value → Denotes (.stringLiteral text) (.str (String.ofList value))
  | true : Denotes (.word .trueWord) (.bool true)
  | false : Denotes (.word .falseWord) (.bool false)

/-! ## Expressions -/

mutual

/-- Expressions of a level: from 1, for the operators that bind loosest, to 6,
and 7 for operands. -/
inductive ExprAt : Nat → Word → Expr → Word → Prop
  | tighter {n : Nat} {a b : Word} {e : Expr} :
    n < 7 → ExprAt (n + 1) a e b → ExprAt n a e b
  | binary {n : Nat} {op : BinaryOp} {a b c : Word} {l r : Expr} :
    op.precedence = n → ExprAt n a l (.sign op.sign :: b) → ExprAt (n + 1) b r c →
    ExprAt n a (.binary .nowhere none op l r) c
  | unary {op : UnaryOp} {a b : Word} {e : Expr} :
    ExprAt 7 a e b → ExprAt 7 (.sign op.sign :: a) (.unary .nowhere none op e) b
  | primary {a b : Word} {e : Expr} : Primary a e b → ExprAt 7 a e b

/-- Primary expressions. -/
inductive Primary : Word → Expr → Word → Prop
  | parens {a b : Word} {e : Expr} :
    ExprAt 1 a e (.sign .closeParen :: b) → Primary (.sign .openParen :: a) e b
  | literal {k : Token.Kind} {v : Literal} {a : Word} :
    Denotes k v → Primary (k :: a) (.literal .nowhere none v) a
  | location {a b : Word} {e : Expr} : Location a e b → Primary a e b
  | call {a b : Word} {e : Expr} : Call a e b → Primary a e b

/-- Locations: a name, or a name with an index. -/
inductive Location : Word → Expr → Word → Prop
  | scalar {x : String} {a : Word} :
    Location (.identifier x :: a) (.location .nowhere none x none) a
  | element {x : String} {a b : Word} {i : Expr} :
    ExprAt 1 a i (.sign .closeBracket :: b) →
    Location (.identifier x :: .sign .openBracket :: a) (.location .nowhere none x (some i)) b

/-- Calls. -/
inductive Call : Word → Expr → Word → Prop
  | mk {x : String} {a b : Word} {args : List Expr} :
    Arguments a args (.sign .closeParen :: b) →
    Call (.identifier x :: .sign .openParen :: a) (.call .nowhere none x args) b

/-- The arguments of a call. -/
inductive Arguments : Word → List Expr → Word → Prop
  | none {a : Word} : Arguments a [] a
  | some {a b : Word} {args : List Expr} : ArgumentList a args b → Arguments a args b

/-- One or more arguments. -/
inductive ArgumentList : Word → List Expr → Word → Prop
  | one {a b : Word} {e : Expr} : ExprAt 1 a e b → ArgumentList a [e] b
  | more {a b c : Word} {e : Expr} {es : List Expr} :
    ExprAt 1 a e (.sign .comma :: b) → ArgumentList b es c → ArgumentList a (e :: es) c

end

mutual

/-- A construct ends inside its row: what comes after it is a suffix. The same holds of the other
constructs, and the derivations are followed together. -/
theorem ExprAt.suffix : ∀ {n : Nat} {a b : Word} {e : Expr}, ExprAt n a e b → b <:+ a
  | _, _, _, _, .tighter _ h => h.suffix
  | _, _, _, _, .binary _ hl hr => hr.suffix.trans ((List.suffix_cons _ _).trans hl.suffix)
  | _, _, _, _, .unary h => h.suffix.trans (List.suffix_cons _ _)
  | _, _, _, _, .primary h => h.suffix

theorem Primary.suffix : ∀ {a b : Word} {e : Expr}, Primary a e b → b <:+ a
  | _, _, _, .parens h =>
    ((List.suffix_cons _ _).trans h.suffix).trans (List.suffix_cons _ _)
  | _, _, _, .literal _ => List.suffix_cons _ _
  | _, _, _, .location h => h.suffix
  | _, _, _, .call h => h.suffix

theorem Location.suffix : ∀ {a b : Word} {e : Expr}, Location a e b → b <:+ a
  | _, _, _, .scalar => List.suffix_cons _ _
  | _, _, _, .element h =>
    ((List.suffix_cons _ _).trans h.suffix).trans (List.suffix_append [_, _] _)

theorem Call.suffix : ∀ {a b : Word} {e : Expr}, Call a e b → b <:+ a
  | _, _, _, .mk h =>
    ((List.suffix_cons _ _).trans h.suffix).trans (List.suffix_append [_, _] _)

theorem Arguments.suffix : ∀ {a b : Word} {es : List Expr}, Arguments a es b → b <:+ a
  | _, _, _, .none => List.suffix_refl _
  | _, _, _, .some h => h.suffix

theorem ArgumentList.suffix : ∀ {a b : Word} {es : List Expr}, ArgumentList a es b → b <:+ a
  | _, _, _, .one h => h.suffix
  | _, _, _, .more h hs => hs.suffix.trans ((List.suffix_cons _ _).trans h.suffix)

end

/-- The kinds that an expression can begin with. -/
def startsExpr : Token.Kind → Bool
  | .identifier _ => true
  | .decLiteral _ => true
  | .hexLiteral _ => true
  | .stringLiteral _ => true
  | .word w => w == .trueWord || w == .falseWord
  | .sign s => s == .openParen || s == .minus || s == .bang
  | .endOfFile => false

/-- A location begins with its name. -/
theorem Location.head {a b : Word} {e : Expr} (h : Location a e b) :
    ∃ x more, a = .identifier x :: more := by
  cases h with
  | scalar => exact ⟨_, _, rfl⟩
  | element _ => exact ⟨_, _, rfl⟩

/-- A call begins with a name and a parenthesis. -/
theorem Call.head {a b : Word} {e : Expr} (h : Call a e b) :
    ∃ x more, a = .identifier x :: .sign .openParen :: more := by
  cases h with
  | mk _ => exact ⟨_, _, rfl⟩

/-- A primary expression begins like an expression, but not with an operator. -/
theorem Primary.head {a b : Word} {e : Expr} (h : Primary a e b) :
    ∃ k more, a = k :: more ∧ startsExpr k ∧ k.unaryOp? = none := by
  cases h with
  | parens _ => exact ⟨_, _, rfl, rfl, rfl⟩
  | literal hv => cases hv <;> exact ⟨_, _, rfl, rfl, rfl⟩
  | location hl =>
    obtain ⟨x, more, rfl⟩ := hl.head
    exact ⟨_, _, rfl, rfl, rfl⟩
  | call hc =>
    obtain ⟨x, more, rfl⟩ := hc.head
    exact ⟨_, _, rfl, rfl, rfl⟩

/-- An expression begins with one of the kinds that `startsExpr` lists, so it is not empty. -/
theorem ExprAt.head : ∀ {n : Nat} {a b : Word} {e : Expr}, ExprAt n a e b →
    ∃ k more, a = k :: more ∧ startsExpr k
  | _, _, _, _, .tighter _ h => h.head
  | _, _, _, _, .binary _ hl _ => hl.head
  | _, _, _, _, @ExprAt.unary op _ _ _ _ => ⟨_, _, rfl, by cases op <;> rfl⟩
  | _, _, _, _, .primary hp => by
    obtain ⟨k, more, rfl, hk, _⟩ := hp.head
    exact ⟨k, more, rfl, hk⟩

/-- A list of arguments begins with an expression. -/
theorem ArgumentList.head {a b : Word} {es : List Expr} (h : ArgumentList a es b) :
    ∃ k more, a = k :: more ∧ startsExpr k := by
  cases h with
  | one he => exact he.head
  | more he _ => exact he.head

/-! ## Declarations and statements -/

/-- Declarations of variables. The length of an array has 64 bits. -/
inductive Variable : Word → VarDecl → Word → Prop
  | scalar {k : Token.Kind} {ty : Ty} {x : String} {a : Word} :
    TypeName k ty →
    Variable (k :: .identifier x :: .sign .semicolon :: a) ⟨x, ty, none, .nowhere⟩ a
  | array {k : Token.Kind} {ty : Ty} {x text : String} {a : Word} :
    TypeName k ty → digitsValue 10 text.toList ≤ 18446744073709551615 →
    Variable (k :: .identifier x :: .sign .openBracket :: .decLiteral text ::
      .sign .closeBracket :: .sign .semicolon :: a)
      ⟨x, ty, some (digitsValue 10 text.toList), .nowhere⟩ a

/-- Any number of declarations of variables. -/
inductive Variables : Word → List VarDecl → Word → Prop
  | nil {a : Word} : Variables a [] a
  | cons {a b c : Word} {d : VarDecl} {ds : List VarDecl} :
    Variable a d b → Variables b ds c → Variables a (d :: ds) c

/-- A declaration begins with a type and a name, and so does a function. -/
theorem Variable.head {a b : Word} {d : VarDecl} (h : Variable a d b) :
    ∃ k ty x more, TypeName k ty ∧ a = k :: .identifier x :: more := by
  cases h with
  | scalar hk => exact ⟨_, _, _, _, hk, rfl⟩
  | array hk _ => exact ⟨_, _, _, _, hk, rfl⟩

/-- In a declaration no parenthesis follows the name. This sets it apart from a function. -/
theorem Variable.not_called {k : Token.Kind} {x : String} {a b : Word} {d : VarDecl}
    (h : Variable (k :: .identifier x :: a) d b) : a.head? ≠ some (.sign .openParen) := by
  cases h with
  | scalar _ => simp
  | array _ _ => simp

/-- A declaration ends inside its row. -/
theorem Variable.suffix {a b : Word} {d : VarDecl} (h : Variable a d b) : b <:+ a := by
  cases h with
  | scalar _ => exact List.suffix_append [_, _, _] _
  | array _ _ => exact List.suffix_append [_, _, _, _, _, _] _

/-- So do declarations one after the other. -/
theorem Variables.suffix {a b : Word} {ds : List VarDecl} (h : Variables a ds b) : b <:+ a := by
  induction h with
  | nil => exact List.suffix_refl _
  | cons h _ ih => exact ih.trans h.suffix

mutual

/-- Blocks. -/
inductive Braces : Word → Block → Word → Prop
  | mk {a b c : Word} {locals : List VarDecl} {statements : List Stmt} :
    Variables a locals b → Statements b statements (.sign .closeBrace :: c) →
    Braces (.sign .openBrace :: a) ⟨locals, statements, .nowhere, none⟩ c

/-- Statements. -/
inductive Statement : Word → Stmt → Word → Prop
  | assign {a b c : Word} {target value : Expr} :
    Location a target (.sign .equal :: b) → ExprAt 1 b value (.sign .semicolon :: c) →
    Statement a (.assign .nowhere target value) c
  | call {a b : Word} {e : Expr} :
    Call a e (.sign .semicolon :: b) → Statement a (.call .nowhere e) b
  | ifThen {a b c : Word} {test : Expr} {body : Block} :
    ExprAt 1 a test (.sign .closeParen :: b) → Braces b body c →
    Statement (.word .ifWord :: .sign .openParen :: a) (.conditional .nowhere test body none) c
  | ifElse {a b c d : Word} {test : Expr} {body other : Block} :
    ExprAt 1 a test (.sign .closeParen :: b) → Braces b body (.word .elseWord :: c) →
    Braces c other d →
    Statement (.word .ifWord :: .sign .openParen :: a)
      (.conditional .nowhere test body (some other)) d
  | loop {a b c : Word} {test : Expr} {body : Block} :
    ExprAt 1 a test (.sign .closeParen :: b) → Braces b body c →
    Statement (.word .whileWord :: .sign .openParen :: a) (.loop .nowhere test body) c
  | give {a b : Word} {value : Expr} :
    ExprAt 1 a value (.sign .semicolon :: b) →
    Statement (.word .returnWord :: a) (.ret .nowhere (some value)) b
  | giveNothing {a : Word} :
    Statement (.word .returnWord :: .sign .semicolon :: a) (.ret .nowhere none) a
  | leave {a : Word} :
    Statement (.word .breakWord :: .sign .semicolon :: a) (.break .nowhere) a
  | again {a : Word} :
    Statement (.word .continueWord :: .sign .semicolon :: a) (.continue .nowhere) a
  | braces {a b : Word} {body : Block} :
    Braces a body b → Statement a (.block .nowhere body) b

/-- Any number of statements. -/
inductive Statements : Word → List Stmt → Word → Prop
  | nil {a : Word} : Statements a [] a
  | cons {a b c : Word} {s : Stmt} {ss : List Stmt} :
    Statement a s b → Statements b ss c → Statements a (s :: ss) c

end

mutual

/-- A block ends inside its row, and so do statements; again the derivations are followed
together. -/
theorem Braces.suffix : ∀ {a c : Word} {b : Block}, Braces a b c → c <:+ a
  | _, _, _, .mk hv hs =>
    (((List.suffix_cons _ _).trans hs.suffix).trans hv.suffix).trans (List.suffix_cons _ _)

theorem Statement.suffix : ∀ {a b : Word} {s : Stmt}, Statement a s b → b <:+ a
  | _, _, _, .assign ht hv =>
    ((List.suffix_cons _ _).trans hv.suffix).trans ((List.suffix_cons _ _).trans ht.suffix)
  | _, _, _, .call h => (List.suffix_cons _ _).trans h.suffix
  | _, _, _, .ifThen ht hb =>
    (hb.suffix.trans ((List.suffix_cons _ _).trans ht.suffix)).trans (List.suffix_append [_, _] _)
  | _, _, _, .ifElse ht hb ho =>
    ((ho.suffix.trans ((List.suffix_cons _ _).trans hb.suffix)).trans
      ((List.suffix_cons _ _).trans ht.suffix)).trans (List.suffix_append [_, _] _)
  | _, _, _, .loop ht hb =>
    (hb.suffix.trans ((List.suffix_cons _ _).trans ht.suffix)).trans (List.suffix_append [_, _] _)
  | _, _, _, .give h => ((List.suffix_cons _ _).trans h.suffix).trans (List.suffix_cons _ _)
  | _, _, _, .giveNothing => List.suffix_append [_, _] _
  | _, _, _, .leave => List.suffix_append [_, _] _
  | _, _, _, .again => List.suffix_append [_, _] _
  | _, _, _, .braces h => h.suffix

theorem Statements.suffix : ∀ {a b : Word} {ss : List Stmt}, Statements a ss b → b <:+ a
  | _, _, _, .nil => List.suffix_refl _
  | _, _, _, .cons h hs => hs.suffix.trans h.suffix

end

/-- The kinds that a statement can begin with. -/
def startsStmt : Token.Kind → Bool
  | .identifier _ => true
  | .word w =>
    w == .ifWord || w == .whileWord || w == .returnWord || w == .breakWord || w == .continueWord
  | .sign s => s == .openBrace
  | _ => false

/-- A statement begins with one of the kinds that `startsStmt` lists. -/
theorem Statement.head {a b : Word} {s : Stmt} (h : Statement a s b) :
    ∃ k more, a = k :: more ∧ startsStmt k := by
  cases h with
  | assign ht _ =>
    obtain ⟨x, more, rfl⟩ := ht.head
    exact ⟨_, _, rfl, rfl⟩
  | call hc =>
    obtain ⟨x, more, rfl⟩ := hc.head
    exact ⟨_, _, rfl, rfl⟩
  | braces hb =>
    cases hb
    exact ⟨_, _, rfl, rfl⟩
  | _ => exact ⟨_, _, rfl, rfl⟩

/-- Before the brace at the end of a block comes a statement or nothing. -/
theorem Statements.head {a b : Word} {ss : List Stmt}
    (h : Statements a ss (.sign .closeBrace :: b)) :
    ∃ k more, a = k :: more ∧ (startsStmt k ∨ k = .sign .closeBrace) := by
  cases h with
  | nil => exact ⟨_, _, rfl, .inr rfl⟩
  | cons hs _ =>
    obtain ⟨k, more, rfl, hk⟩ := hs.head
    exact ⟨k, more, rfl, .inl hk⟩

/-! ## Programs -/

/-- One or more parameters. -/
inductive ParameterList : Word → List Param → Word → Prop
  | one {k : Token.Kind} {ty : Ty} {x : String} {a : Word} :
    TypeName k ty → ParameterList (k :: .identifier x :: a) [⟨x, ty, .nowhere⟩] a
  | more {k : Token.Kind} {ty : Ty} {x : String} {a b : Word} {ps : List Param} :
    TypeName k ty → ParameterList a ps b →
    ParameterList (k :: .identifier x :: .sign .comma :: a) (⟨x, ty, .nowhere⟩ :: ps) b

/-- The parameters of a function. -/
inductive Parameters : Word → List Param → Word → Prop
  | none {a : Word} : Parameters a [] a
  | some {a b : Word} {ps : List Param} : ParameterList a ps b → Parameters a ps b

/-- What may stand at the top level, behind an optional `def`. -/
inductive Item : Word → Parser.TopLevel → Word → Prop
  | global {a b : Word} {d : VarDecl} : Variable a d b → Item a (.global d) b
  | function {k : Token.Kind} {ty : Ty} {x : String} {a b c : Word} {ps : List Param}
    {body : Block} :
    TypeName k ty → Parameters a ps (.sign .closeParen :: b) → Braces b body c →
    Item (k :: .identifier x :: .sign .openParen :: a)
      (.function ⟨x, ty, ps, body, .nowhere, none⟩) c

/-- A list of parameters begins with a type. -/
theorem ParameterList.head {a b : Word} {ps : List Param} (h : ParameterList a ps b) :
    ∃ k ty more, TypeName k ty ∧ a = k :: more := by
  cases h with
  | one hk => exact ⟨_, _, _, hk, rfl⟩
  | more hk _ => exact ⟨_, _, _, hk, rfl⟩

theorem ParameterList.suffix {a b : Word} {ps : List Param} (h : ParameterList a ps b) :
    b <:+ a := by
  induction h with
  | one _ => exact List.suffix_append [_, _] _
  | more _ _ ih => exact ih.trans (List.suffix_append [_, _, _] _)

theorem Parameters.suffix {a b : Word} {ps : List Param} (h : Parameters a ps b) : b <:+ a := by
  cases h with
  | none => exact List.suffix_refl _
  | some h => exact h.suffix

/-- Whatever stands at the top level begins with a type and a name. -/
theorem Item.head {a b : Word} {t : Parser.TopLevel} (h : Item a t b) :
    ∃ k ty x more, TypeName k ty ∧ a = k :: .identifier x :: more := by
  cases h with
  | global h => exact h.head
  | function hk _ _ => exact ⟨_, _, _, _, hk, rfl⟩

/-- What stands at the top level ends inside its row. -/
theorem Item.suffix {a b : Word} {t : Parser.TopLevel} (h : Item a t b) : b <:+ a := by
  cases h with
  | global h => exact h.suffix
  | function _ hp hb =>
    exact (hb.suffix.trans ((List.suffix_cons _ _).trans hp.suffix)).trans
      (List.suffix_append [_, _, _] _)

/-- The items of a whole program. -/
inductive Items : Word → List Parser.TopLevel → Prop
  | nil : Items [] []
  | plain {a b : Word} {t : Parser.TopLevel} {ts : List Parser.TopLevel} :
    Item a t b → Items b ts → Items a (t :: ts)
  | defined {a b : Word} {t : Parser.TopLevel} {ts : List Parser.TopLevel} :
    Item a t b → Items b ts → Items (.word .defWord :: a) (t :: ts)

end Decaf.Grammar
