import Mathlib.Data.List.Basic
import Decaf.Proofs.Token.Spaced
import Decaf.Proofs.Syntax.Shape

/-!
# Printing programs

A program is printed as a row of tokens, each followed by a blank: the global
variables, then the functions, with every compound expression in parentheses and
with strings escaped. Reading undoes printing.

Three facts meet there. The tokens that a well shaped tree is printed with are well
spelled; a row of well spelled tokens is read back from its text (`tokenize_written`);
and the grammar derives the tree from the row, whatever comes after it
(`Expr.derives_row` and the others).
-/

namespace Decaf

open Grammar

/-! ## The printer -/

/-- The word for a type. A type that cannot be declared has none, and is printed
like `void`. -/
def Ty.word : Ty → Keyword
  | .int => .intWord
  | .bool => .boolWord
  | _ => .voidWord

/-- A number in decimal digits. -/
def numeral (n : Nat) : Token.Kind :=
  .decLiteral (toString n)

/-- A literal as a token. -/
def Literal.token : Literal → Token.Kind
  | .int n => numeral n.toNat
  | .bool true => .word .trueWord
  | .bool false => .word .falseWord
  | .str v => .stringLiteral (String.ofList ('"' :: escape v.toList ++ ['"']))

mutual

/-- The tokens that an expression is printed with. -/
def Expr.row : Expr → Word
  | .literal _ _ v => [v.token]
  | .location _ _ x none => [.identifier x]
  | .location _ _ x (some i) =>
    .identifier x :: .sign .openBracket :: (i.row ++ [.sign .closeBracket])
  | .binary _ _ op l r =>
    .sign .openParen :: (l.row ++ .sign op.sign :: (r.row ++ [.sign .closeParen]))
  | .unary _ _ op e => .sign .openParen :: .sign op.sign :: (e.row ++ [.sign .closeParen])
  | .call _ _ f args => .identifier f :: .sign .openParen :: (argsRow args ++ [.sign .closeParen])

/-- The tokens of arguments, with commas between them. -/
def argsRow : List Expr → Word
  | [] => []
  | [e] => e.row
  | e :: f :: es => e.row ++ .sign .comma :: argsRow (f :: es)

end

/-- The tokens that a variable is declared with. -/
def VarDecl.row (d : VarDecl) : Word :=
  .word d.type.word :: .identifier d.name ::
    match d.length with
    | none => [.sign .semicolon]
    | some n => [.sign .openBracket, numeral n, .sign .closeBracket, .sign .semicolon]

mutual

/-- The tokens that a block is printed with. -/
def Block.row : Block → Word
  | ⟨locals, statements, _, _⟩ =>
    .sign .openBrace :: (locals.flatMap (·.row) ++ (stmtsRow statements ++ [.sign .closeBrace]))

/-- The tokens that a statement is printed with. -/
def Stmt.row : Stmt → Word
  | .assign _ target value =>
    target.row ++ .sign .equal :: (value.row ++ [.sign .semicolon])
  | .call _ e => e.row ++ [.sign .semicolon]
  | .conditional _ test b none =>
    .word .ifWord :: .sign .openParen :: (test.row ++ .sign .closeParen :: b.row)
  | .conditional _ test b (some c) =>
    .word .ifWord :: .sign .openParen ::
      (test.row ++ .sign .closeParen :: (b.row ++ .word .elseWord :: c.row))
  | .loop _ test b =>
    .word .whileWord :: .sign .openParen :: (test.row ++ .sign .closeParen :: b.row)
  | .ret _ none => [.word .returnWord, .sign .semicolon]
  | .ret _ (some e) => .word .returnWord :: (e.row ++ [.sign .semicolon])
  | .break _ => [.word .breakWord, .sign .semicolon]
  | .continue _ => [.word .continueWord, .sign .semicolon]
  | .block _ b => b.row

/-- The tokens that statements are printed with. -/
def stmtsRow : List Stmt → Word
  | [] => []
  | s :: ss => s.row ++ stmtsRow ss

end

/-- The tokens of parameters, with commas between them. -/
def paramsRow : List Param → Word
  | [] => []
  | [p] => [.word p.type.word, .identifier p.name]
  | p :: q :: ps => .word p.type.word :: .identifier p.name :: .sign .comma :: paramsRow (q :: ps)

/-- The tokens that a function is printed with. -/
def Function.row (f : Function) : Word :=
  .word f.returnType.word :: .identifier f.name :: .sign .openParen ::
    (paramsRow f.params ++ .sign .closeParen :: f.body.row)

/-- The tokens that a program is printed with: its variables, then its functions. -/
def Program.row (p : Program) : Word :=
  p.globals.flatMap (·.row) ++ p.functions.flatMap (·.row)

/-- The text of a row of tokens, with a blank after each. -/
def written (a : Word) : List Char :=
  a.flatMap fun k => k.spelling.toList ++ [' ']

/-- The text that a program is printed as. -/
def Program.print (p : Program) : String :=
  String.ofList (written p.row)

/-! ## Literals -/

theorem toList_toString (n : Nat) : (toString n).toList = Nat.toDigits 10 n := by
  rw [Nat.toString_eq_repr, Nat.toList_repr]

/-- The value of a decimal digit is how far it is from zero. -/
theorem digitValue_of_isDigit {c : Char} (h : c.isDigit) : digitValue c = c.toNat - '0'.toNat := by
  rw [digitValue, if_pos h]

/-- Reading a decimal numeral undoes printing it. -/
theorem digitsValue_toString (n : Nat) : digitsValue 10 (toString n).toList = n := by
  have hdigit : ∀ value, ∀ c ∈ Nat.toDigits 10 n,
      10 * value + digitValue c = 10 * value + (c.toNat - '0'.toNat) := by
    intro value c hc
    rw [digitValue_of_isDigit (Nat.isDigit_of_mem_toDigits (by omega) (by omega) hc)]
  rw [toList_toString, digitsValue, List.foldl_ext _ _ _ hdigit]
  exact Nat.ofDigitChars_ten_toDigits

/-- A printed number is spelled as a numeral. -/
theorem numeral_wellSpelled (n : Nat) : (numeral n).WellSpelled := by
  rw [numeral, Token.Kind.WellSpelled, toList_toString]
  exact ⟨Nat.toDigits_ne_nil, fun _ => Nat.isDigit_of_mem_toDigits (by omega) (by omega)⟩

/-- The escaped form of a string spells it, whatever characters are in it. -/
theorem spells_escape (v : List Char) : Spells (escape v) v := by
  fun_induction escape v with
  | case1 => exact .nil
  | case2 cs ih => exact .escape .newline ih
  | case3 cs ih => exact .escape .tab ih
  | case4 cs ih => exact .escape .backslash ih
  | case5 cs ih => exact .escape .quote ih
  | case6 cs c _ _ h _ ih => exact .plain h ih

/-- The escaped form has no quote and no line break that would end the literal. -/
theorem stringItems_escape (v : List Char) : StringItems (escape v) := by
  fun_induction escape v with
  | case1 => exact .nil
  | case6 cs c h₁ _ h₂ h₃ ih => exact .plain h₃ h₂ h₁ ih
  | _ ih => exact .escape (by decide) ‹_›

/-- A literal in range is printed as a token that denotes it. -/
theorem Literal.denotes_token {v : Literal} (h : v.InRange) : Denotes v.token v := by
  cases v with
  | int n =>
    obtain ⟨hpos, hle⟩ := h
    have hvalue := digitsValue_toString n.toNat
    have hd := @Denotes.dec (toString n.toNat) (by omega)
    rw [hvalue, Int.toNat_of_nonneg hpos] at hd
    exact hd
  | bool b =>
    cases b with
    | true => exact .true
    | false => exact .false
  | str v =>
    have hspells : Spells (content (String.ofList ('"' :: escape v.toList ++ ['"']))) v.toList := by
      rw [content, String.toList_ofList, List.cons_append, List.drop_one, List.tail_cons,
        List.dropLast_concat]
      exact spells_escape v.toList
    have hd := Denotes.str hspells
    rwa [String.ofList_toList] at hd

/-- The tokens of literals are well spelled, in range or not. -/
theorem Literal.token_wellSpelled (v : Literal) : v.token.WellSpelled := by
  cases v with
  | int n => exact numeral_wellSpelled n.toNat
  | bool b => cases b <;> exact trivial
  | str v => exact ⟨_, String.toList_ofList, stringItems_escape v.toList⟩

/-! ## Expressions -/

namespace Grammar

/-- What can stand between tight operators can stand between looser ones. -/
theorem ExprAt.loosen {m n : Nat} {a b : Word} {e : Expr} (h : ExprAt n a e b) (hm : m ≤ n)
    (hn : n ≤ 7) : ExprAt m a e b := by
  induction hm using Nat.decreasingInduction with
  | self => exact h
  | of_succ k hk ih => exact .tighter (by omega) ih

/-- A primary expression can stand anywhere. -/
theorem Primary.level {n : Nat} {a b : Word} {e : Expr} (h : Primary a e b) (hn : n ≤ 7) :
    ExprAt n a e b :=
  ExprAt.loosen (.primary h) hn (Nat.le_refl 7)

/-- A row is well spelled if its parts are. -/
theorem Spelled.append {a b : Word} (ha : Spelled a) (hb : Spelled b) : Spelled (a ++ b) :=
  fun k hk => (List.mem_append.mp hk).elim (ha k) (hb k)

theorem Spelled.cons {k : Token.Kind} {a : Word} (hk : k.WellSpelled) (ha : Spelled a) :
    Spelled (k :: a) :=
  List.forall_mem_cons.mpr ⟨hk, ha⟩

theorem Spelled.nil : Spelled [] :=
  fun _ hk => absurd hk List.not_mem_nil

/-- Arguments that are derived one by one are derived with commas between them. -/
theorem argumentList_row {e : Expr} {es : List Expr}
    (h : ∀ x ∈ e :: es, ∀ b, Primary (x.row ++ b) (x.relabel .bare) b) (b : Word) :
    ArgumentList (argsRow (e :: es) ++ b) ((e :: es).map (·.relabel .bare)) b := by
  induction es generalizing e with
  | nil => exact .one ((h e List.mem_cons_self b).level (by omega))
  | cons f es ih =>
    rw [argsRow, List.append_assoc]
    exact .more ((h e List.mem_cons_self _).level (by omega))
      (ih fun x hx => h x (List.mem_cons_of_mem e hx))

/-- The commas between arguments are well spelled. -/
theorem spelled_argsRow {args : List Expr} (h : ∀ e ∈ args, Spelled e.row) :
    Spelled (argsRow args) := by
  induction args with
  | nil => exact .nil
  | cons e args ih =>
    have he := h e List.mem_cons_self
    cases args with
    | nil => exact he
    | cons f args =>
      exact he.append (.cons trivial (ih fun e' he' => h e' (List.mem_cons_of_mem e he')))

end Grammar

/-- An expression is derived from the tokens it is printed with. -/
theorem Expr.derives_row {e : Expr} (h : e.WellShaped) (b : Word) :
    Primary (e.row ++ b) (e.relabel .bare) b := by
  induction h generalizing b with
  | literal hv =>
    rw [Expr.row, Expr.relabel]
    exact .literal (Literal.denotes_token hv)
  | scalar _ =>
    rw [Expr.row, Expr.relabel]
    exact .location .scalar
  | element _ _ ih =>
    rw [Expr.row, Expr.relabel, List.cons_append, List.cons_append, List.append_assoc]
    exact .location (.element ((ih _).level (by omega)))
  | @binary _ _ op l r _ _ ihl ihr =>
    rw [Expr.row, Expr.relabel, List.cons_append, List.append_assoc, List.cons_append,
      List.append_assoc]
    have hlt := op.precedence_lt
    have hr := (ihr (.sign .closeParen :: b)).level hlt
    have hl := (ihl (.sign op.sign :: (r.row ++ .sign .closeParen :: b))).level (Nat.le_of_lt hlt)
    exact .parens ((ExprAt.binary rfl hl hr).loosen op.precedence_pos (Nat.le_of_lt hlt))
  | unary _ ih =>
    rw [Expr.row, Expr.relabel, List.cons_append, List.cons_append, List.append_assoc]
    exact .parens (ExprAt.loosen (.unary ((ih _).level (Nat.le_refl 7))) (by omega) (Nat.le_refl 7))
  | @call _ _ _ args _ _ ih =>
    rw [Expr.row, Expr.relabel, relabelExprs_eq_map, List.cons_append, List.cons_append,
      List.append_assoc]
    refine .call (.mk ?_)
    cases args with
    | nil => exact .none
    | cons e es => exact .some (argumentList_row ih _)

/-- A well shaped expression is printed with well spelled tokens: its names are names. -/
theorem Expr.spelled_row {e : Expr} (h : e.WellShaped) : Spelled e.row := by
  induction h with
  | literal _ =>
    rw [Expr.row]
    exact .cons (Literal.token_wellSpelled _) .nil
  | scalar hx =>
    rw [Expr.row]
    exact .cons hx .nil
  | element hx _ ih =>
    rw [Expr.row]
    exact .cons hx (.cons trivial (ih.append (.cons trivial .nil)))
  | binary _ _ ihl ihr =>
    rw [Expr.row]
    exact .cons trivial (ihl.append (.cons trivial (ihr.append (.cons trivial .nil))))
  | unary _ ih =>
    rw [Expr.row]
    exact .cons trivial (.cons trivial (ih.append (.cons trivial .nil)))
  | call hf _ ih =>
    rw [Expr.row]
    exact .cons hf (.cons trivial ((spelled_argsRow ih).append (.cons trivial .nil)))

/-- A printed expression is derived back. Labels are left out of the tree, for the printer does
not print them. -/
theorem Expr.level_row {e : Expr} (h : e.WellShaped) (b : Word) :
    ExprAt 1 (e.row ++ b) (e.relabel .bare) b :=
  (Expr.derives_row h b).level (by omega)

/-- Printed as a location it is derived as one, and not only as an expression. -/
theorem Expr.location_row {e : Expr} (he : e.isLocation) (h : e.WellShaped) (b : Word) :
    Location (e.row ++ b) (e.relabel .bare) b := by
  cases h with
  | scalar _ =>
    rw [Expr.row, Expr.relabel]
    exact .scalar
  | element _ hi =>
    rw [Expr.row, Expr.relabel, List.cons_append, List.cons_append, List.append_assoc]
    exact .element (Expr.level_row hi _)
  | _ => cases he

/-- Printed as a call it is derived as one. -/
theorem Expr.call_row {e : Expr} (he : e.isCall) (h : e.WellShaped) (b : Word) :
    Call (e.row ++ b) (e.relabel .bare) b := by
  cases h with
  | @call p t f args hf hargs =>
    have hprimary := Expr.derives_row (.call hf hargs : (Expr.call p t f args).WellShaped) b
    rw [Expr.relabel] at hprimary ⊢
    cases hprimary with
    | call h => exact h
    | location h => cases h
  | _ => cases he

/-! ## Declarations -/

/-- A type that can be declared is printed with the word that names it. -/
theorem Ty.typeName_word {ty : Ty} (h : ty.Declarable) : TypeName (.word ty.word) ty := by
  rcases h with rfl | rfl | rfl
  · exact .int
  · exact .bool
  · exact .void

/-- A printed declaration is derived back, whatever comes after it. -/
theorem VarDecl.derives_row {d : VarDecl} (h : d.WellShaped) (b : Word) :
    Variable (d.row ++ b) (d.relabel .bare) b := by
  obtain ⟨name, type, length, place⟩ := d
  have hk := Ty.typeName_word h.type
  cases length with
  | none => exact .scalar hk
  | some n =>
    have hvalue := digitsValue_toString n
    have hd := @Variable.array _ _ name (toString n) b hk (by have := h.length n rfl; omega)
    rw [hvalue] at hd
    exact hd

/-- A well shaped declaration is printed with well spelled tokens. -/
theorem VarDecl.spelled_row {d : VarDecl} (h : d.WellShaped) : Spelled d.row := by
  obtain ⟨name, type, length, place⟩ := d
  cases length with
  | none => exact .cons trivial (.cons h.name (.cons trivial .nil))
  | some n =>
    exact .cons trivial (.cons h.name (.cons trivial (.cons (numeral_wellSpelled n)
      (.cons trivial (.cons trivial .nil)))))

theorem Spelled.flatMap {α : Type} {f : α → Word} {xs : List α} (h : ∀ x ∈ xs, Spelled (f x)) :
    Spelled (xs.flatMap f) := by
  intro k hk
  obtain ⟨x, hx, hk⟩ := List.mem_flatMap.mp hk
  exact h x hx k hk

theorem variables_row {ds : List VarDecl} (h : ∀ d ∈ ds, d.WellShaped) (b : Word) :
    Variables (ds.flatMap (·.row) ++ b) (ds.map (·.relabel .bare)) b := by
  induction ds with
  | nil => exact .nil
  | cons d ds ih =>
    rw [List.flatMap_cons, List.append_assoc]
    exact .cons (VarDecl.derives_row (h d List.mem_cons_self) _)
      (ih fun d' hd => h d' (List.mem_cons_of_mem d hd))

/-! ## Statements -/

/-- Printed statements are derived back one after the other, if each of them is. -/
theorem statements_row {ss : List Stmt} {b : Word}
    (h : ∀ s ∈ ss, ∀ b, Statement (s.row ++ b) (s.relabel .bare) b) :
    Statements (stmtsRow ss ++ b) (ss.map (·.relabel .bare)) b := by
  induction ss with
  | nil => exact .nil
  | cons s ss ih =>
    rw [stmtsRow, List.append_assoc]
    exact .cons (h s List.mem_cons_self _) (ih fun s' hs => h s' (List.mem_cons_of_mem s hs))

theorem spelled_stmtsRow {ss : List Stmt} (h : ∀ s ∈ ss, Spelled s.row) :
    Spelled (stmtsRow ss) := by
  induction ss with
  | nil => exact .nil
  | cons s ss ih =>
    exact (h s List.mem_cons_self).append (ih fun s' hs => h s' (List.mem_cons_of_mem s hs))

/-- Blocks and statements are derived from the tokens they are printed with. -/
theorem derives_row :
    (∀ b : Block, b.WellShaped → ∀ c, Braces (b.row ++ c) (b.relabel .bare) c) ∧
      ∀ s : Stmt, s.WellShaped → ∀ c, Statement (s.row ++ c) (s.relabel .bare) c := by
  refine Block.induction ?mk ?assign ?call ?ifThen ?ifElse ?loop ?ret ?brk ?cont ?inner
  case mk =>
    rintro locals statements p scope ih ⟨hlocals, hstatements⟩ c
    rw [Block.row, Block.relabel, relabelStmts_eq_map, List.cons_append, List.append_assoc,
      List.append_assoc]
    exact .mk (variables_row hlocals _) (statements_row fun s hs => ih s hs (hstatements s hs))
  case assign =>
    rintro p target value (⟨ht, hs, hv⟩) c
    rw [Stmt.row, Stmt.relabel, List.append_assoc, List.cons_append, List.append_assoc]
    exact .assign (Expr.location_row ht hs _) (Expr.level_row hv _)
  case call =>
    rintro p e (_ | ⟨hc, he⟩) c
    rw [Stmt.row, Stmt.relabel, List.append_assoc]
    exact .call (Expr.call_row hc he _)
  case ifThen =>
    rintro p test b ihb (_ | _ | ⟨ht, hb⟩) c
    rw [Stmt.row, Stmt.relabel, List.cons_append, List.cons_append, List.append_assoc]
    exact .ifThen (Expr.level_row ht _) (ihb hb c)
  case ifElse =>
    rintro p test b d ihb ihd (_ | _ | _ | ⟨ht, hb, hd⟩) c
    rw [Stmt.row, Stmt.relabel, List.cons_append, List.cons_append, List.append_assoc,
      List.cons_append, List.append_assoc]
    exact .ifElse (Expr.level_row ht _) (ihb hb _) (ihd hd c)
  case loop =>
    rintro p test b ihb (_ | _ | _ | _ | ⟨ht, hb⟩) c
    rw [Stmt.row, Stmt.relabel, List.cons_append, List.cons_append, List.append_assoc]
    exact .loop (Expr.level_row ht _) (ihb hb c)
  case ret =>
    rintro p value (_ | _ | _ | _ | _ | hv) c
    cases value with
    | none =>
      rw [Stmt.row, Stmt.relabel]
      exact .giveNothing
    | some e =>
      rw [Stmt.row, Stmt.relabel, List.cons_append, List.append_assoc]
      exact .give (Expr.level_row (hv e rfl) _)
  case brk =>
    intro p _ c
    rw [Stmt.row, Stmt.relabel]
    exact .leave
  case cont =>
    intro p _ c
    rw [Stmt.row, Stmt.relabel]
    exact .again
  case inner =>
    rintro p b ihb (_ | _ | _ | _ | _ | _ | _ | _ | hb) c
    rw [Stmt.row, Stmt.relabel]
    exact .braces (ihb hb c)

/-- Well shaped blocks and statements are printed with well spelled tokens. -/
theorem spelled_row :
    (∀ b : Block, b.WellShaped → Spelled b.row) ∧ ∀ s : Stmt, s.WellShaped → Spelled s.row := by
  have one : ∀ s : Sign, Spelled [.sign s] := fun _ => .cons trivial .nil
  refine Block.induction ?mk ?assign ?call ?ifThen ?ifElse ?loop ?ret ?brk ?cont ?inner
  case mk =>
    rintro locals statements p scope ih ⟨hlocals, hstatements⟩
    rw [Block.row]
    have hss := spelled_stmtsRow fun s hs => ih s hs (hstatements s hs)
    exact .cons trivial ((Spelled.flatMap fun d hd => VarDecl.spelled_row (hlocals d hd)).append
      (hss.append (one _)))
  case assign =>
    rintro p target value (⟨_, hs, hv⟩)
    rw [Stmt.row]
    exact (Expr.spelled_row hs).append (.cons trivial ((Expr.spelled_row hv).append (one _)))
  case call =>
    rintro p e (_ | ⟨_, he⟩)
    rw [Stmt.row]
    exact (Expr.spelled_row he).append (one _)
  case ifThen =>
    rintro p test b ihb (_ | _ | ⟨ht, hb⟩)
    rw [Stmt.row]
    exact .cons trivial (.cons trivial ((Expr.spelled_row ht).append (.cons trivial (ihb hb))))
  case ifElse =>
    rintro p test b d ihb ihd (_ | _ | _ | ⟨ht, hb, hd⟩)
    rw [Stmt.row]
    exact .cons trivial (.cons trivial ((Expr.spelled_row ht).append (.cons trivial
      ((ihb hb).append (.cons trivial (ihd hd))))))
  case loop =>
    rintro p test b ihb (_ | _ | _ | _ | ⟨ht, hb⟩)
    rw [Stmt.row]
    exact .cons trivial (.cons trivial ((Expr.spelled_row ht).append (.cons trivial (ihb hb))))
  case ret =>
    rintro p value (_ | _ | _ | _ | _ | hv)
    cases value with
    | none =>
      rw [Stmt.row]
      exact .cons trivial (one _)
    | some e =>
      rw [Stmt.row]
      exact .cons trivial ((Expr.spelled_row (hv e rfl)).append (one _))
  case brk =>
    intro p _
    rw [Stmt.row]
    exact .cons trivial (one _)
  case cont =>
    intro p _
    rw [Stmt.row]
    exact .cons trivial (one _)
  case inner =>
    rintro p b ihb (_ | _ | _ | _ | _ | _ | _ | _ | hb)
    rw [Stmt.row]
    exact ihb hb

/-! ## Programs -/

/-- Printed parameters are derived back; the first one has no comma before it. -/
theorem parameterList_row {p : Param} {ps : List Param} (h : ∀ q ∈ p :: ps, q.WellShaped)
    (b : Word) :
    ParameterList (paramsRow (p :: ps) ++ b) ((p :: ps).map (·.relabel .bare)) b := by
  have hk := Ty.typeName_word (h p List.mem_cons_self).type
  induction ps generalizing p with
  | nil => exact .one hk
  | cons q ps ih =>
    have hmore := fun q' hq => h q' (List.mem_cons_of_mem p hq)
    exact .more hk (ih hmore (Ty.typeName_word (hmore q List.mem_cons_self).type))

theorem spelled_paramsRow {ps : List Param} (h : ∀ p ∈ ps, p.WellShaped) :
    Spelled (paramsRow ps) := by
  induction ps with
  | nil => exact .nil
  | cons p ps ih =>
    have hname := (h p List.mem_cons_self).name
    cases ps with
    | nil => exact .cons trivial (.cons hname .nil)
    | cons q ps =>
      exact .cons trivial (.cons hname (.cons trivial
        (ih fun q' hq => h q' (List.mem_cons_of_mem p hq))))

/-- A printed function is derived back. -/
theorem Function.derives_row {f : Function} (h : f.WellShaped) (b : Word) :
    Item (f.row ++ b) (.function (f.relabel .bare)) b := by
  have hparams : Parameters (paramsRow f.params ++ .sign .closeParen :: (f.body.row ++ b))
      (f.params.map (·.relabel .bare)) (.sign .closeParen :: (f.body.row ++ b)) := by
    have hps := h.params
    cases hp : f.params with
    | nil => exact .none
    | cons p ps => exact .some (parameterList_row (hp ▸ hps) _)
  rw [Function.row, List.cons_append, List.cons_append, List.cons_append, List.append_assoc]
  exact .function (Ty.typeName_word h.returnType) hparams (Decaf.derives_row.1 _ h.body b)

theorem Function.spelled_row {f : Function} (h : f.WellShaped) : Spelled f.row :=
  .cons trivial (.cons h.name (.cons trivial ((spelled_paramsRow h.params).append
    (.cons trivial (Decaf.spelled_row.1 _ h.body)))))

/-- The items of a program, its variables before its functions, with no labels. -/
def Program.items (p : Program) : List Parser.TopLevel :=
  p.globals.map (fun d => .global (d.relabel .bare)) ++
    p.functions.map (fun f => .function (f.relabel .bare))

/-- A printed program is derived back: first its variables, then its functions. -/
theorem Program.derives_row {p : Program} (h : p.WellShaped) : Items p.row p.items := by
  obtain ⟨globals, functions, place, scope⟩ := p
  have hfunctions : Items (functions.flatMap (·.row))
      (functions.map fun f => .function (f.relabel .bare)) := by
    have hf := h.functions
    induction functions with
    | nil => exact .nil
    | cons f fs ih =>
      exact .plain (Function.derives_row (hf f List.mem_cons_self) _)
        (ih ⟨h.globals, fun g hg => hf g (List.mem_cons_of_mem f hg)⟩
          fun g hg => hf g (List.mem_cons_of_mem f hg))
  have hg := h.globals
  rw [Program.row, Program.items]
  clear h
  induction globals with
  | nil => exact hfunctions
  | cons d ds ih =>
    rw [List.flatMap_cons, List.append_assoc]
    exact .plain (.global (VarDecl.derives_row (hg d List.mem_cons_self) _))
      (ih fun d' hd => hg d' (List.mem_cons_of_mem d hd))

/-- A well shaped program is printed with well spelled tokens. -/
theorem Program.spelled_row {p : Program} (h : p.WellShaped) : Spelled p.row :=
  (Spelled.flatMap fun d hd => VarDecl.spelled_row (h.globals d hd)).append
    (Spelled.flatMap fun f hf => Function.spelled_row (h.functions f hf))

/-- The items of a program make up the program again. -/
theorem Program.program_items (p : Program) : Grammar.program p.items = p.relabel .bare := by
  have hglobals : p.items.filterMap Parser.TopLevel.global? = p.globals.map (·.relabel .bare) := by
    simp [Program.items, List.filterMap_append, List.filterMap_map, Function.comp_def,
      Parser.TopLevel.global?]
  have hfunctions :
      p.items.filterMap Parser.TopLevel.function? = p.functions.map (·.relabel .bare) := by
    simp [Program.items, List.filterMap_append, List.filterMap_map, Function.comp_def,
      Parser.TopLevel.function?]
  rw [Grammar.program, hglobals, hfunctions]
  rfl

/-- The text of a row of well spelled tokens divides into this row. -/
theorem tokenize_written {a : Word} (h : Spelled a) :
    ∃ tokens last, tokenize (String.ofList (written a)) = .ok (tokens ++ [last]) ∧
      kinds tokens = a ∧ last.kind = .endOfFile := by
  obtain ⟨tokens, htokens, hkinds⟩ := (spaced_flatMap h).tokenize
  obtain ⟨_, rfl⟩ := tokenize_eq_ok htokens
  rw [List.map_append] at hkinds
  exact ⟨_, _, htokens, (List.append_inj' hkinds rfl).1, rfl⟩

/-- The text that a well shaped program is printed as is derived as its items. -/
theorem Program.derives_print {p : Program} (h : p.WellShaped) : Derives p.print p.items := by
  obtain ⟨tokens, last, ht, hkinds, hlast⟩ := tokenize_written (Program.spelled_row h)
  exact ⟨tokens, last, ht, hlast, hkinds ▸ Program.derives_row h⟩

/-- Reading undoes printing, and the trees that are read are the well shaped ones: a
well shaped program is printed as a text that is read as the same program, places
and what was written into it aside; and any program that is read is well shaped and
has nothing written into it. -/
theorem parse_print_and_image :
    (∀ t : Program, t.WellShaped →
      ∃ p, parse t.print = .ok p ∧ p.relabel .unplaced = t.relabel .bare) ∧
    ∀ (source : String) (p : Program), parse source = .ok p →
      p.WellShaped ∧ p.relabel .cleared = p := by
  refine ⟨fun t ht => ?_, fun source p hp => ⟨parse_wellShaped hp, parse_cleared hp⟩⟩
  obtain ⟨p, hp, htree⟩ := (Program.derives_print ht).parse
  exact ⟨p, hp, htree.trans t.program_items⟩

/-- A small program, to be printed and read back: an array, and a function that stores
into it and prints a string with a quote and a newline in it. -/
def sample : Program :=
  let i : Expr := .location .nowhere none "i" none
  let value : Expr := .binary .nowhere none .sub i (.unary .nowhere none .neg i)
  let target : Expr := .location .nowhere none "xs" (some (.literal .nowhere none (.int 7)))
  let text : Expr := .literal .nowhere none (.str "a\"\n")
  let body : Block :=
    ⟨[], [.assign .nowhere target value, .call .nowhere (.call .nowhere none "print_str" [text])],
      .nowhere, none⟩
  ⟨[⟨"xs", .int, some 8, .nowhere⟩], [⟨"f", .void, [⟨"i", .int, .nowhere⟩], body, .nowhere, none⟩],
    .nowhere, none⟩

/-- A program with an array, operators and a string that has to be escaped meets the hypothesis. -/
theorem parse_print_sample :
    sample.WellShaped ∧
      ∃ p, parse sample.print = .ok p ∧ p.relabel .unplaced = sample.relabel .bare ∧
        p.WellShaped ∧ p.relabel .cleared = p := by
  have hs : sample.WellShaped := by
    refine ⟨List.forall_mem_singleton.mpr ?_, List.forall_mem_singleton.mpr ?_⟩
    · exact ⟨by decide, .inl rfl, by rintro n ⟨⟩; decide⟩
    · refine ⟨by decide, .inr (.inr rfl), List.forall_mem_singleton.mpr ⟨by decide, .inl rfl⟩,
        .mk nofun (List.forall_mem_cons.mpr ⟨?_, List.forall_mem_singleton.mpr ?_⟩)⟩
      · have hi : (Expr.location .nowhere none "i" none).WellShaped := .scalar (by decide)
        have hindex : (Literal.int 7).InRange := ⟨by decide, by decide⟩
        exact .assign rfl (.element (by decide) (.literal hindex)) (.binary hi (.unary hi))
      · exact .call rfl (.call (by decide) (List.forall_mem_singleton.mpr (.literal trivial)))
  obtain ⟨p, hp, htree⟩ := parse_print_and_image.1 sample hs
  obtain ⟨hshape, hcleared⟩ := parse_print_and_image.2 sample.print p hp
  exact ⟨hs, p, hp, htree, hshape, hcleared⟩

end Decaf
