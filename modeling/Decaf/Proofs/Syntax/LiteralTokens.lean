import Decaf.Proofs.Syntax.Readers
import Decaf.Proofs.Token.Rows

/-!
# Literals from the text to the tree

How a literal gets from the text into an expression. What stands at the front of a text is
the next token, and it spans the bytes of its spelling (`Lexer.next_fronts`). A literal whose
value is known becomes an expression once the token behind it is reached; one that means
nothing is complained about before that (`Parser.primary_of_literal`). An expression is that
literal alone if no operator follows (`Parser.expr_literal`).
-/

namespace Decaf

open Scan

/-! ## Tokens -/

theorem Scan.Fronts.ofLexeme {k : Token.Kind} {text rest : List Char} (h : Fronts k text rest)
    (offset : Nat) :
    ∃ c cs, (splitGap false text) = ([], c :: cs) ∧
      lexeme c cs = ⟨some k, k.spelling.toList, rest⟩ ∧
      Token.ofLexeme offset (lexeme c cs) =
        .ok ⟨k, ⟨offset, offset + byteLength k.spelling.toList⟩⟩ := by
  obtain ⟨hsplit, c, cs, rfl, hread⟩ := h
  exact ⟨c, cs, hsplit, hread, by rw [hread]; rfl⟩

/-- A lexeme at the front of what is left is the next token, from where the reader stands. -/
theorem Lexer.next_fronts {lexer : Lexer} {k : Token.Kind} {rest : List Char}
    (hpeeked : lexer.peeked = none) (h : Fronts k lexer.rest rest) :
    lexer.next =
      (.ok ⟨k, ⟨lexer.offset, lexer.offset + byteLength k.spelling.toList⟩⟩,
        lexer.skip rest (byteLength k.spelling.toList)) := by
  obtain ⟨c, cs, hsplit, hread, htoken⟩ := h.ofLexeme lexer.offset
  have hgap : byteLength (splitGap false lexer.rest).1 = 0 := by rw [hsplit]; rfl
  rw [next_of_lexeme hpeeked (congrArg Prod.snd hsplit), hgap, Nat.add_zero, Nat.zero_add, htoken,
    hread]

/-- Every token that a reader gives is well spelled, but for the end of the file. -/
theorem Lexer.answers_wellSpelled (n : Nat) (lexer : Lexer) (hpeeked : lexer.peeked = none)
    {t : Token} (h : .ok t ∈ lexer.answers n) : t.kind = .endOfFile ∨ t.kind.WellSpelled := by
  induction n generalizing lexer with
  | zero => cases h
  | succ n ih =>
    rw [answers] at h
    cases hrest : (splitGap false lexer.rest).2 with
    | nil =>
      rw [next_of_gap hpeeked hrest] at h
      rcases List.mem_cons.mp h with h | h
      · cases h
        exact .inl rfl
      · exact ih (lexer.skip _ _) hpeeked h
    | cons c cs =>
      rw [next_of_lexeme hpeeked hrest] at h
      rcases List.mem_cons.mp h with h | h
      · unfold Token.ofLexeme at h
        cases hkind : (lexeme c cs).kind with
        | none =>
          rw [hkind] at h
          cases h
        | some k =>
          rw [hkind] at h
          cases h
          exact .inr (lexeme_spelled hkind).1
      · exact ih (lexer.skip _ _) hpeeked h

/-! ## Expressions -/

namespace Parser

variable (r : Reading) {t : Token} {rest : List Token}

theorem kind_ne_of_literal {x : Except ParseError Literal} (h : literal? t = some x) :
    t.kind ≠ .sign .openParen ∧ (∀ name, t.kind ≠ .identifier name) ∧ t.kind.unaryOp? = none := by
  unfold literal? at h
  refine ⟨fun hk => ?_, fun name hk => ?_, ?_⟩
  · rw [hk] at h
    cases h
  · rw [hk] at h
    cases h
  · cases hop : t.kind.unaryOp? with
    | none => rfl
    | some op =>
      rw [Token.Kind.unaryOp?_eq_some_iff.mp hop] at h
      cases h

/-- A literal is taken if it means something, and complained about if not. -/
theorem primary_of_literal {x : Except ParseError Literal} (h : literal? t = some x) :
    primary r (t :: rest) = do
      let v ← x
      r.reach rest
      return ⟨.literal (r.place t.span) none v, rest, Parsed.tail_lt t rest⟩ := by
  obtain ⟨hparen, hname, -⟩ := kind_ne_of_literal h
  rw [primary]
  split
  · next hk => exact absurd hk hparen
  · next name hk => exact absurd hk (hname name)
  · simp only [h]

/-- No operator stands at the front. -/
def NoOperator (tokens : List Token) : Prop :=
  ∀ t ∈ tokens.head?, t.kind.binaryOp? = none

theorem operators_of_noOperator (h : NoOperator rest) :
    operators r rest = .ok ⟨[], rest, Parsed.self_lt rest⟩ := by
  rw [operators.eq_def]
  cases rest with
  | nil => rfl
  | cons t rest => simp only [h t rfl]

/-- An expression that is a literal alone. -/
theorem expr_literal {v : Literal} (h : literal? t = some (.ok v)) (hnext : NoOperator rest) :
    expr r (t :: rest) = do
      r.reach rest
      return ⟨.literal (r.place t.span) none v, rest, Parsed.tail_lt t rest⟩ := by
  obtain ⟨-, -, hunary⟩ := kind_ne_of_literal h
  have hoperand : operand r (t :: rest) = primary r (t :: rest) := by
    rw [operand]
    simp only [hunary]
  rw [expr, hoperand, primary_of_literal r h]
  show ((r.reach rest >>= _) >>= _) = _
  cases r.reach rest with
  | error e => rfl
  | ok u =>
    show (operators r rest >>= _) = _
    rw [operators_of_noOperator r hnext]
    rfl

/-- An expression that begins with a literal that means nothing. -/
theorem expr_literal_error {e : ParseError} (h : literal? t = some (.error e)) :
    expr r (t :: rest) = .error e := by
  obtain ⟨-, -, hunary⟩ := kind_ne_of_literal h
  rw [expr, operand]
  simp only [hunary, primary_of_literal r h]
  rfl

end Parser

end Decaf
