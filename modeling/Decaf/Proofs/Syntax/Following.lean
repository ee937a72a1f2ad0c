import Decaf.Proofs.Syntax.Standing

/-!
# Procedures and readers

Each procedure of the descent follows the reader of the same construct, at every cursor that stands
in front of the tokens the reader is given (`body_follows`). What it calls has to follow its reader
only at cursors further on, or at the same one if the procedure makes the call before it has taken
a token (`Serves`). There are few calls of the second kind (`Proc.Direct`) and they go down
(`Proc.rank`), so that no procedure comes back to itself without having taken a token.

A loop needs no more rounds than there are tokens, since no round takes none.
-/

namespace Decaf.Descent

variable {source : String} {tokens rest : List Token} {t : Token} {c : Cursor} {α : Type}

/-! ## Loops -/

/-- A loop that goes on for as long as the current token passes a test ends, since every round
takes a token. -/
theorem repeatWhile_follows {test : Token.Kind → Bool} {step : Stepping α} {item : Reader α}
    {items : LazyReader (List α)}
    (hitems : ∀ tokens, items tokens =
      if test ((Reading.ofSource source).current tokens).kind then
        item tokens >>= fun p => items p.rest >>= fun q =>
          .ok ⟨p.value :: q.value, q.rest,
            Nat.lt_succ_of_lt (Parsed.rest_lt_of_lt p.rest_lt q.rest_lt)⟩
      else .ok ⟨[], tokens, Parsed.self_lt tokens⟩)
    {limit : Nat} (hlimit : tokens.length < limit) (hc : Stands source tokens c)
    (hstep : ∀ tokens' c', tokens'.length ≤ tokens.length → Stands source tokens' c' →
      Follows source c' (step c') (Attempt.outcome (item tokens'))) :
    Follows source c (repeatWhile test step limit c) (Attempt.outcome (items tokens)) := by
  -- The tokens that are left stay fewer than the rounds that are left.
  induction limit generalizing tokens c with
  | zero => exact absurd hlimit (Nat.not_lt_zero _)
  | succ limit ih =>
    rw [repeatWhile, current_bind, hc.current, hitems]
    refine .ite (fun _ => ?_) fun _ => .pure hc
    refine .seq (hstep tokens c (Nat.le_refl _) hc) fun first rest₁ h₁ c₁ hc₁ => ?_
    have hothers : Follows source c₁ (repeatWhile test step limit c₁)
        (Attempt.outcome (items rest₁)) :=
      ih (by omega) hc₁ fun tokens' c' hle => hstep tokens' c' (by omega)
    exact .seq hothers fun others rest₂ h₂ c₂ hc₂ => .pure hc₂

/-- A loop that goes on for as long as commas follow ends as well. -/
theorem separated_follows {step : Stepping α} {item : Reader α} {items : Reader (List α)}
    (hitems : ∀ tokens, items tokens =
      item tokens >>= fun p => Parser.optional (.ofSource source) (.sign .comma) p.rest >>= fun o =>
        if o.value then items o.rest >>= fun q =>
          .ok ⟨p.value :: q.value, q.rest,
            Nat.lt_trans q.rest_lt (Parsed.rest_lt_of_lt p.rest_lt o.rest_lt)⟩
        else .ok ⟨[p.value], o.rest, Parsed.rest_lt_of_lt p.rest_lt o.rest_lt⟩)
    {limit : Nat} (hlimit : tokens.length < limit) (hc : Stands source tokens c)
    (hstep : ∀ tokens' c', tokens'.length ≤ tokens.length → Stands source tokens' c' →
      Follows source c' (step c') (Attempt.outcome (item tokens'))) :
    Follows source c (separated step limit c) (Attempt.outcome (items tokens)) := by
  induction limit generalizing tokens c with
  | zero => exact absurd hlimit (Nat.not_lt_zero _)
  | succ limit ih =>
    rw [separated, hitems]
    refine .seq (hstep tokens c (Nat.le_refl _) hc) fun first rest₁ h₁ c₁ hc₁ => ?_
    refine .seq (optional_follows hc₁ (by decide)) fun more rest₂ h₂ c₂ hc₂ => ?_
    cases more with
    | false => exact .pure hc₂
    | true =>
      have hlt : rest₂.length < tokens.length := Parsed.rest_lt_of_lt h₁ h₂
      have hothers : Follows source c₂ (separated step limit c₂) (Attempt.outcome (items rest₂)) :=
        ih (by omega) hc₂ fun tokens' c' hle => hstep tokens' c' (by omega)
      exact .seq hothers fun others rest₃ h₃ c₃ hc₃ => .pure hc₃

/-! ## Procedures -/

namespace Proc

/-- What a procedure reads. -/
def read (source : String) : {α : Type} → Proc α → (tokens : List Token) →
    Attempt (Parsed α tokens.length)
  | _, .topLevel, tokens => Attempt.outcome (Parser.topLevel (.ofSource source) tokens)
  | _, .functionRest name ty start, tokens =>
    Attempt.outcome (Parser.functionRest (.ofSource source) name ty start tokens)
  | _, .varDecl, tokens => Attempt.outcome (Parser.varDecl (.ofSource source) tokens)
  | _, .varRest name ty start, tokens =>
    Attempt.outcome (Parser.varRest (.ofSource source) name ty start tokens)
  | _, .block, tokens => Attempt.outcome (Parser.block (.ofSource source) tokens)
  | _, .stmt, tokens => Attempt.outcome (Parser.stmt (.ofSource source) tokens)
  | _, .expr, tokens => Attempt.outcome (Parser.expr (.ofSource source) tokens)
  | _, .binary least, tokens => Parser.climb (.ofSource source) least tokens
  | _, .unary, tokens => Attempt.outcome (Parser.operand (.ofSource source) tokens)
  | _, .primary, tokens => Attempt.outcome (Parser.primary (.ofSource source) tokens)
  | _, .callOrLocation, tokens => Attempt.outcome (Parser.callOrLocation (.ofSource source) tokens)

/-- The calls that may be made before a token is taken. -/
inductive Direct : {α β : Type} → Proc α → Proc β → Prop
  | stmtBlock : Direct stmt block
  | stmtTarget : Direct stmt callOrLocation
  | exprBinary : Direct expr (binary 1)
  | binaryUnary {least : Nat} : Direct (binary least) unary
  | unaryPrimary : Direct unary primary
  | primaryName : Direct primary callOrLocation

/-- How many calls can be made one inside the other before a token is taken. -/
def rank : {α : Type} → Proc α → Nat
  | _, expr => 4
  | _, binary _ => 3
  | _, unary => 2
  | _, primary => 1
  | _, stmt => 1
  | _, _ => 0

/-- Ranks are bounded, so a call is counted by tokens first and by rank second. -/
theorem rank_le (p : Proc α) : p.rank ≤ 4 := by
  cases p <;> exact Nat.le_of_ble_eq_true rfl

/-- A call before a token is taken goes down. -/
theorem Direct.rank_lt {β : Type} {p : Proc α} {q : Proc β} (h : Direct p q) : q.rank < p.rank := by
  cases h <;> exact Nat.lt_succ_self _

end Proc

/-- Calls follow the readers, if they are made on fewer tokens, or directly. -/
def Serves (source : String) (call : {α : Type} → Proc α → Stepping α) (p : Proc α)
    (tokens : List Token) : Prop :=
  ∀ (β : Type) (q : Proc β) (rest : List Token) (c : Cursor), Stands source rest c →
    rest.length < tokens.length ∨ rest = tokens ∧ p.Direct q →
    Follows source c (call q c) (q.read source rest)

section Procedures

variable {call : {α : Type} → Proc α → Stepping α} {limit : Nat}

/-- A call that is made after a token was taken. -/
theorem Serves.later {β : Type} {p : Proc α} (h : Serves source call p tokens) (q : Proc β)
    (hc : Stands source rest c) (hlt : rest.length < tokens.length) :
    Follows source c (call q c) (q.read source rest) :=
  h β q rest c hc (.inl hlt)

/-- A call that is made before a token was taken. -/
theorem Serves.now {β : Type} {p : Proc α} (h : Serves source call p tokens) {q : Proc β}
    (hc : Stands source tokens c) (hq : p.Direct q) :
    Follows source c (call q c) (q.read source tokens) :=
  h β q tokens c hc (.inr ⟨rfl, hq⟩)

/-- What stands at the top level. The optional word is taken before the type, and the start of the
span with it. -/
theorem topLevel_follows (hc : Stands source tokens c)
    (hcall : Serves source call .topLevel tokens) :
    Follows source c (topLevel call c)
      (Attempt.outcome (Parser.topLevel (.ofSource source) tokens)) := by
  rw [topLevel, current_bind, hc.current, Parser.topLevel]
  refine .seq (optional_follows hc (by decide)) fun _ rest₁ h₁ c₁ hc₁ => ?_
  refine .seq (type_follows hc₁) fun ty rest₂ h₂ c₂ hc₂ => ?_
  refine .seq (identifier_follows hc₂) fun name rest₃ h₃ c₃ hc₃ => ?_
  obtain ⟨ty, start⟩ := ty
  obtain ⟨name, span⟩ := name
  dsimp only
  rw [current_bind, hc₃.current]
  refine .ite (fun _ => ?_) fun _ => ?_
  · refine .seq (hcall.later (.functionRest ..) hc₃ (by omega)) fun f rest₄ h₄ c₄ hc₄ => ?_
    exact .pure hc₄
  · refine .seq (hcall.later (.varRest ..) hc₃ (by omega)) fun f rest₄ h₄ c₄ hc₄ => ?_
    exact .pure hc₄

/-- Reads a parameter. -/
def readParam (r : Reading) : Reader Param := fun tokens =>
  Parser.type r tokens >>= fun p => Parser.identifier r p.rest >>= fun q =>
    .ok ⟨⟨q.value.1, p.value.1, r.place (p.value.2.merge q.value.2)⟩, q.rest,
      Nat.lt_trans q.rest_lt p.rest_lt⟩

/-- The reader of parameters as a loop: one, and another one if a comma follows. -/
theorem paramList_eq (r : Reading) (tokens : List Token) :
    Parser.paramList r tokens =
      readParam r tokens >>= fun p => Parser.optional r (.sign .comma) p.rest >>= fun o =>
        if o.value then Parser.paramList r o.rest >>= fun q =>
          .ok ⟨p.value :: q.value, q.rest,
            Nat.lt_trans q.rest_lt (Parsed.rest_lt_of_lt p.rest_lt o.rest_lt)⟩
        else .ok ⟨[p.value], o.rest, Parsed.rest_lt_of_lt p.rest_lt o.rest_lt⟩ := by
  rw [Parser.paramList, readParam]
  cases Parser.type r tokens with
  | error e => rfl
  | ok p =>
    show (Parser.identifier r p.rest >>= _) = ((Parser.identifier r p.rest >>= _) >>= _)
    cases Parser.identifier r p.rest with
    | error e => rfl
    | ok q => rfl

/-- A single parameter. -/
theorem param_follows (hc : Stands source tokens c) :
    Follows source c (param (Reading.ofSource source).lines c)
      (Attempt.outcome (readParam (.ofSource source) tokens)) := by
  refine .seq (type_follows hc) fun ty rest₁ h₁ c₁ hc₁ => ?_
  refine .seq (identifier_follows hc₁) fun name rest₂ h₂ c₂ hc₂ => ?_
  exact .pure hc₂

/-- Parameters, which the procedure reads in a loop and the reader by recursion. -/
theorem params_follows (hc : Stands source tokens c) (hlimit : tokens.length < limit) :
    Follows source c (params (Reading.ofSource source).lines limit c)
      (Attempt.outcome (Parser.params (.ofSource source) tokens)) := by
  rw [params, current_bind, hc.current, Parser.params]
  refine .ite (fun _ => .pure hc) fun _ => ?_
  refine .last ?_ fun _ _ _ => ⟨_, rfl⟩
  exact separated_follows (paramList_eq _) hlimit hc fun _ _ _ hc' => param_follows hc'

/-- The rest of a function, with a call for its body. -/
theorem functionRest_follows {name : String} {ty : Ty} {start : Span} (hc : Stands source tokens c)
    (hcall : Serves source call (.functionRest name ty start) tokens)
    (hlimit : tokens.length ≤ limit) :
    Follows source c (functionRest (Reading.ofSource source).lines limit call name ty start c)
      (Attempt.outcome (Parser.functionRest (.ofSource source) name ty start tokens)) := by
  rw [functionRest, Parser.functionRest]
  refine .seq (expect_follows hc (by decide)) fun _ rest₁ h₁ c₁ hc₁ => ?_
  refine .seq (params_follows hc₁ (by omega)) fun params rest₂ h₂ c₂ hc₂ => ?_
  refine .seq (expect_follows hc₂ (by decide)) fun _ rest₃ h₃ c₃ hc₃ => ?_
  refine .seq (hcall.later .block hc₃ (by omega)) fun body rest₄ h₄ c₄ hc₄ => ?_
  exact .pure hc₄

theorem varDecl_follows (hc : Stands source tokens c)
    (hcall : Serves source call .varDecl tokens) :
    Follows source c (varDecl call c)
      (Attempt.outcome (Parser.varDecl (.ofSource source) tokens)) := by
  rw [varDecl, Parser.varDecl]
  refine .seq (type_follows hc) fun ty rest₁ h₁ c₁ hc₁ => ?_
  refine .seq (identifier_follows hc₁) fun name rest₂ h₂ c₂ hc₂ => ?_
  exact .last (hcall.later (.varRest ..) hc₂ (by omega)) fun _ _ _ => ⟨_, rfl⟩

/-- The rest of a declaration, which calls nothing. -/
theorem varRest_follows {name : String} {ty : Ty} {start : Span} (hc : Stands source tokens c) :
    Follows source c (varRest (Reading.ofSource source).lines name ty start c)
      (Attempt.outcome (Parser.varRest (.ofSource source) name ty start tokens)) := by
  rw [varRest, Parser.varRest]
  refine .seq (optional_follows hc (by decide)) fun isArray rest₁ h₁ c₁ hc₁ => ?_
  cases isArray with
  | true =>
    refine .seq (arrayLength_follows hc₁) fun length rest₂ h₂ c₂ hc₂ => ?_
    refine .seq (expect_follows hc₂ (by decide)) fun _ rest₃ h₃ c₃ hc₃ => ?_
    refine .seq (expect_follows hc₃ (by decide)) fun close rest₄ h₄ c₄ hc₄ => ?_
    exact .pure hc₄
  | false =>
    refine .seq (expect_follows hc₁ (by decide)) fun close rest₂ h₂ c₂ hc₂ => ?_
    exact .pure hc₂

/-- The reader of declarations as a loop with a test before each round. -/
theorem varDecls_eq (r : Reading) (tokens : List Token) :
    Parser.varDecls r tokens =
      if (r.current tokens).kind.type?.isSome then
        Parser.varDecl r tokens >>= fun p => Parser.varDecls r p.rest >>= fun q =>
          .ok ⟨p.value :: q.value, q.rest,
            Nat.lt_succ_of_lt (Parsed.rest_lt_of_lt p.rest_lt q.rest_lt)⟩
      else .ok ⟨[], tokens, Parsed.self_lt tokens⟩ := by
  rw [Parser.varDecls]
  rfl

/-- The reader of statements as a loop with a test before each round. -/
theorem stmts_eq (r : Reading) (tokens : List Token) :
    Parser.stmts r tokens =
      if decide ((r.current tokens).kind ≠ .sign .closeBrace ∧
          (r.current tokens).kind ≠ .endOfFile) then
        Parser.stmt r tokens >>= fun p => Parser.stmts r p.rest >>= fun q =>
          .ok ⟨p.value :: q.value, q.rest,
            Nat.lt_succ_of_lt (Parsed.rest_lt_of_lt p.rest_lt q.rest_lt)⟩
      else .ok ⟨[], tokens, Parsed.self_lt tokens⟩ := by
  rw [Parser.stmts]
  by_cases h : (r.current tokens).kind = .sign .closeBrace ∨ (r.current tokens).kind = .endOfFile
  · rw [if_pos h, if_neg (by rw [decide_eq_true_iff, ← not_or, not_not]; exact h)]
    rfl
  · rw [if_neg h, if_pos (by rw [decide_eq_true_iff, ← not_or]; exact h)]
    rfl

/-- A block has two loops, one for its declarations and one for its statements. -/
theorem block_follows (hc : Stands source tokens c) (hcall : Serves source call .block tokens)
    (hlimit : tokens.length ≤ limit) :
    Follows source c (block (Reading.ofSource source).lines limit call c)
      (Attempt.outcome (Parser.block (.ofSource source) tokens)) := by
  rw [block, Parser.block]
  refine .seq (expect_follows hc (by decide)) fun first rest₁ h₁ c₁ hc₁ => ?_
  refine .seq (repeatWhile_follows (varDecls_eq _) (by omega) hc₁ fun rest' c' hle hc' =>
    hcall.later .varDecl hc' (by omega)) fun locals rest₂ h₂ c₂ hc₂ => ?_
  refine .seq (repeatWhile_follows (stmts_eq _) (by omega) hc₂ fun rest' c' hle hc' =>
    hcall.later .stmt hc' (by omega)) fun statements rest₃ h₃ c₃ hc₃ => ?_
  refine .seq (expect_follows hc₃ (by decide)) fun last rest₄ h₄ c₄ hc₄ => ?_
  exact .pure hc₄

theorem condition_follows {p : Proc α} (hc : Stands source rest c)
    (hcall : Serves source call p tokens) (hlt : rest.length < tokens.length) :
    Follows source c (condition call c)
      (Attempt.outcome (Parser.condition (.ofSource source) rest)) := by
  rw [condition, Parser.condition]
  refine .seq (expect_follows hc (by decide)) fun _ rest₁ h₁ c₁ hc₁ => ?_
  refine .seq (hcall.later .expr hc₁ (by omega)) fun value rest₂ h₂ c₂ hc₂ => ?_
  refine .seq (expect_follows hc₂ (by decide)) fun _ rest₃ h₃ c₃ hc₃ => ?_
  exact .pure hc₃

/-- A semicolon, and the statement it ends. -/
theorem finish_follows {start : Span} {make : Place → Stmt} (hc : Stands source rest c) :
    Follows source c (finish (Reading.ofSource source).lines start make c)
      (Attempt.outcome (Parser.finish (.ofSource source) start make rest)) := by
  rw [finish, Parser.finish]
  refine .seq (expect_follows hc (by decide)) fun close rest₁ h₁ c₁ hc₁ => ?_
  exact .pure hc₁

/-- A value is read unless a semicolon is there. -/
theorem returnValue_follows {p : Proc α} (hc : Stands source rest c)
    (hcall : Serves source call p tokens) (hlt : rest.length < tokens.length) :
    Follows source c (returnValue call c)
      (Attempt.outcome (Parser.returnValue (.ofSource source) rest)) := by
  rw [returnValue, current_bind, hc.current, Parser.returnValue]
  refine .ite (fun _ => .pure hc) fun _ => ?_
  refine .seq (hcall.later .expr hc hlt) fun value rest₁ h₁ c₁ hc₁ => ?_
  exact .pure hc₁

/-- A statement, by its first token: this decides which call comes next. -/
theorem stmt_follows (hc : Stands source tokens c) (hcall : Serves source call .stmt tokens) :
    Follows source c (stmt (Reading.ofSource source).lines call c)
      (Attempt.outcome (Parser.stmt (.ofSource source) tokens)) := by
  rw [stmt, current_bind, hc.current]
  cases tokens with
  | nil =>
    rw [Parser.stmt]
    exact .error
  | cons t rest =>
    have htail : rest.length < (t :: rest).length := Parsed.tail_lt t rest
    rw [Reading.current_cons, Parser.stmt]
    cases t.kind with
    | word w =>
      cases w with
      | ifWord =>
        refine .advance hc fun c₀ hc₀ => ?_
        refine .seq (condition_follows hc₀ hcall htail) fun test rest₁ h₁ c₁ hc₁ => ?_
        refine .seq (hcall.later .block hc₁ (by omega)) fun thenBlock rest₂ h₂ c₂ hc₂ => ?_
        refine .seq (optional_follows hc₂ (by decide)) fun hasElse rest₃ h₃ c₃ hc₃ => ?_
        cases hasElse with
        | true =>
          refine .seq (hcall.later .block hc₃ (by omega)) fun elseBlock rest₄ h₄ c₄ hc₄ => ?_
          exact .pure hc₄
        | false => exact .pure hc₃
      | whileWord =>
        refine .advance hc fun c₀ hc₀ => ?_
        refine .seq (condition_follows hc₀ hcall htail) fun test rest₁ h₁ c₁ hc₁ => ?_
        refine .seq (hcall.later .block hc₁ (by omega)) fun body rest₂ h₂ c₂ hc₂ => ?_
        exact .pure hc₂
      | returnWord =>
        refine .advance hc fun c₀ hc₀ => ?_
        refine .seq (returnValue_follows hc₀ hcall htail) fun value rest₁ h₁ c₁ hc₁ => ?_
        exact .last (finish_follows hc₁) fun _ _ _ => ⟨_, rfl⟩
      | breakWord =>
        refine .advance hc fun c₀ hc₀ => ?_
        exact .last (finish_follows hc₀) fun _ _ _ => ⟨_, rfl⟩
      | continueWord =>
        refine .advance hc fun c₀ hc₀ => ?_
        exact .last (finish_follows hc₀) fun _ _ _ => ⟨_, rfl⟩
      | _ => exact .error
    | sign s =>
      cases s with
      | openBrace =>
        refine .seq (hcall.now hc .stmtBlock) fun inner rest₁ h₁ c₁ hc₁ => ?_
        exact .pure hc₁
      | _ => exact .error
    | identifier name =>
      -- The look ahead moves nothing: the name is still there for the call.
      refine .look hc fun c₀ hc₀ => ?_
      by_cases hcalled : ((Reading.ofSource source).current rest).kind = .sign .openParen
      · rw [if_pos hcalled, decide_eq_true hcalled, Parser.simpleStmt]
        refine .seq (hcall.now hc₀ .stmtTarget) fun target rest₁ h₁ c₁ hc₁ => ?_
        exact .last (finish_follows hc₁) fun _ _ _ => ⟨_, rfl⟩
      · rw [if_neg hcalled, decide_eq_false hcalled, Parser.simpleStmt]
        refine .seq (hcall.now hc₀ .stmtTarget) fun target rest₁ h₁ c₁ hc₁ => ?_
        refine .seq (expect_follows hc₁ (by decide)) fun _ rest₂ h₂ c₂ hc₂ => ?_
        refine .seq (hcall.later .expr hc₂ (by omega)) fun value rest₃ h₃ c₃ hc₃ => ?_
        exact .last (finish_follows hc₃) fun _ _ _ => ⟨_, rfl⟩
    | _ => exact .error

/-- The right operand of an operator is what climbing gives from one level above it. -/
theorem climbOn_operator (r : Reading) {least n : Nat} (left : Expr)
    (hn : t.kind.precedence? = some n) (hle : ¬ n < least) :
    Parser.climbOn r least left (t :: rest) =
      Attempt.outcome (r.reach rest) >>= fun _ => Attempt.need t.kind.binaryOp? >>= fun op =>
        Attempt.need (nextByte? n) >>= fun next => Parser.climb r next rest >>= fun p =>
          Parser.climbOn r least (Parser.joined r op left p.value) p.rest >>= fun q =>
            Attempt.outcome (.ok ⟨q.value, q.rest, Nat.lt_succ_of_lt (Nat.lt_succ_of_lt
              (Parsed.rest_lt_of_lt p.rest_lt q.rest_lt))⟩) := by
  rw [Parser.climbOn]
  simp only [hn, if_neg hle, Parser.climb, bind_assoc, pure_bind]
  rfl

/-- The loop of operators climbs as far as the climbing reader does. Each round takes an operator
and calls for its right operand at a tighter level. -/
theorem operators_follows {least : Nat} (hcall : Serves source call (.binary least) tokens)
    (hc : Stands source rest c) (hlt : rest.length < tokens.length) (hlimit : rest.length < limit)
    (left : Expr) :
    Follows source c (operators (Reading.ofSource source).lines call least limit left c)
      (Parser.climbOn (.ofSource source) least left rest) := by
  induction limit generalizing rest c left with
  | zero => exact absurd hlimit (Nat.not_lt_zero _)
  | succ limit ih =>
    rw [operators, current_bind, hc.current]
    cases rest with
    | nil =>
      -- The end of the file is no operator.
      rw [Parser.climbOn]
      exact .pure hc
    | cons t rest =>
      rw [Reading.current_cons]
      cases hn : t.kind.precedence? with
      | none =>
        rw [Parser.climbOn]
        simp only [hn]
        exact .pure hc
      | some n =>
        by_cases hle : n < least
        · rw [Parser.climbOn]
          simp only [hn, if_pos hle]
          exact .pure hc
        · rw [climbOn_operator _ left hn hle]
          simp only [if_neg hle]
          refine .bindAdvance hc fun c₁ hc₁ => ?_
          refine .need fun op => .need fun next => ?_
          rw [List.length_cons] at hlt hlimit
          refine .bind (hcall.later (.binary next) hc₁ (by omega)) fun right rest₂ h₂ c₂ hc₂ => ?_
          exact .bindLast (ih hc₂ (by omega) (by omega) _) fun _ _ _ => ⟨_, rfl⟩

/-- An expression of some level: an operand and the loop. -/
theorem binary_follows {least : Nat} (hc : Stands source tokens c)
    (hcall : Serves source call (.binary least) tokens) (hlimit : tokens.length ≤ limit) :
    Follows source c (binary (Reading.ofSource source).lines limit call least c)
      (Parser.climb (.ofSource source) least tokens) := by
  rw [binary, Parser.climb]
  refine .bind (hcall.now hc .binaryUnary) fun left rest₁ h₁ c₁ hc₁ => ?_
  exact .bindLast (operators_follows hcall hc₁ (by omega) (by omega) left) fun _ _ _ => ⟨_, rfl⟩

/-- Operators before an operand call for the next operand, and only without one the procedure goes
on to a primary expression. -/
theorem unary_follows (hc : Stands source tokens c) (hcall : Serves source call .unary tokens) :
    Follows source c (unary (Reading.ofSource source).lines call c)
      (Attempt.outcome (Parser.operand (.ofSource source) tokens)) := by
  rw [unary, current_bind, hc.current]
  cases tokens with
  | nil =>
    rw [Parser.operand]
    exact hcall.now hc .unaryPrimary
  | cons t rest =>
    have htail : rest.length < (t :: rest).length := Parsed.tail_lt t rest
    rw [Reading.current_cons, Parser.operand]
    cases t.kind.unaryOp? with
    | none => exact hcall.now hc .unaryPrimary
    | some op =>
      refine .advance hc fun c₁ hc₁ => ?_
      refine .seq (hcall.later .unary hc₁ htail) fun inner rest₁ h₁ c₂ hc₂ => ?_
      exact .pure hc₂

/-- A literal, from the token that the procedure has seen. -/
theorem literal_follows (hc : Stands source (t :: rest) c) :
    Follows source c (literal (Reading.ofSource source).lines t c)
      (Attempt.outcome ((Parser.literal? t).elim (.error (.unexpected .expression t)) fun value =>
        value >>= fun v => (Reading.ofSource source).reach rest >>= fun _ =>
          .ok ⟨.literal ((Reading.ofSource source).place t.span) none v, rest,
            Parsed.tail_lt t rest⟩)) := by
  unfold literal
  cases Parser.literal? t with
  | none => exact .error
  | some value =>
    cases value with
    | error e => exact .error
    | ok v =>
      show Follows source c ((advance >>= fun _ =>
        pure (Expr.literal (place (Reading.ofSource source).lines t.span) none v)) c) _
      exact .advance hc fun c₁ hc₁ => .pure hc₁

/-- What is no parenthesis and no name has to be a literal. -/
theorem primary_other (r : Reading) (hparen : t.kind ≠ .sign .openParen)
    (hname : ∀ name, t.kind ≠ .identifier name) :
    Parser.primary r (t :: rest) =
      (Parser.literal? t).elim (.error (.unexpected .expression t)) fun value =>
        value >>= fun v => r.reach rest >>= fun _ =>
          .ok ⟨.literal (r.place t.span) none v, rest, Parsed.tail_lt t rest⟩ := by
  rw [Parser.primary]
  split
  · next hk => exact absurd hk hparen
  · next name hk => exact absurd hk (hname name)
  · cases Parser.literal? t <;> rfl

/-- A primary expression, by its first token. -/
theorem primary_follows (hc : Stands source tokens c) (hcall : Serves source call .primary tokens) :
    Follows source c (primary (Reading.ofSource source).lines call c)
      (Attempt.outcome (Parser.primary (.ofSource source) tokens)) := by
  rw [primary, current_bind, hc.current]
  cases tokens with
  | nil =>
    rw [Parser.primary]
    exact .error
  | cons t rest =>
    have htail : rest.length < (t :: rest).length := Parsed.tail_lt t rest
    have hother (hparen : t.kind ≠ .sign .openParen) (hname : ∀ name, t.kind ≠ .identifier name) :
        Follows source c (literal (Reading.ofSource source).lines t c)
          (Attempt.outcome (Parser.primary (.ofSource source) (t :: rest))) := by
      rw [primary_other _ hparen hname]
      exact literal_follows hc
    rw [Reading.current_cons]
    cases hk : t.kind with
    | identifier name =>
      rw [Parser.primary]
      simp only [hk]
      exact hcall.now hc .primaryName
    | sign s =>
      cases s with
      | openParen =>
        rw [Parser.primary]
        simp only [hk]
        refine .advance hc fun c₁ hc₁ => ?_
        refine .seq (hcall.later .expr hc₁ htail) fun inner rest₁ h₁ c₂ hc₂ => ?_
        refine .seq (expect_follows hc₂ (by decide)) fun _ rest₂ h₂ c₃ hc₃ => ?_
        exact .pure hc₃
      | _ => exact hother (fun h => by cases hk.symm.trans h) fun _ h => by cases hk.symm.trans h
    | _ => exact hother (fun h => by cases hk.symm.trans h) fun _ h => by cases hk.symm.trans h

theorem argumentList_eq (r : Reading) (tokens : List Token) :
    Parser.argumentList r tokens =
      Parser.expr r tokens >>= fun p => Parser.optional r (.sign .comma) p.rest >>= fun o =>
        if o.value then Parser.argumentList r o.rest >>= fun q =>
          .ok ⟨p.value :: q.value, q.rest,
            Nat.lt_trans q.rest_lt (Parsed.rest_lt_of_lt p.rest_lt o.rest_lt)⟩
        else .ok ⟨[p.value], o.rest, Parsed.rest_lt_of_lt p.rest_lt o.rest_lt⟩ := by
  rw [Parser.argumentList]
  rfl

/-- Arguments, which the procedure reads in a loop and the reader by recursion. -/
theorem arguments_follows {p : Proc α} (hc : Stands source rest c)
    (hcall : Serves source call p tokens) (hlt : rest.length < tokens.length)
    (hlimit : rest.length < limit) :
    Follows source c (arguments limit call c)
      (Attempt.outcome (Parser.arguments (.ofSource source) rest)) := by
  rw [arguments, current_bind, hc.current, Parser.arguments]
  refine .ite (fun _ => .pure hc) fun _ => ?_
  refine .last ?_ fun _ _ _ => ⟨_, rfl⟩
  exact separated_follows (argumentList_eq _) hlimit hc fun _ _ hle hc' =>
    hcall.later .expr hc' (by omega)

/-- What a name begins, by the token behind it. -/
theorem callOrLocation_follows (hc : Stands source tokens c)
    (hcall : Serves source call .callOrLocation tokens) (hlimit : tokens.length ≤ limit) :
    Follows source c (callOrLocation (Reading.ofSource source).lines limit call c)
      (Attempt.outcome (Parser.callOrLocation (.ofSource source) tokens)) := by
  rw [callOrLocation, Parser.callOrLocation]
  refine .seq (identifier_follows hc) fun name rest₁ h₁ c₁ hc₁ => ?_
  refine .seq (optional_follows hc₁ (by decide)) fun called rest₂ h₂ c₂ hc₂ => ?_
  cases called with
  | true =>
    refine .seq (arguments_follows hc₂ hcall (by omega) (by omega)) fun args rest₃ h₃ c₃ hc₃ => ?_
    refine .seq (expect_follows hc₃ (by decide)) fun close rest₄ h₄ c₄ hc₄ => ?_
    exact .pure hc₄
  | false =>
    refine .seq (optional_follows hc₂ (by decide)) fun indexed rest₃ h₃ c₃ hc₃ => ?_
    cases indexed with
    | true =>
      refine .seq (hcall.later .expr hc₃ (by omega)) fun index rest₄ h₄ c₄ hc₄ => ?_
      refine .seq (expect_follows hc₄ (by decide)) fun close rest₅ h₅ c₅ hc₅ => ?_
      exact .pure hc₅
    | false => exact .pure hc₃

/-- A procedure follows its reader, if its calls do. -/
theorem body_follows (p : Proc α) (hc : Stands source tokens c)
    (hcall : Serves source call p tokens) (hlimit : tokens.length ≤ limit) :
    Follows source c (body (Reading.ofSource source).lines limit call p c)
      (p.read source tokens) := by
  cases p with
  | topLevel => exact topLevel_follows hc hcall
  | functionRest name ty start => exact functionRest_follows hc hcall hlimit
  | varDecl => exact varDecl_follows hc hcall
  | varRest name ty start => exact varRest_follows hc
  | block => exact block_follows hc hcall hlimit
  | stmt => exact stmt_follows hc hcall
  | expr =>
    show Follows source c _ (Attempt.outcome (Parser.expr (.ofSource source) tokens))
    rw [← Parser.climb_eq]
    exact hcall.now hc .exprBinary
  | binary least => exact binary_follows hc hcall hlimit
  | unary => exact unary_follows hc hcall
  | primary => exact primary_follows hc hcall
  | callOrLocation => exact callOrLocation_follows hc hcall hlimit

end Procedures

end Decaf.Descent
