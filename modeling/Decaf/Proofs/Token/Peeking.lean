import Decaf.Proofs.Token.Rows

/-!
# Looking ahead changes nothing

A reader that is asked for tokens and for looks at them, in any order, answers with what a
reader answers that is asked for tokens only. A look at a token uses nothing up, however
often it is repeated. A look that comes upon an unreadable spot does use it up, and its
answer stands in the place where `next` would have given it (`Lexer.peeks_transparent`).

After any calls the reader is one that was never looked ahead with, or that one with its
next token looked at (`Ahead`). Both answer to `next` and to `drain` alike, so the induction
over the calls follows the plain reader, and moves it on only where an answer is used up.
-/

namespace Decaf.Lexer

open Scan

/-! ## Calls -/

/-- What a reader can be asked for again and again: to take the next token, or to look
at it. -/
inductive Call where
  | next
  | peek

/-- The answer to a call, and the reader after it. -/
def call (lexer : Lexer) : Call → Answer × Lexer
  | .next => lexer.next
  | .peek => lexer.peek

/-- The reader after some calls. -/
def afterCalls (lexer : Lexer) : List Call → Lexer
  | [] => lexer
  | c :: calls => (lexer.call c).2.afterCalls calls

/-- What a call uses up: its answer, but not a token that was only looked at. -/
def Call.uses : Call → Answer → Option Answer
  | .next, answer => some answer
  | .peek, .error e => some (.error e)
  | .peek, .ok _ => none

/-- The answers that are used up by some calls, in order. -/
def taken (lexer : Lexer) : List Call → List Answer
  | [] => []
  | c :: calls => (c.uses (lexer.call c).1).toList ++ (lexer.call c).2.taken calls

theorem afterCalls_append (lexer : Lexer) (calls more : List Call) :
    lexer.afterCalls (calls ++ more) = (lexer.afterCalls calls).afterCalls more := by
  induction calls generalizing lexer with
  | nil => rfl
  | cons c calls ih => exact ih _

theorem taken_append (lexer : Lexer) (calls more : List Call) :
    lexer.taken (calls ++ more) = lexer.taken calls ++ (lexer.afterCalls calls).taken more := by
  induction calls generalizing lexer with
  | nil => rfl
  | cons c calls ih => rw [List.cons_append, taken, ih, taken, List.append_assoc]; rfl

/-! ## Tokens only -/

/-- The reader after `n` calls of `next`. -/
def afterNexts (lexer : Lexer) : Nat → Lexer
  | 0 => lexer
  | n + 1 => lexer.next.2.afterNexts n

/-- Answers to later calls are those of the reader that the earlier calls leave. -/
theorem answers_add (lexer : Lexer) (m n : Nat) :
    lexer.answers (m + n) = lexer.answers m ++ (lexer.afterNexts m).answers n := by
  induction m generalizing lexer with
  | zero => rw [Nat.zero_add]; rfl
  | succ m ih => rw [Nat.succ_add, answers, ih, answers, afterNexts]; rfl

/-- After some answers there is only the end of the file. -/
theorem answers_ending (lexer : Lexer) (h : lexer.peeked = none) :
    ∃ m final, final.kind = .endOfFile ∧
      ∀ n, lexer.answers (m + n) = lexer.answers m ++ List.replicate n (.ok final) := by
  obtain ⟨pieces, last, -, -, -, hanswers⟩ := exists_pieces lexer h
  have hpieces := hanswers 0
  rw [Nat.add_zero, List.replicate_zero, List.append_nil] at hpieces
  refine ⟨pieces.length, .ending (lexer.offset + byteLength lexer.rest), rfl, fun n => ?_⟩
  rw [hanswers n, hpieces]

/-- A reader that has not looked ahead reads the next token from its text. -/
theorem next_eq_read {lexer : Lexer} (h : lexer.peeked = none) : lexer.next = lexer.read := by
  rw [next, h]

theorem read_peeked (lexer : Lexer) : lexer.read.2.peeked = lexer.peeked := by
  unfold read
  dsimp only
  split <;> rfl

/-- Taking a token uses up what was looked at. -/
theorem next_peeked (lexer : Lexer) : lexer.next.2.peeked = none := by
  cases hpeeked : lexer.peeked with
  | none => rw [next_eq_read hpeeked, read_peeked, hpeeked]
  | some t => rw [next, hpeeked]

theorem afterNexts_peeked {lexer : Lexer} (h : lexer.peeked = none) (n : Nat) :
    (lexer.afterNexts n).peeked = none := by
  induction n generalizing lexer with
  | zero => exact h
  | succ n ih => exact ih lexer.next_peeked

/-- To take all tokens is to take the next one and, unless it is the end, the others. -/
theorem drain_eq {lexer : Lexer} (h : lexer.peeked = none) :
    lexer.drain = match lexer.next with
      | (.error e, _) => .error e
      | (.ok t, after) => if t.kind = .endOfFile then .ok [t] else after.drain.map (t :: ·) := by
  have hdrain : lexer.drain = (Stream.scan lexer.offset lexer.rest).toExcept := by
    rw [drain, h]
  cases hrest : (splitGap false lexer.rest).2 with
  | nil =>
    have hall := splitGap_append false lexer.rest
    rw [hrest, List.append_nil] at hall
    rw [hdrain, Stream.scan_nil hrest, next_of_gap h hrest, hall]
    rfl
  | cons c cs =>
    have hkind := (Piece.stands_lexeme (hrest ▸ gap_splitGap lexer.rest) lexer.offset).kind
    rw [hdrain, Stream.scan_lexeme lexer.offset hrest, next_of_lexeme h hrest]
    cases hlexeme : Token.ofLexeme (lexer.offset + byteLength (splitGap false lexer.rest).1)
      (lexeme c cs) with
    | error e => rfl
    | ok t =>
      dsimp only
      rw [if_neg (hkind t hlexeme), drain, Nat.add_assoc]
      simp only [skip, h]
      rw [Stream.toExcept, Stream.toExcept, Stream.prepend]
      cases (Stream.scan (lexer.offset + (byteLength (splitGap false lexer.rest).1 +
        byteLength (lexeme c cs).slice)) (lexeme c cs).rest).fault <;> rfl

/-- What `drain` gives, by what `next` answers: the tokens up to and including the end of
the file, or the first unreadable spot. -/
structure Drains (lexer : Lexer) (tokens : List Token) (last : Answer)
    (result : Except LexicalError (List Token)) : Prop where
  before : ∀ t ∈ tokens, t.kind ≠ .endOfFile
  answers : lexer.answers (tokens.length + 1) = tokens.map .ok ++ [last]
  result : (∃ e, last = .error e ∧ result = .error e) ∨
    ∃ t, last = .ok t ∧ t.kind = .endOfFile ∧ result = .ok (tokens ++ [t])

/-- Reading on to the end always comes to an end. -/
theorem exists_drains (lexer : Lexer) (h : lexer.peeked = none) :
    ∃ tokens last, lexer.Drains tokens last lexer.drain := by
  have hnone : ∀ t ∈ ([] : List Token), t.kind ≠ .endOfFile :=
    fun _ ht => absurd ht List.not_mem_nil
  have hdrain := drain_eq h
  rcases next_cases h with ⟨-, hnext⟩ | ⟨p, rest, hrest, hstands, hnext⟩
  · rw [hnext] at hdrain
    exact ⟨[], _, hnone, by rw [List.length_nil, answers, hnext]; rfl,
      .inr ⟨_, rfl, rfl, hdrain⟩⟩
  · rw [hnext] at hdrain
    cases hanswer : p.answer with
    | error e =>
      rw [hanswer] at hdrain hnext
      exact ⟨[], _, hnone, by rw [List.length_nil, answers, hnext]; rfl,
        .inl ⟨e, rfl, hdrain⟩⟩
    | ok t =>
      rw [hanswer] at hdrain hnext
      have hkind := hstands.kind t hanswer
      dsimp only at hdrain
      rw [if_neg hkind] at hdrain
      have hlt : rest.length < lexer.rest.length := by
        have hpos := List.length_pos_iff.mpr hstands.slice
        rw [hrest, List.length_append, List.length_append]
        omega
      obtain ⟨tokens, last, hbefore, hanswers, hresult⟩ :=
        exists_drains (lexer.skip rest (byteLength p.gap + byteLength p.slice)) h
      refine ⟨t :: tokens, last, List.forall_mem_cons.mpr ⟨hkind, hbefore⟩, ?_, ?_⟩
      · rw [List.length_cons, Lexer.answers, hnext, hanswers]
        rfl
      · rcases hresult with ⟨e, hlast, hresult⟩ | ⟨final, hlast, hfinal, hresult⟩
        · exact .inl ⟨e, hlast, by rw [hdrain, hresult]; rfl⟩
        · exact .inr ⟨final, hlast, hfinal, by rw [hdrain, hresult]; rfl⟩
termination_by lexer.rest.length

/-! ## Looking ahead -/

/-- A reader that is `plain`, or `plain` after a look at its next token. -/
inductive Ahead (plain : Lexer) : Lexer → Prop
  | same : Ahead plain plain
  | looked {t : Token} {after : Lexer} :
    plain.next = (.ok t, after) → Ahead plain { after with peeked := some t }

section Ahead

variable {plain lexer after : Lexer} {t : Token} {e : LexicalError}

/-- A token that was looked at is the one that is taken. -/
theorem Ahead.next_eq (h : Ahead plain lexer) : lexer.next = plain.next := by
  cases h with
  | same => rfl
  | @looked t after hnext =>
    have hpeeked := plain.next_peeked
    rw [hnext] at hpeeked ⊢
    rw [next]
    exact congrArg (Prod.mk _) (by rw [← hpeeked])

/-- A token that was looked at is read with the others, in its place. -/
theorem Ahead.drain_eq (h : Ahead plain lexer) (hplain : plain.peeked = none) :
    lexer.drain = plain.drain := by
  cases h with
  | same => rfl
  | @looked t after hnext =>
    have hpeeked := plain.next_peeked
    rw [hnext] at hpeeked
    have hafter : after.drain = (Stream.scan after.offset after.rest).toExcept := by
      rw [drain, hpeeked]
    rw [Lexer.drain_eq hplain, hnext]
    dsimp only
    rw [hafter]
    rfl

/-- A look at a token, once more or for the first time. -/
theorem Ahead.peek_of_ok (h : Ahead plain lexer) (hplain : plain.peeked = none)
    (hnext : plain.next = (.ok t, after)) :
    lexer.peek = (.ok t, { after with peeked := some t }) := by
  cases h with
  | same =>
    rw [next_eq_read hplain] at hnext
    simp only [peek, hplain, hnext]
  | @looked t' after' hnext' =>
    obtain ⟨ht, rfl⟩ := Prod.mk.inj (hnext'.symm.trans hnext)
    cases ht
    rfl

/-- A look that comes upon an unreadable spot passes over it. -/
theorem Ahead.peek_of_error (h : Ahead plain lexer) (hplain : plain.peeked = none)
    (hnext : plain.next = (.error e, after)) : lexer.peek = (.error e, after) := by
  cases h with
  | same =>
    rw [next_eq_read hplain] at hnext
    simp only [peek, hplain, hnext]
  | looked hnext' => cases (Prod.mk.inj (hnext'.symm.trans hnext)).1

/-- What calls use up is what a plain reader answers, and they leave it that far on. -/
theorem Ahead.taken_eq (h : Ahead plain lexer) (hplain : plain.peeked = none) (calls : List Call) :
    lexer.taken calls = plain.answers (lexer.taken calls).length ∧
      Ahead (plain.afterNexts (lexer.taken calls).length) (lexer.afterCalls calls) := by
  induction calls generalizing plain lexer with
  | nil => exact ⟨rfl, h⟩
  | cons c calls ih =>
    cases c with
    | next =>
      have hcall : lexer.call .next = plain.next := h.next_eq
      obtain ⟨htaken, hafter⟩ := ih (.same : Ahead plain.next.2 _) plain.next_peeked
      rw [taken, afterCalls, hcall]
      exact ⟨congrArg (plain.next.1 :: ·) htaken, hafter⟩
    | peek =>
      cases hnext : plain.next with
      | mk answer after =>
        cases answer with
        | ok t =>
          have hcall : lexer.call .peek = _ := h.peek_of_ok hplain hnext
          rw [taken, afterCalls, hcall]
          exact ih (.looked hnext) hplain
        | error e =>
          have hcall : lexer.call .peek = _ := h.peek_of_error hplain hnext
          have hpeeked := plain.next_peeked
          rw [hnext] at hpeeked
          obtain ⟨htaken, hafter⟩ := ih (.same : Ahead after _) hpeeked
          rw [taken, afterCalls, hcall]
          refine ⟨?_, ?_⟩
          · show .error e :: after.taken calls = plain.answers ((after.taken calls).length + 1)
            rw [answers, hnext]
            exact congrArg (.error e :: ·) htaken
          · show Ahead (plain.afterNexts ((after.taken calls).length + 1)) _
            rw [afterNexts, hnext]
            exact hafter

/-- A token can be looked at as often as one likes. -/
theorem Ahead.peek_again (h : Ahead plain lexer) (hplain : plain.peeked = none)
    (hpeek : lexer.peek.1 = .ok t) (n : Nat) :
    lexer.taken (List.replicate n .peek) = [] ∧
      (lexer.afterCalls (List.replicate n .peek)).peek.1 = .ok t := by
  cases hnext : plain.next with
  | mk answer after =>
    cases answer with
    | error e =>
      rw [h.peek_of_error hplain hnext] at hpeek
      cases hpeek
    | ok t' =>
      induction n generalizing lexer with
      | zero => exact ⟨rfl, hpeek⟩
      | succ n ih =>
        have hcall : lexer.call .peek = _ := h.peek_of_ok hplain hnext
        have hagain : Ahead plain { after with peeked := some t' } := .looked hnext
        have hsame : ({ after with peeked := some t' } : Lexer).peek.1 = .ok t := by
          rw [hagain.peek_of_ok hplain hnext]
          rw [h.peek_of_ok hplain hnext] at hpeek
          exact hpeek
        rw [List.replicate_succ, taken, afterCalls, hcall]
        exact ih hagain hsame

end Ahead

/-- Looking ahead is transparent. A fresh reader that is asked for tokens only comes to the end
of the file and then answers with that for ever. Whatever calls are made of a fresh reader, the
answers to `next` and the unreadable spots that looks came upon are, in order, the first of
these answers. A token that is looked at after them is the next one; it is the same at every
further look, and no look uses anything up. To take all tokens from there gives the answers that
come next, up to and including the end of the file, or the first unreadable spot among them. -/
theorem peeks_transparent (source : String) (calls : List Call) :
    let fresh := ofSource source
    let taken := fresh.taken calls
    let lexer := fresh.afterCalls calls
    (∃ m final, final.kind = .endOfFile ∧
      ∀ n, fresh.answers (m + n) = fresh.answers m ++ List.replicate n (.ok final)) ∧
    taken = fresh.answers taken.length ∧
    (∀ t, lexer.peek.1 = .ok t →
      fresh.answers (taken.length + 1) = taken ++ [.ok t] ∧
      ∀ n, fresh.taken (calls ++ List.replicate n .peek) = taken ∧
        (fresh.afterCalls (calls ++ List.replicate n .peek)).peek.1 = .ok t) ∧
    ∃ tokens last, (∀ t ∈ tokens, t.kind ≠ .endOfFile) ∧
      fresh.answers (taken.length + (tokens.length + 1)) = taken ++ (tokens.map .ok ++ [last]) ∧
      ((∃ e, last = .error e ∧ lexer.drain = .error e) ∨
        ∃ t, last = .ok t ∧ t.kind = .endOfFile ∧ lexer.drain = .ok (tokens ++ [t])) := by
  intro fresh taken lexer
  obtain ⟨htaken, hahead⟩ := (Ahead.same : Ahead fresh _).taken_eq rfl calls
  have hplain : (fresh.afterNexts taken.length).peeked = none := afterNexts_peeked rfl _
  refine ⟨fresh.answers_ending rfl, htaken, fun t hpeek => ⟨?_, fun n => ?_⟩, ?_⟩
  · cases hnext : (fresh.afterNexts taken.length).next with
    | mk answer after =>
      have hsame : answer = .ok t := by
        cases answer with
        | ok t' => rwa [show lexer.peek = _ from hahead.peek_of_ok hplain hnext] at hpeek
        | error e => rwa [show lexer.peek = _ from hahead.peek_of_error hplain hnext] at hpeek
      rw [answers_add, answers, hnext, hsame, ← htaken]
      rfl
  · obtain ⟨hnothing, hagain⟩ := hahead.peek_again hplain hpeek n
    rw [taken_append, afterCalls_append, hnothing, List.append_nil]
    exact ⟨rfl, hagain⟩
  · obtain ⟨tokens, last, hbefore, hanswers, hresult⟩ := exists_drains _ hplain
    rw [← hahead.drain_eq hplain] at hresult
    refine ⟨tokens, last, hbefore, ?_, hresult⟩
    rw [answers_add, hanswers, ← htaken]

end Decaf.Lexer
