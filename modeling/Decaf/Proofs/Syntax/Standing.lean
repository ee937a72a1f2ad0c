import Decaf.Proofs.Syntax.Descent

/-!
# Cursors along the tokens of a text

A cursor that has taken some of the tokens of a text stands in front of the others (`Stands`):
its current token is the first of them or the end of the file, and its reader is one token
further on, perhaps with a look at the next one. To advance a cursor is what `Reading.reach`
stands for: the token behind the current one is asked for, and if there is an unreadable spot
in its place, that is the end of it.

A reading follows another one of the same tokens (`Follows`) if it complains about the same
or gives the same and leaves the cursor in front of what is left. Readings that are put together
from such readings follow one another as well (`Follows.bind`).
-/

namespace Decaf

namespace Lexer

/-! ## The tokens of a reader -/

/-- The tokens that a reader has still to read. -/
def stream (lexer : Lexer) : Stream :=
  .scan lexer.offset lexer.rest

/-- What a reader answers, by the tokens it has still to read: the first of them, or the unreadable
spot behind them, or the end of the file, which is not used up. -/
theorem next_stream {lexer : Lexer} (h : lexer.peeked = none) :
    (∃ t after, lexer.next = (.ok t, after) ∧ lexer.stream = after.stream.prepend t) ∨
    (∃ e after, lexer.next = (.error e, after) ∧ lexer.stream.tokens = [] ∧
      lexer.stream.fault = some e) ∨
    ∃ after, lexer.next = (.ok lexer.stream.ending, after) ∧ lexer.stream.tokens = [] ∧
      lexer.stream.fault = none ∧ after.stream = lexer.stream := by
  unfold stream
  cases hrest : (Scan.splitGap false lexer.rest).2 with
  | nil =>
    have hall := Scan.splitGap_append false lexer.rest
    rw [hrest, List.append_nil] at hall
    have hscan : Stream.scan lexer.offset lexer.rest = _ := Stream.scan_nil hrest
    rw [hall] at hscan
    rw [hscan]
    exact .inr (.inr ⟨_, next_of_gap h hrest, rfl, rfl, Stream.scan_nil rfl⟩)
  | cons c cs =>
    have hnext := next_of_lexeme h hrest
    rw [Stream.scan_lexeme lexer.offset hrest]
    cases hlexeme : Token.ofLexeme (lexer.offset + byteLength (Scan.splitGap false lexer.rest).1)
      (Scan.lexeme c cs) with
    | error e =>
      rw [hlexeme] at hnext
      exact .inr (.inl ⟨e, _, hnext, rfl, rfl⟩)
    | ok t =>
      rw [hlexeme] at hnext
      refine .inl ⟨t, _, hnext, ?_⟩
      show _ = (Stream.scan (lexer.offset + (_ + _)) _).prepend t
      rw [← Nat.add_assoc]
      rfl

/-- A reader that has nothing to read gives the end of the file, and has nothing to read. -/
theorem next_ending {lexer : Lexer} (h : lexer.peeked = none) (hnil : lexer.stream.tokens = [])
    (hfault : lexer.stream.fault = none) :
    ∃ after, lexer.next = (.ok lexer.stream.ending, after) ∧ after.stream = lexer.stream := by
  rcases next_stream h with ⟨t, after, -, heq⟩ | ⟨e, after, -, -, he⟩ | ⟨after, hnext, -, -, hafter⟩
  · rw [heq] at hnil
    cases hnil
  · rw [hfault] at he
    cases he
  · exact ⟨after, hnext, hafter⟩

theorem afterNexts_succ (lexer : Lexer) (n : Nat) :
    lexer.afterNexts (n + 1) = (lexer.afterNexts n).next.2 := by
  induction n generalizing lexer with
  | zero => rfl
  | succ n ih => exact ih lexer.next.2

/-- A reader that has given some of its tokens has still to read the others. -/
theorem afterNexts_stream {lexer : Lexer} (h : lexer.peeked = none) {taken rest : List Token}
    (hstream : lexer.stream.tokens = taken ++ rest) :
    (lexer.afterNexts taken.length).stream = ⟨rest, lexer.stream.size, lexer.stream.fault⟩ := by
  induction taken generalizing lexer with
  | nil =>
    show lexer.stream = _
    rw [← show lexer.stream.tokens = rest from hstream]
  | cons t taken ih =>
    -- There is a first token, so the answer is neither a complaint nor the end of the file.
    rcases next_stream h with ⟨t', after, hnext, heq⟩ | ⟨e, after, -, hnil, -⟩ | ⟨after, -, hnil, -⟩
    · have hafter : after.stream.tokens = taken ++ rest := by
        rw [heq] at hstream
        exact (List.cons.inj hstream).2
      have hpeeked := lexer.next_peeked
      rw [hnext] at hpeeked
      rw [List.length_cons, afterNexts, hnext, ih hpeeked hafter, heq]
      rfl
    · rw [hstream] at hnil
      cases hnil
    · rw [hstream] at hnil
      cases hnil

end Lexer

theorem Stream.scan_ne_endOfFile (offset : Nat) (text : List Char) :
    ∀ t ∈ (Stream.scan offset text).tokens, t.kind ≠ .endOfFile := by
  intro t ht hkind
  have hspelled := Stream.scan_wellSpelled offset text t ht
  rw [hkind] at hspelled
  exact hspelled

theorem withoutEnd_singleton {t : Token} (h : t.kind ≠ .endOfFile) : withoutEnd [t] = [t] :=
  List.filter_eq_self.mpr (List.forall_mem_singleton.mpr (decide_eq_true h))

/-- A look ahead does not change what is unread. -/
theorem Lexer.Ahead.unread_eq {plain lexer : Lexer} (h : plain.Ahead lexer)
    (hplain : plain.peeked = none) : lexer.unread = plain.stream.tokens := by
  cases h with
  | same =>
    rw [Lexer.unread, hplain]
    rfl
  | @looked t after hnext =>
    rw [Lexer.unread]
    rcases Lexer.next_stream hplain with ⟨t', after', hnext', heq⟩ | ⟨e, after', hnext', -, -⟩ |
      ⟨after', hnext', -, -, heq⟩
    · cases hnext.symm.trans hnext'
      have hkind : t.kind ≠ .endOfFile := by
        refine Stream.scan_ne_endOfFile plain.offset plain.rest t ?_
        rw [show Stream.scan plain.offset plain.rest = _ from heq]
        exact List.mem_cons_self
      rw [Option.toList_some, withoutEnd_singleton hkind, heq]
      rfl
    · cases hnext.symm.trans hnext'
    · cases hnext.symm.trans hnext'
      rw [← heq]
      rfl

theorem Lexer.Ahead.eq_of_peeked {plain lexer : Lexer} (h : plain.Ahead lexer)
    (hlexer : lexer.peeked = none) : lexer = plain := by
  cases h with
  | same => rfl
  | looked hnext => cases hlexer

/-! ## Cursors -/

theorem Attempt.outcome_bind {α β : Type} (y : Except ParseError α)
    (g : α → Except ParseError β) :
    Attempt.outcome (y >>= g) = Attempt.outcome y >>= fun a => Attempt.outcome (g a) := by
  cases y <;> rfl

theorem Attempt.outcome_ok_inj {α : Type} {a b : α}
    (h : Attempt.outcome (.ok a) = Attempt.outcome (.ok b)) : a = b := by
  cases h
  rfl

theorem Reading.current_cons (r : Reading) (t : Token) (rest : List Token) :
    r.current (t :: rest) = t := rfl

namespace Descent

variable {source : String} {tokens rest : List Token} {t : Token} {c : Cursor}

/-- A cursor stands in front of `tokens`, the others of the tokens of a text. -/
structure Stands (source : String) (tokens : List Token) (c : Cursor) : Prop where
  taken : c.taken ++ tokens = (Stream.ofSource source).tokens
  current : c.current = (Reading.ofSource source).current tokens
  /-- The reader is one token further on. -/
  lexer : ((Lexer.ofSource source).afterNexts (c.taken.length + 1)).Ahead c.lexer
  /-- The text can be read up to there. -/
  reached : (Reading.ofSource source).reach tokens = .ok ()

/-- What a reader has still to read that has given some tokens of a text. -/
theorem stream_afterNexts {taken : List Token}
    (h : taken ++ rest = (Stream.ofSource source).tokens) :
    ((Lexer.ofSource source).afterNexts taken.length).stream =
      ⟨rest, (Stream.ofSource source).size, (Stream.ofSource source).fault⟩ := by
  have hplain : (Lexer.ofSource source).peeked = none := rfl
  exact Lexer.afterNexts_stream hplain h.symm

theorem plain_afterNexts (n : Nat) : ((Lexer.ofSource source).afterNexts n).peeked = none :=
  Lexer.afterNexts_peeked rfl n

/-- The answer of a reader that has given some tokens of a text, by the tokens that are left. -/
theorem answer_cases {taken : List Token} (h : taken ++ rest = (Stream.ofSource source).tokens) :
    ((Reading.ofSource source).reach rest = .ok () ∧
      ((Lexer.ofSource source).afterNexts taken.length).next =
        (.ok ((Reading.ofSource source).current rest),
          (Lexer.ofSource source).afterNexts (taken.length + 1))) ∨
    ∃ e, (Reading.ofSource source).reach rest = .error (.unreadable e) ∧
      ((Lexer.ofSource source).afterNexts taken.length).next =
        (.error e, (Lexer.ofSource source).afterNexts (taken.length + 1)) := by
  have hstream := stream_afterNexts h
  rw [Lexer.afterNexts_succ]
  rcases Lexer.next_stream (plain_afterNexts taken.length) with ⟨t, after, hnext, heq⟩ |
    ⟨e, after, hnext, hnil, hfault⟩ | ⟨after, hnext, hnil, hfault, -⟩
  · rw [hstream] at heq
    have hrest : rest = t :: after.stream.tokens := congrArg Stream.tokens heq
    rw [hnext, hrest]
    exact .inl ⟨rfl, rfl⟩
  · rw [hstream] at hnil hfault
    have hrest : rest = [] := hnil
    have hfault : (Reading.ofSource source).fault = some e := hfault
    rw [hnext, hrest]
    exact .inr ⟨e, by simp only [Reading.reach, hfault], rfl⟩
  · rw [hstream] at hnil hfault hnext
    have hrest : rest = [] := hnil
    have hfault : (Reading.ofSource source).fault = none := hfault
    rw [hnext, hrest]
    exact .inl ⟨by simp only [Reading.reach, hfault], rfl⟩

/-- A cursor at the first token of a text stands in front of all tokens. -/
theorem start_cases (source : String) :
    ((Reading.ofSource source).reach (Stream.ofSource source).tokens = .ok () ∧
      ∃ c, start source = Attempt.outcome (.ok c) ∧
        Stands source (Stream.ofSource source).tokens c ∧ c.lexer.peeked = none) ∨
    ∃ e, (Reading.ofSource source).reach (Stream.ofSource source).tokens = .error e ∧
      start source = Attempt.outcome (.error e) := by
  have hall : [] ++ (Stream.ofSource source).tokens = (Stream.ofSource source).tokens := rfl
  rcases answer_cases hall with ⟨hreach, hnext⟩ | ⟨e, hreach, hnext⟩
  · have hstart : (Lexer.ofSource source).next = _ := hnext
    refine .inl ⟨hreach, ⟨_, _, []⟩, ?_, ⟨rfl, rfl, .same, hreach⟩, plain_afterNexts 1⟩
    rw [start, hstart]
    rfl
  · have hstart : (Lexer.ofSource source).next = _ := hnext
    refine .inr ⟨_, hreach, ?_⟩
    rw [start, hstart]
    rfl

namespace Stands

/-- The reader of a cursor has one token less before it. -/
theorem taken_cons (h : Stands source (t :: rest) c) :
    (c.taken ++ [t]) ++ rest = (Stream.ofSource source).tokens := by
  rw [List.append_assoc]
  exact h.taken

theorem next_cases (h : Stands source (t :: rest) c) :
    ((Reading.ofSource source).reach rest = .ok () ∧
      ((Lexer.ofSource source).afterNexts (c.taken.length + 1)).next =
        (.ok ((Reading.ofSource source).current rest),
          (Lexer.ofSource source).afterNexts ((c.taken ++ [t]).length + 1))) ∨
    ∃ e, (Reading.ofSource source).reach rest = .error (.unreadable e) ∧
      ((Lexer.ofSource source).afterNexts (c.taken.length + 1)).next =
        (.error e, (Lexer.ofSource source).afterNexts ((c.taken ++ [t]).length + 1)) := by
  have hlength : (c.taken ++ [t]).length = c.taken.length + 1 := List.length_append
  have hcases := answer_cases h.taken_cons
  rw [hlength] at hcases ⊢
  exact hcases

/-- The current token is taken, unless the text is unreadable behind it. -/
theorem advance_cases (h : Stands source (t :: rest) c) :
    ((Reading.ofSource source).reach rest = .ok () ∧
      ∃ c', advance c = Attempt.outcome (.ok (t, c')) ∧ Stands source rest c' ∧
        c'.lexer.peeked = none) ∨
    ∃ e, (Reading.ofSource source).reach rest = .error e ∧
      advance c = Attempt.outcome (.error e) := by
  have hcurrent : c.current = t := h.current
  rcases h.next_cases with ⟨hreach, hnext⟩ | ⟨e, hreach, hnext⟩
  · rw [← h.lexer.next_eq] at hnext
    refine .inl ⟨hreach, ⟨(Lexer.ofSource source).afterNexts ((c.taken ++ [t]).length + 1), _,
      c.taken ++ [t]⟩, ?_, ⟨h.taken_cons, rfl, .same, hreach⟩, plain_afterNexts _⟩
    rw [advance, hnext, hcurrent]
    rfl
  · rw [← h.lexer.next_eq] at hnext
    refine .inr ⟨_, hreach, ?_⟩
    rw [advance, hnext]
    rfl

/-- A reader that has given the end of the file has still nothing to read. -/
theorem stream_end (h : Stands source [] c) :
    ((Lexer.ofSource source).afterNexts (c.taken.length + 1)).stream =
      ⟨[], (Stream.ofSource source).size, none⟩ := by
  have hfault : (Stream.ofSource source).fault = none := by
    have hreached := h.reached
    unfold Reading.reach at hreached
    cases hfault : (Reading.ofSource source).fault with
    | none => exact hfault
    | some e =>
      rw [hfault] at hreached
      cases hreached
  have hstream := stream_afterNexts h.taken
  rw [hfault] at hstream
  obtain ⟨after, hnext, hafter⟩ := Lexer.next_ending (plain_afterNexts c.taken.length)
    (by rw [hstream]) (by rw [hstream])
  rw [Lexer.afterNexts_succ, hnext, hafter, hstream]

/-- Behind the end of the file there is the end of the file. -/
theorem advance_end (h : Stands source [] c) :
    ∃ c', advance c = Attempt.outcome (.ok ((Reading.ofSource source).ending, c')) := by
  have hcurrent : c.current = (Reading.ofSource source).ending := h.current
  obtain ⟨after, hnext, -⟩ := Lexer.next_ending (plain_afterNexts (c.taken.length + 1))
    (by rw [h.stream_end]) (by rw [h.stream_end])
  rw [← h.lexer.next_eq] at hnext
  rw [advance, hnext, hcurrent]
  exact ⟨_, rfl⟩

/-- Only the reader of a cursor may have looked ahead. -/
theorem withLexer (h : Stands source tokens c) {lexer : Lexer}
    (hlexer : ((Lexer.ofSource source).afterNexts (c.taken.length + 1)).Ahead lexer) :
    Stands source tokens ⟨lexer, c.current, c.taken⟩ :=
  ⟨h.taken, h.current, hlexer, h.reached⟩

/-- A look at the token behind the current one moves nothing. -/
theorem look_cases (h : Stands source (t :: rest) c) :
    ((Reading.ofSource source).reach rest = .ok () ∧
      ∃ c', look c = Attempt.outcome (.ok ((Reading.ofSource source).current rest, c')) ∧
        Stands source (t :: rest) c') ∨
    ∃ e, (Reading.ofSource source).reach rest = .error e ∧
      look c = Attempt.outcome (.error e) := by
  rcases h.next_cases with ⟨hreach, hnext⟩ | ⟨e, hreach, hnext⟩
  · refine .inl ⟨hreach, _, ?_, h.withLexer (.looked hnext)⟩
    rw [look, h.lexer.peek_of_ok (plain_afterNexts _) hnext]
    rfl
  · refine .inr ⟨_, hreach, ?_⟩
    rw [look, h.lexer.peek_of_error (plain_afterNexts _) hnext]
    rfl

theorem look_end (h : Stands source [] c) :
    ∃ c', look c = Attempt.outcome (.ok ((Reading.ofSource source).ending, c')) ∧
      Stands source [] c' := by
  obtain ⟨after, hnext, -⟩ := Lexer.next_ending (plain_afterNexts (c.taken.length + 1))
    (by rw [h.stream_end]) (by rw [h.stream_end])
  refine ⟨_, ?_, h.withLexer (.looked hnext)⟩
  rw [look, h.lexer.peek_of_ok (plain_afterNexts _) hnext, h.stream_end]
  rfl

/-- The end of the file is not among the tokens of a text. -/
theorem ne_endOfFile (h : Stands source tokens c) : ∀ t ∈ tokens, t.kind ≠ .endOfFile := by
  intro t ht
  refine Stream.scan_ne_endOfFile 0 source.toList t ?_
  rw [show Stream.scan 0 source.toList = Stream.ofSource source from rfl, ← h.taken]
  exact List.mem_append_right _ ht

/-- What a cursor has not yet taken. -/
theorem unread_eq (h : Stands source tokens c) : c.unread = tokens := by
  rw [Cursor.unread, h.lexer.unread_eq (plain_afterNexts _), h.current]
  cases tokens with
  | nil =>
    rw [h.stream_end]
    rfl
  | cons t rest =>
    have hlength : (c.taken ++ [t]).length = c.taken.length + 1 := List.length_append
    rw [← hlength, stream_afterNexts h.taken_cons]
    exact congrArg (· ++ rest) (withoutEnd_singleton (h.ne_endOfFile t List.mem_cons_self))

/-- Where a cursor stands without a look ahead is all there is to know about it. -/
theorem unique (h : Stands source tokens c) {c' : Cursor} (h' : Stands source tokens c')
    (hc : c.lexer.peeked = none) (hc' : c'.lexer.peeked = none) : c = c' := by
  have htaken : c.taken = c'.taken := List.append_cancel_right (h.taken.trans h'.taken.symm)
  have hlexer : c.lexer = c'.lexer := by
    rw [h.lexer.eq_of_peeked hc, h'.lexer.eq_of_peeked hc', htaken]
  have hcurrent : c.current = c'.current := h.current.trans h'.current.symm
  cases c
  cases c'
  cases htaken
  cases hlexer
  cases hcurrent
  rfl

/-- Between two cursors there are tokens. -/
theorem between (h : Stands source tokens c) {c' : Cursor} (h' : Stands source rest c')
    (hle : rest.length ≤ tokens.length) :
    ∃ used, c'.taken = c.taken ++ used ∧ tokens = used ++ rest := by
  rcases List.append_eq_append_iff.mp (h.taken.trans h'.taken.symm) with
    ⟨used, htaken, htokens⟩ | ⟨used, htaken, hrest⟩
  · exact ⟨used, htaken, htokens⟩
  · have hnil : used = [] := by
      rw [hrest, List.length_append] at hle
      exact List.length_eq_zero_iff.mp (by omega)
    rw [hnil] at htaken hrest
    exact ⟨[], by rw [htaken, List.append_nil, List.append_nil], hrest.symm⟩

/-- A cursor that was moved and stands further on was moved there without a look ahead. -/
theorem plain_of_moved (h : Stands source tokens c) {c' : Cursor} (h' : Stands source rest c')
    (hlt : rest.length < tokens.length) (hmoved : c' = c ∨ c'.lexer.peeked = none) :
    c'.lexer.peeked = none := by
  refine hmoved.resolve_left ?_
  -- A cursor stands in front of one list of tokens only.
  rintro rfl
  have hsame : rest = tokens := List.append_cancel_left (h'.taken.trans h.taken.symm)
  rw [hsame] at hlt
  exact Nat.lt_irrefl _ hlt

end Stands

/-! ## Following a reading -/

/-- A reading that moves a cursor follows one that takes tokens from a list: it complains about
the same, or gives the same and leaves the cursor in front of the tokens that are left, and there
without a look ahead if it moved it at all. -/
inductive Follows (source : String) (c : Cursor) {α : Type} {n : Nat} :
    Attempt (α × Cursor) → Attempt (Parsed α n) → Prop
  | stuck {x : Attempt (α × Cursor)} : Follows source c x none
  | error {e : ParseError} : Follows source c (some (.error e)) (some (.error e))
  | ok {v : α} {rest : List Token} {h : rest.length < n} {c' : Cursor} : Stands source rest c' →
    c' = c ∨ c'.lexer.peeked = none →
    Follows source c (some (.ok (v, c'))) (some (.ok ⟨v, rest, h⟩))

namespace Follows

variable {α β : Type} {m n : Nat}

/-- What was done before need not be looked at, if it left no look ahead. -/
theorem after {c' : Cursor} {x : Attempt (α × Cursor)} {y : Attempt (Parsed α n)}
    (hc : c' = c ∨ c'.lexer.peeked = none) (h : Follows source c' x y) : Follows source c x y := by
  cases h with
  | stuck => exact .stuck
  | error => exact .error
  | ok hs hmoved =>
    refine .ok hs ?_
    rcases hmoved with rfl | hplain
    · exact hc
    · exact .inr hplain

/-- A reading that takes a token leaves no look ahead. -/
theorem moved {c' : Cursor} {x : Attempt (α × Cursor)} {y : Attempt (Parsed α tokens.length)}
    (hc : Stands source tokens c) (h : Follows source c x y) : Follows source c' x y := by
  cases h with
  | stuck => exact .stuck
  | error => exact .error
  | @ok v rest hlt c₁ hs hmoved => exact .ok hs (.inr (hc.plain_of_moved hs hlt hmoved))

/-- Readings one after the other. -/
theorem bind {x : Stepping α} {f : α → Stepping β} {y : Attempt (Parsed α m)}
    {g : Parsed α m → Attempt (Parsed β n)} (h : Follows source c (x c) y)
    (hfg : ∀ v rest hrest c', Stands source rest c' →
      Follows source c' (f v c') (g ⟨v, rest, hrest⟩)) :
    Follows source c ((x >>= f) c) (y >>= g) := by
  show Follows source c (x c >>= fun p => f p.1 p.2) _
  generalize x c = z at h
  cases h with
  | stuck => exact .stuck
  | error => exact .error
  | ok hs hmoved => exact .after hmoved (hfg _ _ _ _ hs)

/-- Readings one after the other, of which those that take tokens from a list are never stuck. -/
theorem seq {x : Stepping α} {f : α → Stepping β} {y : Except ParseError (Parsed α m)}
    {g : Parsed α m → Except ParseError (Parsed β n)}
    (h : Follows source c (x c) (Attempt.outcome y))
    (hfg : ∀ v rest hrest c', Stands source rest c' →
      Follows source c' (f v c') (Attempt.outcome (g ⟨v, rest, hrest⟩))) :
    Follows source c ((x >>= f) c) (Attempt.outcome (y >>= g)) := by
  rw [Attempt.outcome_bind]
  exact h.bind hfg

/-- The last of several readings. -/
theorem bindLast {x : Attempt (α × Cursor)} {y : Attempt (Parsed α m)}
    {g : Parsed α m → Attempt (Parsed α n)} (h : Follows source c x y)
    (hg : ∀ v rest hrest, ∃ hrest', g ⟨v, rest, hrest⟩ = Attempt.outcome (.ok ⟨v, rest, hrest'⟩)) :
    Follows source c x (y >>= g) := by
  cases h with
  | stuck => exact .stuck
  | error => exact .error
  | @ok v rest hrest c' hs hmoved =>
    obtain ⟨hrest', hg⟩ := hg v rest hrest
    show Follows source c _ (g ⟨v, rest, hrest⟩)
    rw [hg]
    exact .ok hs hmoved

theorem last {x : Attempt (α × Cursor)} {y : Except ParseError (Parsed α m)}
    {g : Parsed α m → Except ParseError (Parsed α n)} (h : Follows source c x (Attempt.outcome y))
    (hg : ∀ v rest hrest, ∃ hrest', g ⟨v, rest, hrest⟩ = .ok ⟨v, rest, hrest'⟩) :
    Follows source c x (Attempt.outcome (y >>= g)) := by
  rw [Attempt.outcome_bind]
  refine h.bindLast fun v rest hrest => ?_
  obtain ⟨hrest', hg⟩ := hg v rest hrest
  exact ⟨hrest', congrArg Attempt.outcome hg⟩

theorem pure {v : α} (hc : Stands source rest c) {h : rest.length < n} :
    Follows source c ((pure v : Stepping α) c) (Attempt.outcome (.ok ⟨v, rest, h⟩)) :=
  .ok hc (.inl rfl)

theorem ite {p : Prop} [Decidable p] {x x' : Stepping α} {y y' : Except ParseError (Parsed α n)}
    (ht : p → Follows source c (x c) (Attempt.outcome y))
    (he : ¬ p → Follows source c (x' c) (Attempt.outcome y')) :
    Follows source c ((if p then x else x') c) (Attempt.outcome (if p then y else y')) := by
  by_cases hp : p
  · rw [if_pos hp, if_pos hp]
    exact ht hp
  · rw [if_neg hp, if_neg hp]
    exact he hp

/-- To take a token is to reach what is behind it. -/
theorem bindAdvance {f : Token → Stepping α} {y : Attempt (Parsed α n)}
    (hc : Stands source (t :: rest) c)
    (hf : ∀ c', Stands source rest c' → Follows source c' (f t c') y) :
    Follows source c ((Descent.advance >>= f) c)
      (Attempt.outcome ((Reading.ofSource source).reach rest) >>= fun _ => y) := by
  show Follows source c (Descent.advance c >>= fun p => f p.1 p.2) _
  rcases hc.advance_cases with ⟨hreach, c', hadvance, hs, hplain⟩ | ⟨e, hreach, hadvance⟩
  · rw [hadvance, hreach]
    exact .after (.inr hplain) (hf c' hs)
  · rw [hadvance, hreach]
    exact .error

theorem advance {f : Token → Stepping α} {y : Except ParseError (Parsed α n)}
    (hc : Stands source (t :: rest) c)
    (hf : ∀ c', Stands source rest c' → Follows source c' (f t c') (Attempt.outcome y)) :
    Follows source c ((Descent.advance >>= f) c)
      (Attempt.outcome ((Reading.ofSource source).reach rest >>= fun _ => y)) := by
  rw [Attempt.outcome_bind]
  exact .bindAdvance hc hf

/-- An operation that is not defined for what it is given leaves both readings stuck. -/
theorem need {o : Option β} {f : β → Stepping α} {g : β → Attempt (Parsed α n)}
    (hfg : ∀ b, Follows source c (f b c) (g b)) :
    Follows source c (((liftM (Attempt.need o) : Stepping β) >>= f) c) (Attempt.need o >>= g) := by
  cases o with
  | none => exact .stuck
  | some b => exact hfg b

/-- To look at the token behind the current one is to reach it. -/
theorem look {f : Token → Stepping α}
    {y : Except ParseError (Parsed α (t :: rest).length)} (hc : Stands source (t :: rest) c)
    (hf : ∀ c', Stands source (t :: rest) c' →
      Follows source c' (f ((Reading.ofSource source).current rest) c') (Attempt.outcome y)) :
    Follows source c ((Descent.look >>= f) c)
      (Attempt.outcome ((Reading.ofSource source).reach rest >>= fun _ => y)) := by
  show Follows source c (Descent.look c >>= fun p => f p.1 p.2) _
  rcases hc.look_cases with ⟨hreach, c', hlook, hs⟩ | ⟨e, hreach, hlook⟩
  · rw [hlook, hreach]
    exact .moved hs (hf c' hs)
  · rw [hlook, hreach]
    exact .error

end Follows

/-! ## Single tokens -/

section Tokens

variable {k : Token.Kind}

theorem current_bind {α : Type} (f : Token → Stepping α) (c : Cursor) :
    (current >>= f) c = f c.current c := rfl

theorem expect_follows (hc : Stands source tokens c) (hk : k ≠ .endOfFile) :
    Follows source c (expect k c)
      (Attempt.outcome (Parser.expect (.ofSource source) k tokens)) := by
  rw [expect, current_bind, hc.current]
  cases tokens with
  | nil =>
    rw [if_neg fun h => hk h.symm]
    exact .error
  | cons t rest =>
    refine .ite (fun _ => ?_) fun _ => .error
    rcases hc.advance_cases with ⟨hreach, c', hadvance, hc', hplain⟩ | ⟨e, hreach, hadvance⟩
    · rw [hadvance, hreach]
      exact .ok hc' (.inr hplain)
    · rw [hadvance, hreach]
      exact .error

theorem optional_follows (hc : Stands source tokens c) (hk : k ≠ .endOfFile) :
    Follows source c (optional k c)
      (Attempt.outcome (Parser.optional (.ofSource source) k tokens)) := by
  rw [optional, current_bind, hc.current]
  cases tokens with
  | nil =>
    rw [if_neg fun h => hk h.symm]
    exact .pure hc
  | cons t rest =>
    exact .ite (fun _ => .advance hc fun c' hc' => .pure hc') fun _ => .pure hc

theorem identifier_follows (hc : Stands source tokens c) :
    Follows source c (identifier c)
      (Attempt.outcome (Parser.identifier (.ofSource source) tokens)) := by
  cases tokens with
  | nil =>
    obtain ⟨c', hadvance⟩ := hc.advance_end
    show Follows source c (advance c >>= _) _
    rw [hadvance]
    exact .error
  | cons t rest =>
    refine .advance hc fun c' hc' => ?_
    cases hkind : t.kind with
    | identifier name => exact .pure hc'
    | _ => exact .error

theorem type_follows (hc : Stands source tokens c) :
    Follows source c (type c) (Attempt.outcome (Parser.type (.ofSource source) tokens)) := by
  rw [type, current_bind, hc.current]
  cases tokens with
  | nil => exact .error
  | cons t rest =>
    rw [Parser.type, Reading.current_cons]
    cases t.kind.type? with
    | none => exact .error
    | some ty => exact .advance hc fun c' hc' => .pure hc'

theorem arrayLength_follows (hc : Stands source tokens c) :
    Follows source c (arrayLength c)
      (Attempt.outcome (Parser.arrayLength (.ofSource source) tokens)) := by
  cases tokens with
  | nil =>
    obtain ⟨c', hadvance⟩ := hc.advance_end
    show Follows source c (advance c >>= _) _
    rw [hadvance]
    exact .error
  | cons t rest =>
    refine .advance hc fun c' hc' => ?_
    cases hkind : t.kind with
    | decLiteral text =>
      dsimp only
      cases lengthOfDecimal? text with
      | none => exact .error
      | some length => exact .pure hc'
    | _ => exact .error

end Tokens

end Descent

end Decaf
