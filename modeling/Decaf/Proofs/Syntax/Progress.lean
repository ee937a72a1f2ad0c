import Mathlib.Data.List.Induction
import Decaf.Proofs.Syntax.Following

/-!
# Descent makes progress and ends

A procedure needs fuel for the calls that can be open at once: no more than five between two tokens
that are taken. With fuel for all unread tokens it follows its reader (`run_follows`), and a
reader has an answer for all tokens. So at every cursor that is reached in a text a procedure gives
what its reader gives (`run_read`) and is never stuck (`run_ends`). It makes no calls but after it
has taken a token or down the chains of direct calls (`run_permitted`). If it succeeds it has taken
tokens, and none of them was the end of the file (`run_progresses`). For the whole text the answer
is that of the readers (`parse_eq`).
-/

namespace Decaf.Descent

variable {source : String} {tokens rest : List Token} {t : Token} {c : Cursor} {α : Type}

/-! ## Fuel -/

namespace Proc

/-- Reading is never stuck. -/
theorem read_outcome (p : Proc α) (source : String) (tokens : List Token) :
    ∃ outcome, p.read source tokens = Attempt.outcome outcome := by
  cases p with
  | binary least =>
    show ∃ outcome, Parser.climb (.ofSource source) least tokens = _
    unfold Parser.climb
    cases Parser.operand (.ofSource source) tokens with
    | error e => exact ⟨.error e, rfl⟩
    | ok first =>
      obtain ⟨first, rest, hrest⟩ := first
      -- Climbing has an answer for the operators it takes, and these are some stretch of a chain.
      obtain ⟨chain, mid, stop?, hstretch, hhalts, hall⟩ :=
        Parser.exists_stretch (.ofSource source) least rest
      have hclimbs := hstretch.climbs hhalts hall first
      show ∃ outcome, (Parser.climbOn (.ofSource source) least first rest >>= _) = _
      cases stop? with
      | none =>
        obtain ⟨_, hclimbs⟩ := hclimbs
        rw [hclimbs]
        exact ⟨.ok _, rfl⟩
      | some e =>
        rw [show Parser.climbOn (.ofSource source) least first rest = _ from hclimbs]
        exact ⟨.error e, rfl⟩
  | _ => exact ⟨_, rfl⟩

end Proc

/-- What is left of the fuel after a call is enough for the calls that it makes. -/
theorem serves_of_fuel {call : {α : Type} → Proc α → Stepping α} {fuel : Nat} {p : Proc α}
    (hfuel : 5 * tokens.length + p.rank ≤ fuel)
    (h : ∀ {β : Type} (q : Proc β) {rest : List Token} {c : Cursor}, Stands source rest c →
      5 * rest.length + q.rank < fuel → Follows source c (call q c) (q.read source rest)) :
    Serves source call p tokens := by
  intro β q rest c hc hcase
  refine h q hc ?_
  rcases hcase with hlt | ⟨rfl, hdirect⟩
  · have := q.rank_le
    omega
  · have := hdirect.rank_lt
    omega

/-- With fuel for all tokens a procedure follows its reader. -/
theorem run_follows {fuel : Nat} (p : Proc α) (hc : Stands source tokens c)
    (hfuel : 5 * tokens.length + p.rank < fuel) :
    Follows source c (run (Reading.ofSource source).lines fuel p c) (p.read source tokens) := by
  induction fuel generalizing α p tokens c with
  | zero => exact absurd hfuel (Nat.not_lt_zero _)
  | succ fuel ih =>
    have hserves : Serves source (run (Reading.ofSource source).lines fuel) p tokens :=
      serves_of_fuel (by omega) fun q _ _ => ih q
    exact body_follows p hc hserves (by omega)

/-! ## Cursors that are reached -/

/-- The cursors that are reached in a text from its beginning, by taking tokens, but not the end
of the file, and by looking ahead. -/
inductive Reached (source : String) : Cursor → Prop
  | start {c : Cursor} : start source = Attempt.outcome (.ok c) → Reached source c
  | advance {c c' : Cursor} {t : Token} : Reached source c → c.current.kind ≠ .endOfFile →
    advance c = Attempt.outcome (.ok (t, c')) → Reached source c'
  | look {c c' : Cursor} {t : Token} : Reached source c →
    look c = Attempt.outcome (.ok (t, c')) → Reached source c'

theorem Reached.stands (h : Reached source c) : ∃ tokens, Stands source tokens c := by
  induction h with
  | start hstart =>
    rcases start_cases source with ⟨-, c', hc', hs, -⟩ | ⟨e, -, he⟩
    · cases Attempt.outcome_ok_inj (hstart.symm.trans hc')
      exact ⟨_, hs⟩
    · cases hstart.symm.trans he
  | advance _ hkind hadvance ih =>
    obtain ⟨tokens, hc⟩ := ih
    cases tokens with
    | nil =>
      rw [hc.current] at hkind
      exact absurd rfl hkind
    | cons t rest =>
      rcases hc.advance_cases with ⟨-, c', hc', hs, -⟩ | ⟨e, -, he⟩
      · cases Attempt.outcome_ok_inj (hadvance.symm.trans hc')
        exact ⟨rest, hs⟩
      · cases hadvance.symm.trans he
  | look _ hlook ih =>
    obtain ⟨tokens, hc⟩ := ih
    cases tokens with
    | nil =>
      obtain ⟨c', hc', hs⟩ := hc.look_end
      cases Attempt.outcome_ok_inj (hlook.symm.trans hc')
      exact ⟨[], hs⟩
    | cons t rest =>
      rcases hc.look_cases with ⟨-, c', hc', hs⟩ | ⟨e, -, he⟩
      · cases Attempt.outcome_ok_inj (hlook.symm.trans hc')
        exact ⟨t :: rest, hs⟩
      · cases hlook.symm.trans he

/-- A cursor without a look ahead is reached by taking the tokens before it. -/
theorem reached_of_plain (hc : Stands source tokens c) (hplain : c.lexer.peeked = none) :
    Reached source c := by
  obtain ⟨lexer, current, taken⟩ := c
  -- The last token that was taken was the current one before, at a cursor that is reached. From
  -- there the cursor can only have been advanced to here, as it is unique.
  induction taken using List.reverseRecOn generalizing tokens lexer current with
  | nil =>
    have hall : tokens = (Stream.ofSource source).tokens := hc.taken
    rcases start_cases source with ⟨-, c', hc', hs, hplain'⟩ | ⟨e, he, -⟩
    · rw [← hall] at hs
      rw [hc.unique hs hplain hplain']
      exact .start hc'
    · rw [← hall, hc.reached] at he
      cases he
  | append_singleton taken t ih =>
    have hsplit : taken ++ (t :: tokens) = (Stream.ofSource source).tokens := by
      rw [← hc.taken, List.append_assoc]
      rfl
    have hbefore : Stands source (t :: tokens)
        ⟨(Lexer.ofSource source).afterNexts (taken.length + 1), t, taken⟩ :=
      ⟨hsplit, rfl, .same, rfl⟩
    have hkind : t.kind ≠ .endOfFile := hbefore.ne_endOfFile t List.mem_cons_self
    rcases hbefore.advance_cases with ⟨-, c', hadvance, hs, hplain'⟩ | ⟨e, he, -⟩
    · rw [hc.unique hs hplain hplain']
      exact .advance (ih _ _ hbefore (plain_afterNexts _)) hkind hadvance
    · rw [hc.reached] at he
      cases he

theorem Stands.is_reached (hc : Stands source tokens c) : Reached source c := by
  obtain ⟨lexer, current, taken⟩ := c
  have hahead : ((Lexer.ofSource source).afterNexts (taken.length + 1)).Ahead lexer := hc.lexer
  cases hahead with
  | same => exact reached_of_plain hc (plain_afterNexts _)
  | @looked t after hnext =>
    have hplain : Reached source ⟨_, current, taken⟩ :=
      reached_of_plain (hc.withLexer .same) (plain_afterNexts _)
    refine .look (t := t) hplain ?_
    rw [look, Lexer.Ahead.same.peek_of_ok (plain_afterNexts _) hnext]
    rfl

/-! ## Calls -/

/-- The call of a procedure at a cursor. -/
structure Call where
  {result : Type}
  proc : Proc result
  cursor : Cursor

/-- A call may make another one if tokens were taken in between, or if it makes it directly. The
tokens are among those that were not yet taken, so none is the end of the file. -/
def Call.Permits (x y : Call) : Prop :=
  ∃ used, y.cursor.taken = x.cursor.taken ++ used ∧ x.cursor.unread = used ++ y.cursor.unread ∧
    (used = [] → x.proc.Direct y.proc)

theorem Call.Permits.size_lt {x y : Call} (h : x.Permits y) :
    5 * y.cursor.unread.length + y.proc.rank < 5 * x.cursor.unread.length + x.proc.rank := by
  obtain ⟨used, -, hunread, hdirect⟩ := h
  rw [hunread, List.length_append]
  cases used with
  | nil =>
    have := (hdirect rfl).rank_lt
    rw [List.length_nil]
    omega
  | cons t used =>
    have := y.proc.rank_le
    rw [List.length_cons]
    omega

/-- No call goes on for ever to make others. -/
theorem wellFounded_permits : WellFounded fun y x : Call => x.Permits y :=
  Subrelation.wf Call.Permits.size_lt (InvImage.wf _ Nat.lt_wfRel.wf)

open Classical in
/-- Calls, of which only those are answered that a call may make, and at cursors that are
reached. -/
noncomputable def permitted (source : String) (x : Call)
    (call : {α : Type} → Proc α → Stepping α) {β : Type} (q : Proc β) : Stepping β :=
  fun c => if Reached source c ∧ x.Permits ⟨q, c⟩ then call q c else none

/-- Calls that serve a procedure still do if no others are answered. -/
theorem Serves.permitted {call : {α : Type} → Proc α → Stepping α} {p : Proc α}
    (h : Serves source call p tokens) (hc : Stands source tokens c) :
    Serves source (permitted source ⟨p, c⟩ call) p tokens := by
  intro β q rest c' hc' hcase
  have hle : rest.length ≤ tokens.length := by
    rcases hcase with hlt | ⟨rfl, -⟩
    · exact Nat.le_of_lt hlt
    · exact Nat.le_refl _
  obtain ⟨used, htaken, hused⟩ := hc.between hc' hle
  have hpermits : Call.Permits ⟨p, c⟩ ⟨q, c'⟩ := by
    refine ⟨used, htaken, by rw [hc.unread_eq, hc'.unread_eq, hused], ?_⟩
    rintro rfl
    rcases hcase with hlt | ⟨-, hdirect⟩
    · rw [hused] at hlt
      exact absurd hlt (Nat.lt_irrefl _)
    · exact hdirect
  have hanswer : Descent.permitted source ⟨p, c⟩ call q c' = call q c' :=
    if_pos ⟨hc'.is_reached, hpermits⟩
  show Follows source c' (Descent.permitted source ⟨p, c⟩ call q c') _
  rw [hanswer]
  exact h β q rest c' hc' hcase

/-! ## What comes of a call -/

theorem Follows.outcome {n : Nat} {x : Attempt (α × Cursor)} {y : Attempt (Parsed α n)}
    (h : Follows source c x y) (hy : ∃ parsed, y = Attempt.outcome parsed) :
    ∃ outcome, x = Attempt.outcome outcome := by
  obtain ⟨parsed, rfl⟩ := hy
  cases h with
  | error => exact ⟨_, rfl⟩
  | ok => exact ⟨_, rfl⟩

/-- What follows a reading that is not stuck is determined by it. -/
theorem Follows.unique {x x' : Attempt (α × Cursor)} {y : Attempt (Parsed α tokens.length)}
    (h : Follows source c x y) (hc : Stands source tokens c)
    (hy : ∃ parsed, y = Attempt.outcome parsed) (h' : Follows source c x' y) : x = x' := by
  obtain ⟨parsed, rfl⟩ := hy
  cases h with
  | error =>
    cases h' with
    | error => rfl
  | @ok v rest hlt c₁ hs hmoved =>
    cases h' with
    | @ok _ _ _ c₂ hs' hmoved' =>
      rw [hs.unique hs' (hc.plain_of_moved hs hlt hmoved) (hc.plain_of_moved hs' hlt hmoved')]

section Runs

variable {fuel : Nat} (p : Proc α)

/-- With fuel for all tokens a call gives what the reader gives, and leaves what it leaves. -/
theorem run_read (hc : Stands source tokens c) (hfuel : 5 * tokens.length + p.rank < fuel) :
    (fun r => (r.1, r.2.unread)) <$> run (Reading.ofSource source).lines fuel p c =
      (fun r => (r.value, r.rest)) <$> p.read source tokens := by
  have hrun := run_follows p hc hfuel
  obtain ⟨parsed, hparsed⟩ := p.read_outcome source tokens
  rw [hparsed] at hrun ⊢
  generalize run (Reading.ofSource source).lines fuel p c = x at hrun ⊢
  cases hrun with
  | error => rfl
  | @ok v rest _ c' hs _ =>
    show Attempt.outcome (.ok (v, c'.unread)) = _
    rw [hs.unread_eq]
    rfl

/-- Such a call has an outcome, and more fuel does not change it. -/
theorem run_ends (hc : Stands source tokens c) (hfuel : 5 * tokens.length + p.rank < fuel) :
    ∃ outcome, ∀ more, run (Reading.ofSource source).lines (fuel + more) p c = some outcome := by
  have hread := p.read_outcome source tokens
  have hrun := run_follows p hc hfuel
  obtain ⟨outcome, houtcome⟩ := hrun.outcome hread
  refine ⟨outcome, fun more => ?_⟩
  have hmore : Follows source c (run (Reading.ofSource source).lines (fuel + more) p c)
      (p.read source tokens) := run_follows p hc (by omega)
  exact (hmore.unique hc hread hrun).trans houtcome

/-- A call comes out the same if no calls are answered but those it may make. An outcome that
needed another one would be lost. -/
theorem run_permitted (hc : Stands source tokens c) (hfuel : 5 * tokens.length + p.rank < fuel) :
    run (Reading.ofSource source).lines (fuel + 1) p c =
      body (Reading.ofSource source).lines fuel
        (permitted source ⟨p, c⟩ (run (Reading.ofSource source).lines fuel)) p c := by
  have hserves : Serves source (run (Reading.ofSource source).lines fuel) p tokens :=
    serves_of_fuel (by omega) fun q _ _ => run_follows q
  have hrun : Follows source c (run (Reading.ofSource source).lines (fuel + 1) p c)
      (p.read source tokens) := run_follows p hc (by omega)
  exact hrun.unique hc (p.read_outcome source tokens)
    (body_follows p hc (hserves.permitted hc) (by omega))

/-- A call that succeeds has taken tokens, the first of those that were unread. -/
theorem run_progresses (hc : Stands source tokens c) (hfuel : 5 * tokens.length + p.rank < fuel)
    {v : α} {c' : Cursor}
    (hresult : run (Reading.ofSource source).lines fuel p c = some (.ok (v, c'))) :
    c'.unread.length < tokens.length ∧
      ∃ used, c'.taken = c.taken ++ used ∧ tokens = used ++ c'.unread ∧
        ∀ t ∈ used, t.kind ≠ .endOfFile := by
  have hrun := run_follows p hc hfuel
  obtain ⟨parsed, hparsed⟩ := p.read_outcome source tokens
  rw [hresult, hparsed] at hrun
  cases hrun with
  | @ok _ rest hlt _ hs _ =>
    obtain ⟨used, htaken, hused⟩ := hc.between hs (Nat.le_of_lt hlt)
    rw [hs.unread_eq]
    refine ⟨hlt, used, htaken, hused, fun t ht => hc.ne_endOfFile t ?_⟩
    rw [hused]
    exact List.mem_append_left _ ht

end Runs

/-! ## Programs -/

/-- The loop at the top level reads what is left, to the end of the file. -/
theorem repeatWhile_topLevels {step : Stepping Parser.TopLevel} {limit : Nat}
    (hlimit : tokens.length < limit) (hc : Stands source tokens c)
    (hstep : ∀ tokens' c', tokens'.length ≤ tokens.length → Stands source tokens' c' →
      Follows source c' (step c') (Attempt.outcome (Parser.topLevel (.ofSource source) tokens'))) :
    (fun p => p.1) <$> repeatWhile (· ≠ .endOfFile) step limit c =
      Attempt.outcome (Parser.topLevels (.ofSource source) tokens) := by
  induction limit generalizing tokens c with
  | zero => exact absurd hlimit (Nat.not_lt_zero _)
  | succ limit ih =>
    rw [repeatWhile, current_bind, hc.current, Parser.topLevels]
    by_cases hend : ((Reading.ofSource source).current tokens).kind = .endOfFile
    · rw [if_pos hend, if_neg (by rw [decide_eq_true_iff, not_not]; exact hend)]
      rfl
    · rw [if_neg hend, if_pos (by rw [decide_eq_true_iff]; exact hend)]
      show (fun p => p.1) <$> (step c >>= fun p => (repeatWhile (· ≠ .endOfFile) step limit >>=
        fun others => pure (p.1 :: others)) p.2) = _
      have hfirst := hstep tokens c (Nat.le_refl _) hc
      generalize step c = x at hfirst ⊢
      generalize Parser.topLevel (.ofSource source) tokens = y at hfirst ⊢
      cases hfirst with
      | error => rfl
      | @ok first rest hlt c₁ hc₁ _ =>
        have hothers := ih (by omega) hc₁ fun tokens' c' hle => hstep tokens' c' (by omega)
        show (fun p => p.1) <$> (repeatWhile (· ≠ .endOfFile) step limit c₁ >>= fun p =>
          pure (first :: p.1, p.2)) =
            Attempt.outcome (Parser.topLevels (.ofSource source) rest >>= _)
        rw [Attempt.outcome_bind, ← hothers, map_bind, bind_map_left]
        rfl

/-- With fuel for all tokens the descent reads the program that the readers give. -/
theorem parse_eq {fuel : Nat} (hfuel : 5 * (Stream.ofSource source).tokens.length < fuel) :
    Descent.parse fuel source = Attempt.outcome (Decaf.parse source) := by
  have hstep : ∀ tokens' c', tokens'.length ≤ (Stream.ofSource source).tokens.length →
      Stands source tokens' c' →
      Follows source c' (run (Lines.ofChars source.toList) fuel .topLevel c')
        (Attempt.outcome (Parser.topLevel (.ofSource source) tokens')) := by
    intro tokens' c' hle hc'
    have hrank : Proc.topLevel.rank = 0 := rfl
    exact run_follows .topLevel hc' (by omega)
  show (start source >>= fun c => repeatWhile (· ≠ .endOfFile)
    (run (Lines.ofChars source.toList) fuel .topLevel) fuel c >>= fun p => _) =
      Attempt.outcome ((Reading.ofSource source).reach (Stream.ofSource source).tokens >>= fun _ =>
        Parser.topLevels (.ofSource source) (Stream.ofSource source).tokens >>= fun items => _)
  rw [Attempt.outcome_bind]
  rcases start_cases source with ⟨hreach, c, hstart, hc, -⟩ | ⟨e, hreach, hstart⟩
  · have hlimit : (Stream.ofSource source).tokens.length < fuel := by omega
    rw [hstart, hreach, Attempt.outcome_bind, ← repeatWhile_topLevels hlimit hc hstep,
      bind_map_left]
    rfl
  · rw [hstart, hreach]
    rfl

/-- The descent makes progress and ends, whatever the text. No call can go on for ever to make
others. At every cursor that is reached, a call with fuel for the unread tokens and for the direct
calls below it comes out as the reader of the construct does on these tokens. It has an outcome,
which more fuel does not change and which rests on no call that it may not make. If it succeeds
there are fewer unread tokens than before, and what it took were tokens and not the end of
the file. With fuel for the tokens of the text, the outcome for the whole text is that of the
readers. -/
theorem parse_progresses (source : String) :
    (WellFounded fun y x : Call => x.Permits y) ∧
    (∀ (α : Type) (p : Proc α) (c : Cursor), Reached source c →
      ∀ fuel, 5 * c.unread.length + p.rank < fuel →
        (fun r => (r.1, r.2.unread)) <$> run (Lines.ofChars source.toList) fuel p c =
          (fun r => (r.value, r.rest)) <$> p.read source c.unread ∧
        (∃ outcome, ∀ more, run (Lines.ofChars source.toList) (fuel + more) p c = some outcome) ∧
        run (Lines.ofChars source.toList) (fuel + 1) p c =
          body (Lines.ofChars source.toList) fuel
            (permitted source ⟨p, c⟩ (run (Lines.ofChars source.toList) fuel)) p c ∧
        ∀ v c', run (Lines.ofChars source.toList) fuel p c = some (.ok (v, c')) →
          c'.unread.length < c.unread.length ∧
          ∃ used, c'.taken = c.taken ++ used ∧ c.unread = used ++ c'.unread ∧
            ∀ t ∈ used, t.kind ≠ .endOfFile) ∧
    ∀ fuel, 5 * (Stream.ofSource source).tokens.length < fuel →
      Descent.parse fuel source = some (Decaf.parse source) := by
  refine ⟨wellFounded_permits, ?_, fun fuel hfuel => parse_eq hfuel⟩
  intro α p c hreached fuel hfuel
  obtain ⟨tokens, hc⟩ := hreached.stands
  rw [hc.unread_eq] at hfuel ⊢
  exact ⟨run_read p hc hfuel, run_ends p hc hfuel, run_permitted p hc hfuel,
    fun v c' => run_progresses p hc hfuel⟩

/-- A variable, and a function that is cut off. -/
def cutOff : String := "int x; int f("

/-- The variable is read and leaves the tokens of the function, and the text is refused. -/
theorem parse_progresses_cutOff :
    (∃ c v c', Reached cutOff c ∧ c.unread.length = 6 ∧
      run (Lines.ofChars cutOff.toList) 31 .topLevel c = some (.ok (v, c')) ∧
      c'.unread.length < 6 ∧
      ∀ more, run (Lines.ofChars cutOff.toList) (31 + more) .topLevel c = some (.ok (v, c'))) ∧
    ∃ e, Decaf.parse cutOff = .error e ∧ Descent.parse 31 cutOff = some (.error e) := by
  obtain ⟨-, hcalls, hwhole⟩ := parse_progresses cutOff
  have htokens : (Stream.ofSource cutOff).tokens.length = 6 := by decide +kernel
  refine ⟨?_, ?_⟩
  · let c : Cursor := ⟨(Lexer.ofSource cutOff).next.2, ⟨.word .intWord, ⟨0, 3⟩⟩, []⟩
    have hnext : (Lexer.ofSource cutOff).next.1 = .ok c.current := by decide +kernel
    have hstart : start cutOff = Attempt.outcome (.ok c) := by
      have hpair : (Lexer.ofSource cutOff).next = (.ok c.current, c.lexer) := Prod.ext hnext rfl
      rw [start, hpair]
      rfl
    have hread : c.unread.length = 6 := by decide +kernel
    have hok : (run (Lines.ofChars cutOff.toList) 31 .topLevel c).any Except.isOk := by
      decide +kernel
    have hfuel : 5 * c.unread.length + Proc.topLevel.rank < 31 := by decide +kernel
    obtain ⟨-, ⟨outcome, hends⟩, -, hprogress⟩ := hcalls _ .topLevel c (.start hstart) 31 hfuel
    have hrun : run (Lines.ofChars cutOff.toList) 31 .topLevel c = some outcome := hends 0
    rw [hrun] at hok
    cases outcome with
    | error e => cases hok
    | ok p =>
      have hless := (hprogress p.1 p.2 hrun).1
      rw [hread] at hless
      exact ⟨c, p.1, p.2, .start hstart, hread, hrun, hless, hends⟩
  · have hrefused : (Decaf.parse cutOff).isOk = false := by decide +kernel
    have hparse := hwhole 31 (by rw [htokens]; decide)
    cases hresult : Decaf.parse cutOff with
    | ok p =>
      rw [hresult] at hrefused
      cases hrefused
    | error e => exact ⟨e, rfl, hresult ▸ hparse⟩

end Decaf.Descent
