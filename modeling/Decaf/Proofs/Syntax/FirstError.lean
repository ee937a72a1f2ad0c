import Decaf.Proofs.Syntax.Tracking

/-!
# Where a text is found wrong

A row of tokens is viable if some text that is read as a program begins with it.
The first token that makes a row not viable is the first offending one, and a text
that is no program is complained about there: neither earlier, for what stands
before can still be completed, nor later (`parse_error_at_firstOffending`).

A text with an unreadable spot is wrong in two places if one of its tokens offends
too. Which of the two is reported depends on how far the tokens had been taken when
the offending one was found: a token is looked at before it is taken, unless it
stands for a name or for the length of an array (`parse_unreadable_or_offending`).
-/

namespace Decaf

open Grammar

/-! ## Viable rows -/

/-- A row, the end of the file included, that a text is made of which is read as a
program. -/
def Accepted (w : Word) : Prop :=
  ∃ source tokens p, tokenize source = .ok tokens ∧ kinds tokens = w ∧ parse source = .ok p

/-- A row that an accepted row begins with. -/
def Viable (w : Word) : Prop :=
  ∃ more, Accepted (w ++ more)

theorem spelled_kinds (source : String) : Spelled (kinds (Stream.ofSource source).tokens) := by
  intro k hk
  obtain ⟨t, ht, rfl⟩ := List.mem_map.mp hk
  exact Stream.scan_wellSpelled 0 source.toList t ht

theorem Grammar.Spelled.not_ending {a : Word} (h : Spelled a) : Token.Kind.endOfFile ∉ a :=
  fun hm => h _ hm

theorem accepted_iff {w : Word} :
    Accepted w ↔ ∃ a, Spelled a ∧ a ∈ itemRows ∧ w = a ++ [.endOfFile] := by
  constructor
  · intro h
    obtain ⟨source, tokens, p, ht, rfl, hp⟩ := h
    obtain ⟨items, ⟨row, last, ht', hlast, hitems⟩, _⟩ := parse_derives hp
    obtain rfl := Except.ok.inj (ht.symm.trans ht')
    have hrow := (tokenize_eq_ok_iff.mp ht').2.1
    refine ⟨kinds row, ?_, ⟨items, hitems⟩, ?_⟩
    · rw [hrow]
      exact spelled_kinds source
    · rw [kinds, List.map_append, List.map_singleton, hlast]
  · intro h
    obtain ⟨a, ha, ⟨items, hitems⟩, rfl⟩ := h
    obtain ⟨tokens, last, ht, rfl, hlast⟩ := tokenize_written ha
    obtain ⟨p, hp, _⟩ := Grammar.Derives.parse ⟨tokens, last, ht, hlast, hitems⟩
    exact ⟨_, _, p, ht, by rw [kinds, List.map_append, List.map_singleton, hlast], hp⟩

theorem Viable.of_append {u v : Word} (h : Viable (u ++ v)) : Viable u := by
  obtain ⟨more, hmore⟩ := h
  exact ⟨v ++ more, by rwa [← List.append_assoc]⟩

/-- A row without the end of the file is viable exactly if it is well spelled and can
be completed to the row of a program. -/
theorem viable_iff {w : Word} (hw : Token.Kind.endOfFile ∉ w) :
    Viable w ↔ Spelled w ∧ Opens itemRows w := by
  constructor
  · intro h
    obtain ⟨more, hmore⟩ := h
    obtain ⟨a, ha, hitems, heq⟩ := accepted_iff.mp hmore
    -- the end of the file stands in the part that is added
    rcases List.eq_nil_or_concat' more with rfl | ⟨c, k, rfl⟩
    · rw [List.append_nil] at heq
      exact absurd (heq ▸ List.mem_append_right a List.mem_cons_self) hw
    · rw [← List.append_assoc] at heq
      obtain ⟨rfl, _⟩ := List.append_inj' heq rfl
      exact ⟨fun k hk => ha k (List.mem_append_left c hk),
        c, fun k hk => ha k (List.mem_append_right w hk), hitems⟩
  · intro h
    obtain ⟨hs, c, hc, hitems⟩ := h
    refine ⟨c ++ [.endOfFile], accepted_iff.mpr ⟨w ++ c, hs.append hc, hitems, ?_⟩⟩
    rw [List.append_assoc]

/-- Nothing comes after the end of the file. -/
theorem Viable.items_of_ending {w : Word} (h : Viable (w ++ [.endOfFile])) : w ∈ itemRows := by
  obtain ⟨more, hmore⟩ := h
  obtain ⟨a, ha, hitems, heq⟩ := accepted_iff.mp hmore
  rcases List.eq_nil_or_concat' more with rfl | ⟨c, k, rfl⟩
  · rw [List.append_nil] at heq
    obtain ⟨rfl, _⟩ := List.append_inj' heq rfl
    exact hitems
  · rw [← List.append_assoc] at heq
    obtain ⟨rfl, _⟩ := List.append_inj' heq rfl
    have hmem : Token.Kind.endOfFile ∈ w ++ [.endOfFile] ++ c := by simp
    exact absurd hmem ha.not_ending

/-! ## The first offending token -/

/-- The first token that cannot stand where it does: what comes before it is viable,
and with it no longer. -/
def FirstOffending (tokens : List Token) (t : Token) : Prop :=
  ∃ pre more, tokens = pre ++ t :: more ∧ Viable (kinds pre) ∧ ¬ Viable (kinds (pre ++ [t]))

namespace Reading

/-- The reading of the same text as if it ended where it becomes unreadable. -/
def cut (r : Reading) : Reading :=
  { r with fault := none }

theorem cut_whole {r : Reading} (hend : r.ending.kind = .endOfFile) : r.cut.Whole :=
  ⟨hend, rfl⟩

end Reading

/-- A row that goes on with the token at the front of `left`, or with the end of the file
if there is none, is completed to the row of a program in the same way. -/
theorem Viable.exists_row {r : Reading} (hend : r.ending.kind = .endOfFile)
    {pre left : List Token} (hno : Token.Kind.endOfFile ∉ kinds (pre ++ left))
    (h : Viable (kinds (pre ++ [r.current left]))) :
    ∃ tokens', kinds tokens' ∈ itemRows ∧ ∃ left', Shares pre left tokens' left' := by
  cases left with
  | nil =>
    refine ⟨pre, ?_, [], pre, (List.append_nil pre).symm, rfl, .refl _⟩
    rw [kinds, List.map_append, List.map_singleton] at h
    exact Viable.items_of_ending (show Viable (kinds pre ++ [.endOfFile]) from hend ▸ h)
  | cons t rest =>
    have hno' : Token.Kind.endOfFile ∉ kinds (pre ++ [t]) := by
      simp only [kinds, List.map_append, List.map_cons, List.mem_append, List.mem_cons] at hno ⊢
      simp_all
    obtain ⟨_, c, _, hitems⟩ := (viable_iff hno').mp h
    let others : List Token := c.map fun k => ⟨k, .point 0⟩
    have hothers : kinds others = c := by simp [others, kinds, Function.comp_def]
    refine ⟨pre ++ t :: others, ?_, t :: others, pre, rfl, rfl, rfl⟩
    have hkinds : kinds (pre ++ t :: others) = kinds (pre ++ [t]) ++ c := by
      rw [← hothers]
      simp [kinds]
    rw [hkinds]
    exact hitems

/-- If all rows that begin in the same way are found wrong, the token that was looked at
last offends. -/
theorem not_viable_of_shared {r : Reading} (hend : r.ending.kind = .endOfFile)
    {pre left : List Token} (hno : Token.Kind.endOfFile ∉ kinds (pre ++ left)) {late : Bool}
    (h : ∀ tokens' left', Shares pre left tokens' left' →
      Complains r.cut (Parser.topLevels r.cut tokens') left' late) :
    ¬ Viable (kinds (pre ++ [r.current left])) := by
  intro hv
  obtain ⟨tokens', ⟨items, hitems⟩, left', hs⟩ := hv.exists_row hend hno
  obtain ⟨e, he, _⟩ := h tokens' left' hs
  obtain ⟨read, hread, _⟩ := Parser.topLevels_complete (Reading.cut_whole hend) hitems
  cases he.symm.trans hread

theorem Shares.self (pre left : List Token) : Shares pre left (pre ++ left) left :=
  ⟨pre, rfl, rfl, .refl left⟩

namespace Parser

variable {r : Reading} {tokens : List Token} {e : ParseError}

/-- A complaint is about the first offending token, and the end of the file can be
that token. -/
theorem topLevels_complaint (hend : r.ending.kind = .endOfFile) (hs : Spelled (kinds tokens))
    (hr : r.reach tokens = .ok ()) {late : Bool} (he : topLevels r tokens = .error e)
    (hlate : e.late? = some late) :
    ∃ pre left, tokens = pre ++ left ∧ r.reach left = .ok () ∧
      (late = true → SaidOfTaken r left e) ∧ e.span = (r.current left).span ∧
      Viable (kinds pre) ∧ ¬ Viable (kinds (pre ++ [r.current left])) ∧
      Complains r.cut (topLevels r.cut tokens) left late := by
  have h := topLevels_falters hend (Reading.cut_whole hend) tokens hr
  obtain ⟨pre, left, rfl, hleft, hsaid, hspan, hopens, hshared⟩ := h.complains e late he hlate
  have hpre : Spelled (kinds pre) := fun k hk => hs k (by simp [kinds] at hk ⊢; exact .inl hk)
  refine ⟨pre, left, rfl, hleft, hsaid, hspan, (viable_iff hpre.not_ending).mpr ⟨hpre, hopens⟩, ?_,
    hshared _ _ (.self pre left) _ _ rfl⟩
  exact not_viable_of_shared hend hs.not_ending fun ts left' hsh => hshared ts left' hsh _ _ rfl

/-- An unreadable spot is come to if all tokens are viable, or if the last of them is
the first offending one and was taken before it was looked at. -/
theorem topLevels_unreadable (hend : r.ending.kind = .endOfFile) (hs : Spelled (kinds tokens))
    (hr : r.reach tokens = .ok ()) {f : LexicalError}
    (he : topLevels r tokens = .error (.unreadable f)) :
    r.fault = some f ∧ (Viable (kinds tokens) ∨
      ∃ pre t, tokens = pre ++ [t] ∧ Viable (kinds pre) ∧ ¬ Viable (kinds (pre ++ [t])) ∧
        Complains r.cut (topLevels r.cut tokens) [t] true) := by
  have h := topLevels_falters hend (Reading.cut_whole hend) tokens hr
  obtain ⟨hfault, hopens | ⟨pre, t, rfl, hopens, hshared⟩⟩ := h.stops f he
  · exact ⟨hfault, .inl ((viable_iff hs.not_ending).mpr ⟨hs, hopens⟩)⟩
  · have hpre : Spelled (kinds pre) := fun k hk => hs k (by simp [kinds] at hk ⊢; exact .inl hk)
    refine ⟨hfault, .inr ⟨pre, t, rfl, (viable_iff hpre.not_ending).mpr ⟨hpre, hopens⟩, ?_,
      hshared _ _ (.self pre [t]) _ _ rfl⟩⟩
    exact not_viable_of_shared hend hs.not_ending
      fun ts left' (hsh : Shares pre [t] ts left') => hshared ts left' hsh _ _ rfl

theorem program_eq_error_iff {size : Nat} :
    program r size tokens = .error e ↔
      r.reach tokens = .error e ∨ (r.reach tokens = .ok () ∧ topLevels r tokens = .error e) := by
  rw [program]
  cases hr : r.reach tokens with
  | error e' => simp [bind, Except.bind]
  | ok u => cases ht : topLevels r tokens <;> simp [bind, Except.bind, pure, Except.pure]

end Parser

/-! ## Texts that divide into tokens -/

/-- A text that divides into tokens has no unreadable spot to report. -/
theorem parse_ne_unreadable {source : String} {tokens : List Token}
    (h : tokenize source = .ok tokens) (f : LexicalError) :
    parse source ≠ .error (.unreadable f) := by
  intro he
  obtain ⟨hf, _⟩ := tokenize_eq_ok h
  have hr : (Reading.ofSource source).Whole := ⟨rfl, hf⟩
  rcases Parser.program_eq_error_iff.mp he with hreach | ⟨hreach, htop⟩
  · rw [hr.reach_eq] at hreach
    cases hreach
  · have hfault := (Parser.topLevels_unreadable rfl (spelled_kinds source) hreach htop).1
    cases hf.symm.trans hfault

/-- A text that divides into tokens and is no program is complained about at its first
offending token. -/
theorem parse_error_at_firstOffending {source : String} {tokens : List Token} {e : ParseError}
    (ht : tokenize source = .ok tokens) (he : parse source = .error e) :
    (∀ f, e ≠ .unreadable f) ∧ ∃ t, FirstOffending tokens t ∧ e.span = t.span := by
  have hreadable : ∀ f, e ≠ .unreadable f := fun f h => parse_ne_unreadable ht f (h ▸ he)
  refine ⟨hreadable, ?_⟩
  obtain ⟨hf, rfl⟩ := tokenize_eq_ok ht
  have hr : (Reading.ofSource source).Whole := ⟨rfl, hf⟩
  cases hlate : e.late? with
  | none =>
    obtain ⟨f, rfl⟩ := ParseError.late?_eq_none_iff.mp hlate
    exact absurd rfl (hreadable f)
  | some late =>
    rcases Parser.program_eq_error_iff.mp he with hreach | ⟨hreach, htop⟩
    · rw [hr.reach_eq] at hreach
      cases hreach
    · obtain ⟨pre, left, htokens, _, _, hspan, hv, hnot, _⟩ :=
        Parser.topLevels_complaint rfl (spelled_kinds source) hreach htop hlate
      rw [htokens, List.append_assoc]
      cases left with
      | nil => exact ⟨_, ⟨pre, [], rfl, hv, hnot⟩, hspan⟩
      | cons t rest => exact ⟨t, ⟨pre, _, rfl, hv, hnot⟩, hspan⟩

theorem eq_error_of_map {γ : Type} {x : Except ParseError γ} {e : ParseError}
    (h : x.map (fun _ => ()) = .error e) : x = .error e := by
  cases x with
  | error e' => exact congrArg _ (Except.error.inj h)
  | ok v => cases h

/-- In `x = (1 + ; }` the semicolon offends: what stands before it wants an operand. -/
theorem missing_operand_firstOffending :
    ∃ tokens t, tokenize "void f() { x = (1 + ; }" = .ok tokens ∧ FirstOffending tokens t ∧
      t.span = ⟨20, 21⟩ := by
  have ht : (tokenize "void f() { x = (1 + ; }").isOk = true := by decide +kernel
  have he : parse "void f() { x = (1 + ; }" =
      .error (.unexpected .expression ⟨.sign .semicolon, ⟨20, 21⟩⟩) :=
    eq_error_of_map (by decide +kernel)
  cases htokens : tokenize "void f() { x = (1 + ; }" with
  | error L =>
    rw [htokens] at ht
    cases ht
  | ok tokens =>
    obtain ⟨_, t, hfirst, hspan⟩ := parse_error_at_firstOffending htokens he
    exact ⟨tokens, t, rfl, hfirst, hspan.symm⟩

/-! ## Texts with an unreadable spot -/

/-- What is read from the tokens of a text alone, as if it ended where it becomes
unreadable. -/
def parseReadable (source : String) : Except ParseError Program :=
  Parser.program (Reading.ofSource source).cut source.utf8ByteSize (Stream.ofSource source).tokens

/-- What is said of a token that was taken first is a late complaint, unless the text
was found unreadable by taking it. -/
theorem SaidOfTaken.late {r : Reading} {t : Token} {rest : List Token} {e : ParseError}
    (h : SaidOfTaken r (t :: rest) e) :
    (r.reach rest = .ok () ∧ e.late? = some true) ∨ r.reach rest = .error e := by
  cases hr : r.reach rest with
  | error f =>
    right
    rcases h with h | h
    · rw [Parser.identifier, hr] at h
      cases h
      rfl
    · rw [Parser.arrayLength, hr] at h
      cases h
      rfl
  | ok u =>
    left
    refine ⟨rfl, ?_⟩
    rcases h with h | h
    · by_cases hx : IsIdentifier t.kind
      · obtain ⟨x, hx⟩ := hx
        rw [Parser.identifier_cons hx, hr] at h
        cases h
      · rw [Parser.identifier_other hx, hr] at h
        cases h
        rfl
    · by_cases ht : IsLength t.kind
      · obtain ⟨n, hn⟩ := Parser.arrayLength_cons (r := r) ht rest
        rw [hn, hr] at h
        cases h
      · obtain ⟨e', hlate, _, he'⟩ := Parser.arrayLength_other (r := r) ht
        rw [he', hr] at h
        cases h
        exact hlate

/-- If a late complaint stays late where nothing unreadable follows, then it was not
about the last token before an unreadable spot. -/
theorem SaidOfTaken.not_last {r r' : Reading} {L : LexicalError} (hf : r.fault = some L)
    (hr' : r'.Whole) {t : Token} {e e' : ParseError} {late : Bool} (he : e.late? = some late)
    (he' : e'.late? = some late) (hsaid : late = true → SaidOfTaken r [t] e) :
    ¬ SaidOfTaken r' [t] e' := by
  intro h
  have hunread : r.reach [] = .error (.unreadable L) := by simp [Reading.reach, hf]
  rcases h.late with ⟨_, htrue⟩ | hr
  · cases he'.symm.trans htrue
    rcases (hsaid rfl).late with ⟨hok, _⟩ | herr
    · cases hunread.symm.trans hok
    · cases hunread.symm.trans herr
      cases he
  · rw [hr'.reach_eq] at hr
    cases hr

theorem Complains.parseReadable {source : String} {left : List Token} {late : Bool}
    (h : Complains (Reading.ofSource source).cut (Parser.topLevels (Reading.ofSource source).cut
      (Stream.ofSource source).tokens) left late) :
    Complains (Reading.ofSource source).cut (Decaf.parseReadable source) left late := by
  obtain ⟨e, he, h⟩ := h
  have hr := (Reading.cut_whole (r := Reading.ofSource source) rfl).reach_eq
  exact ⟨e, Parser.program_eq_error_iff.mpr (.inr ⟨hr _, he⟩), h⟩

/-- A text that becomes unreadable at `L` is no program. Either `L` is reported, and then
its tokens are viable or the last of them was taken before it was found to offend; or
the first offending token is complained about, and if it is the last, it had not been
taken. -/
theorem parse_cases_of_fault {source : String} {L : LexicalError}
    (hf : (Stream.ofSource source).fault = some L) :
    (parse source = .error (.unreadable L) ∧ (Viable (kinds (Stream.ofSource source).tokens) ∨
      ∃ pre t e, (Stream.ofSource source).tokens = pre ++ [t] ∧ Viable (kinds pre) ∧
        parseReadable source = .error e ∧ e.span = t.span ∧
        SaidOfTaken (Reading.ofSource source).cut [t] e)) ∨
    ∃ pre t more e e', (Stream.ofSource source).tokens = pre ++ t :: more ∧ Viable (kinds pre) ∧
      ¬ Viable (kinds (pre ++ [t])) ∧ parse source = .error e ∧ (∀ f, e ≠ .unreadable f) ∧
      e.span = t.span ∧ parseReadable source = .error e' ∧ e'.span = t.span ∧
      (more = [] → ¬ SaidOfTaken (Reading.ofSource source).cut [t] e') := by
  have hs := spelled_kinds source
  cases hp : parse source with
  | ok p =>
    obtain ⟨hr, items, hitems, _⟩ := Parser.program_eq_ok_iff.mp hp
    have hnone := (Parser.topLevels_sound rfl (kinds_no_ending source) hr hitems).2
    cases hf.symm.trans hnone
  | error e =>
    rcases Parser.program_eq_error_iff.mp hp with hr | ⟨hr, htop⟩
    · -- there is no token at all before the unreadable spot
      rcases (Reading.ofSource source).reach_cases (Stream.ofSource source).tokens with
        hr' | ⟨f, hnil, hf', hr'⟩
      · cases hr.symm.trans hr'
      · cases hr.symm.trans hr'
        cases hf.symm.trans hf'
        refine .inl ⟨rfl, .inl ?_⟩
        rw [hnil]
        exact (viable_iff List.not_mem_nil).mpr ⟨.nil, .items⟩
    · cases hlate : e.late? with
      | none =>
        obtain ⟨f, rfl⟩ := ParseError.late?_eq_none_iff.mp hlate
        obtain ⟨hf', h⟩ := Parser.topLevels_unreadable rfl hs hr htop
        cases hf.symm.trans hf'
        refine .inl ⟨rfl, h.imp_right fun h => ?_⟩
        obtain ⟨pre, t, htokens, hv, _, hc⟩ := h
        obtain ⟨e, he, _, hspan, hsaid⟩ := hc.parseReadable
        exact ⟨pre, t, e, htokens, hv, he, hspan, hsaid rfl⟩
      | some late =>
        obtain ⟨pre, left, htokens, hleft, hsaid, hspan, hv, hnot, hc⟩ :=
          Parser.topLevels_complaint rfl hs hr htop hlate
        obtain ⟨e', he', hlate', hspan', _⟩ := hc.parseReadable
        cases left with
        | nil => simp [Reading.reach, Reading.ofSource, hf] at hleft
        | cons t more =>
          refine .inr ⟨pre, t, more, e, e', htokens, hv, hnot, rfl, ?_, hspan, he', hspan', ?_⟩
          · intro f h
            rw [h] at hlate
            cases hlate
          · intro hmore
            subst hmore
            exact SaidOfTaken.not_last (r := Reading.ofSource source) hf (Reading.cut_whole rfl)
              hlate hlate' hsaid

/-- Which mistake of a text is reported. If the text becomes unreadable at `L`, reading it
fails, and no other unreadable spot is reported. It is `L` if all tokens before it are
viable. A token before the last of them that offends is complained about. If the last
one is the first to offend, it is complained about too, unless the complaint is the one
that the reader of names or of array lengths has, which take the token first: then `L`
is found. A text without an unreadable spot has none reported. -/
theorem parse_unreadable_or_offending (source : String) :
    (∀ L, tokenize source = .error L →
      (∃ e, parse source = .error e) ∧
      (∀ f, parse source = .error (.unreadable f) → f = L) ∧
      (Viable (kinds (Stream.ofSource source).tokens) → parse source = .error (.unreadable L)) ∧
      ∀ pre t, (Stream.ofSource source).tokens = pre ++ [t] →
        (¬ Viable (kinds pre) → ∃ e u, parse source = .error e ∧ (∀ f, e ≠ .unreadable f) ∧
          FirstOffending (Stream.ofSource source).tokens u ∧ e.span = u.span) ∧
        (Viable (kinds pre) → ¬ Viable (kinds (pre ++ [t])) →
          ∃ e, parseReadable source = .error e ∧ e.span = t.span ∧
            (SaidOfTaken (Reading.ofSource source).cut [t] e →
              parse source = .error (.unreadable L)) ∧
            (¬ SaidOfTaken (Reading.ofSource source).cut [t] e →
              ∃ e', parse source = .error e' ∧ (∀ f, e' ≠ .unreadable f) ∧ e'.span = t.span))) ∧
    ∀ tokens, tokenize source = .ok tokens → ∀ f, parse source ≠ .error (.unreadable f) := by
  refine ⟨fun L hL => ?_, fun tokens ht f => parse_ne_unreadable ht f⟩
  rcases parse_cases_of_fault (tokenize_eq_error hL) with
    ⟨hp, hcase⟩ | ⟨pre, t, more, e, e', htokens, hv, hnot, hp, hreadable, hspan, he', hspan', hlast⟩
  · refine ⟨⟨_, hp⟩, fun f hf => ?_, fun _ => hp, fun pre t htokens => ⟨fun hpre => ?_, ?_⟩⟩
    · cases hf.symm.trans hp
      rfl
    · -- all tokens but the last are viable here
      rcases hcase with hv | ⟨pre', t', e, htokens', hv, _⟩
      · rw [htokens, kinds, List.map_append] at hv
        exact absurd hv.of_append hpre
      · obtain ⟨rfl, _⟩ := List.append_inj' (htokens.symm.trans htokens') rfl
        exact absurd hv hpre
    · intro _ hnot
      rcases hcase with hv | ⟨pre', t', e, htokens', hv, he, hspan, hsaid⟩
      · rw [htokens] at hv
        exact absurd hv hnot
      · obtain ⟨rfl, ht⟩ := List.append_inj' (htokens.symm.trans htokens') rfl
        cases ht
        exact ⟨e, he, hspan, fun _ => hp, fun h => absurd hsaid h⟩
  · have hlarge : ¬ Viable (kinds (Stream.ofSource source).tokens) := by
      intro h
      rw [htokens, List.append_cons, kinds, List.map_append] at h
      exact hnot h.of_append
    refine ⟨⟨e, hp⟩, fun f hf => ?_, fun h => absurd h hlarge, fun pre' t' htokens' =>
      ⟨fun _ => ⟨e, t, hp, hreadable, ⟨pre, more, htokens, hv, hnot⟩, hspan⟩, fun hv' _ => ?_⟩⟩
    · cases hf.symm.trans hp
      exact absurd rfl (hreadable f)
    · -- the offending token is the last one, for what stands before the last is viable
      rcases List.eq_nil_or_concat' more with rfl | ⟨mid, u, rfl⟩
      · obtain ⟨rfl, ht⟩ := List.append_inj' (htokens.symm.trans htokens') rfl
        cases ht
        exact ⟨e', he', hspan', fun h => absurd h (hlast rfl), fun _ => ⟨e, hp, hreadable, hspan⟩⟩
      · have hpre' : pre' = pre ++ [t] ++ mid := by
          have h := htokens'.symm.trans htokens
          rw [← List.cons_append, ← List.append_assoc] at h
          obtain ⟨h, _⟩ := List.append_inj' h rfl
          rw [h, List.append_cons]
        rw [hpre', kinds, List.map_append] at hv'
        exact absurd hv'.of_append hnot

/-- In `int 1 @` the number offends and `@` is unreadable. The number stands where a name
is expected, so it is taken first and `@` is reported. -/
theorem number_for_name_unreadable :
    parse "int 1 @" = .error (.unreadable ⟨"@", ⟨6, 7⟩⟩) ∧
      ∃ e, parseReadable "int 1 @" = .error e ∧ e.span = ⟨4, 5⟩ := by
  have hL : tokenize "int 1 @" = .error ⟨"@", ⟨6, 7⟩⟩ := by decide +kernel
  have htokens : (Stream.ofSource "int 1 @").tokens =
      [⟨.word .intWord, ⟨0, 3⟩⟩] ++ [⟨.decLiteral "1", ⟨4, 5⟩⟩] := by decide +kernel
  have hv : Viable [.word .intWord] := by
    have hitem : Opens (phrases Item) [.word .intWord] :=
      (Opens.mul_right (mem_single.mpr ⟨.int, .int⟩)
        (Opens.identifier.mul_left Opens.variableRest.add_right)).mono item_rule
    exact (viable_iff (by decide)).mpr
      ⟨.cons trivial .nil, (hitem.add_right.mul_left .items).mono items_rule⟩
  have hnot : ¬ Viable [.word .intWord, .decLiteral "1"] := by
    intro h
    obtain ⟨_, c, _, items, hitems⟩ := (viable_iff (by decide)).mp h
    cases hitems with
    | plain hitem _ =>
      cases hitem with
      | global hd => cases hd
  obtain ⟨e, he, hspan, hsaid, _⟩ :=
    ((parse_unreadable_or_offending "int 1 @").1 _ hL).2.2.2 _ _ htokens |>.2 hv hnot
  refine ⟨hsaid ?_, e, he, hspan⟩
  have he' : parseReadable "int 1 @" =
      .error (.unexpected .identifier ⟨.decLiteral "1", ⟨4, 5⟩⟩) :=
    eq_error_of_map (by decide +kernel)
  cases he.symm.trans he'
  exact .inl rfl

end Decaf
