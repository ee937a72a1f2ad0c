import Decaf.Session
import Decaf.Proofs.Syntax.FirstError
import Decaf.Proofs.Syntax.Shape
import Decaf.Proofs.Syntax.Tree
import Decaf.Proofs.Syntax.Positions
import Decaf.Proofs.Check.Agreement
import Decaf.Proofs.Check.Blamed

/-!
# Positions in a text

Where the nodes of a program, the diagnostics about it and the faults of a text stand.

A rule of the checker complains about a node, about one of its parts or about its beginning
(`About`), and the nodes of a program lie in its text. Errors of a reader are about a token,
the end of the text or an unreadable spot. The main theorem, `positions_sound`, puts this
together with the soundness of the nodes.
-/

namespace Decaf

variable {source : String}

/-- All nodes below a sound one are stretches of characters that are not empty. -/
theorem Node.AllSound.proper {n c m : Node} (h : n.AllSound source) (hc : c ∈ n.children)
    (hm : c.Has m) : m.span.Proper source := by
  cases hm with
  | self => exact (h n .self).proper c hc
  | child hhas hm => exact (h _ (hhas.of_child hc)).proper m hm

/-- The nodes of a program that was read lie in the text. -/
theorem parse_liesIn {p : Program} (h : parse source = .ok p) {n : Node}
    (hn : (Node.program p).Has n) : n.span.LiesIn source := by
  rcases hn.cases with rfl | ⟨c, hc, hm⟩
  · obtain ⟨-, items, -, rfl⟩ := Parser.program_eq_ok_iff.mp h
    exact ⟨Nat.zero_le _, Nat.le_refl _, isValid_of_append (a := []) rfl,
      String.Pos.Raw.isValid_of_eq_rawEndPos rfl⟩
  · exact ((parse_allSound h).proper hc hm).liesIn

/-- The diagnostics about a program that was read are about its nodes. -/
theorem checkProgram_about {p : Program} (h : parse source = .ok p) :
    About (.program p) (checkProgram p).errors.toList := by
  have hfindings := (checkProgram_untyped p).2
  rw [parse_untyped h] at hfindings
  rw [hfindings]
  exact Reference.findings_about p

theorem checkProgram_lieIn {p : Program} (h : parse source = .ok p) :
    ∀ d ∈ (checkProgram p).errors.toList, d.span.LiesIn source := by
  intro d hd
  obtain ⟨n, mistake, hn, hblamed, -⟩ := checkProgram_about h d hd
  rcases hblamed.cases with (hspan | hspan) | ⟨p, t, op, l, r, rfl, hspan⟩ | ⟨e, he, hspan⟩
  · rw [hspan]
    exact parse_liesIn h hn
  · rw [hspan]
    exact Span.liesIn_point (parse_liesIn h hn).start
  · rw [hspan]
    exact parse_liesIn h (hn.child List.mem_cons_self)
  · rw [hspan]
    exact parse_liesIn h (hn.child (Node.late_child he))

/-- An unreadable spot lies in the text. -/
theorem tokenize_error_liesIn {e : LexicalError} (h : tokenize source = .error e) :
    e.span.LiesIn source :=
  ((Stream.ofSource_in source).fault e (tokenize_eq_error h)).liesIn

/-- A complaint about a token that stands wrong, or about an unreadable spot, lies in the
text. -/
theorem parse_error_liesIn {e : ParseError} (h : parse source = .error e) :
    e.span.LiesIn source := by
  have hin := Stream.ofSource_in source
  rcases Parser.program_eq_error_iff.mp h with hreach | ⟨hreach, htop⟩
  · rcases Reading.reach_cases (.ofSource source) (Stream.ofSource source).tokens with
      hok | ⟨f, -, hfault, hf⟩
    · cases hok.symm.trans hreach
    · cases hf.symm.trans hreach
      exact (hin.fault f hfault).liesIn
  · cases hlate : e.late? with
    | none =>
      obtain ⟨f, rfl⟩ := ParseError.late?_eq_none_iff.mp hlate
      have hfault := (Parser.topLevels_unreadable rfl (spelled_kinds source) hreach htop).1
      exact (hin.fault f hfault).liesIn
    | some late =>
      obtain ⟨pre, left, htokens, -, -, hspan, -⟩ :=
        Parser.topLevels_complaint rfl (spelled_kinds source) hreach htop hlate
      -- it is about the first token that was not taken, or about the end of the text
      rw [hspan]
      cases left with
      | nil => exact Span.liesIn_point hin.size
      | cons t left =>
        have hat : At source 0 (Stream.ofSource source).tokens := ⟨hin.row, List.suffix_refl _⟩
        exact (hat.leads ⟨pre, htokens, rfl⟩).1.row.2.1.liesIn

theorem ParseError.fault_span? (e : ParseError) : e.fault.span? = some e.span := by
  cases e <;> rfl

theorem readProgram_ok {how : Presentation} {p : Program} (h : readProgram how source = .ok p) :
    parse source = .ok p := by
  rw [readProgram.eq_def] at h
  split at h
  · cases h
  · cases hp : parse source with
    | error e =>
      rw [hp] at h
      cases h
    | ok q =>
      rw [hp] at h
      cases h
      rfl

theorem readProgram_error_liesIn {how : Presentation} {fault : Fault}
    (h : readProgram how source = .error fault) :
    ∃ span, fault.span? = some span ∧ span.LiesIn source := by
  rw [readProgram.eq_def] at h
  split at h
  · next e _ he =>
    cases h
    exact ⟨e.span, rfl, tokenize_error_liesIn he⟩
  · cases hp : parse source with
    | error e =>
      rw [hp] at h
      cases h
      exact ⟨e.span, e.fault_span?, parse_error_liesIn hp⟩
    | ok q =>
      rw [hp] at h
      cases h

/-- What a check comes to: diagnostics that lie in the text, or a fault that does. -/
theorem checkText_lieIn (how : Presentation) (file : String) :
    (∃ p, parse source = .ok p ∧ (checkText how file source).verdict = .ok (checkProgram p)) ∨
    ∃ fault span, (checkText how file source).verdict = .error fault ∧
      fault.span? = some span ∧ span.LiesIn source := by
  cases hread : readProgram how source with
  | error fault =>
    obtain ⟨span, hspan, hin⟩ := readProgram_error_liesIn hread
    exact .inr ⟨fault, span, by rw [checkText, hread], hspan, hin⟩
  | ok p => exact .inl ⟨p, readProgram_ok hread, by rw [checkText, hread]⟩

/-- Every node of a program that a text is read as stands where it should: all but the program
are stretches of characters that are not empty, and each of them is on the line on which it
begins, encloses its children, which do not overlap, and spans the tokens it was read from if
it is a variable, a function, a block or a statement (`Node.Sound`). What is wrong with a text
lies in it, be it found by a check, by reading the program, by reading all tokens at once or by
reading them one after the other. -/
theorem positions_sound (source : String) :
    (∀ p, parse source = .ok p → ∀ n, (Node.program p).Has n →
      n.Sound source ∧ (n = .program p ∨
        n.span.start < n.span.stop ∧ n.span.LiesIn source)) ∧
    (∀ how file, (∃ checked, (checkText how file source).verdict = .ok checked ∧
        ∀ d ∈ checked.errors.toList, d.span.LiesIn source) ∨
      ∃ fault span, (checkText how file source).verdict = .error fault ∧
        fault.span? = some span ∧ span.LiesIn source) ∧
    (∀ e, parse source = .error e → e.span.LiesIn source) ∧
    (∀ e, tokenize source = .error e → e.span.LiesIn source) ∧
    ∀ n e, .error e ∈ (Lexer.ofSource source).answers n → e.span.LiesIn source := by
  refine ⟨fun p hp n hn => ⟨parse_allSound hp n hn, ?_⟩, fun how file => ?_,
    fun e => parse_error_liesIn, fun e => tokenize_error_liesIn, fun n e he => ?_⟩
  · rcases hn.cases with hroot | ⟨c, hc, hm⟩
    · exact .inl hroot
    · have hproper := (parse_allSound hp).proper hc hm
      exact .inr ⟨hproper.lt, hproper.liesIn⟩
  · rcases checkText_lieIn how file with ⟨p, hp, hverdict⟩ | hfault
    · exact .inl ⟨checkProgram p, hverdict, checkProgram_lieIn hp⟩
    · exact .inr hfault
  · exact Lexer.answers_lieIn n (.ofSource source) [] rfl rfl rfl _ he

/-- A text with a letter of two bytes, in which an operand stands in parentheses. -/
def accented : String :=
  "// é\ndef int main() \x7b\n  return (x) + 1;\n\x7d\n"

/-- The function begins with `def`, on the second line, and the complaint is about `x`. -/
theorem accented_positions :
    ∃ p, parse accented = .ok p ∧
      (Node.program p).children.map Node.place = [⟨⟨6, 42⟩, 2⟩] ∧
      (checkProgram p).errors.toList.map (·.span) = [⟨33, 34⟩] ∧
      ∀ n, (Node.program p).Has n → n.Sound accented := by
  have h : (parse accented).toOption.map (fun p => ((Node.program p).children.map Node.place,
      (checkProgram p).errors.toList.map (·.span))) = some ([⟨⟨6, 42⟩, 2⟩], [⟨33, 34⟩]) := by
    decide +kernel
  cases hp : parse accented with
  | error e =>
    rw [hp] at h
    cases h
  | ok p =>
    rw [hp] at h
    obtain ⟨hplaces, hspans⟩ := Prod.mk.inj (Option.some.inj h)
    exact ⟨p, rfl, hplaces, hspans, fun n hn => ((positions_sound accented).1 p hp n hn).1⟩

end Decaf
