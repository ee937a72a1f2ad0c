import Decaf.Proofs.Check.Positions
import Decaf.Proofs.Syntax.Joined

/-!
# The lines of diagnostics

A diagnostic has a line, which its message names, and a span, which its snippet shows. The
line is the one on which the construct begins that breaks a rule. Most rules complain about
the whole construct, so that the span begins there too. The others complain about a part of
it: the condition of a statement, the index of an array, an operand or an argument. A left
operand is what the construct begins with; any other part may stand on a later line
(`Node.late`), and then the line of the diagnostic is not the line of its span.
`diagnostic_lines` says by how much the two differ: by the newlines between the beginning of
the construct and the part.
-/

namespace Decaf

/-- The line of a text that an offset is on. -/
def lineIn (source : String) (offset : Nat) : Nat :=
  (Lines.ofChars source.toList).lineOf offset

variable {source : String} {n : Node} {d : Diagnostic}

/-- An operator is applied where its left operand begins. -/
theorem Node.Joined.start_eq {p : Place} {t : Option Ty} {op : BinaryOp} {l r : Expr}
    (h : (Node.expr (.binary p t op l r)).Joined)
    (hsound : (Node.expr (.binary p t op l r)).Sound source) :
    l.span.start = p.span.start := by
  have hspan : p.span = l.span.merge r.span := h
  have horder : [Node.expr l, .expr r].Pairwise fun a b => a.span.stop ≤ b.span.start :=
    hsound.inOrder _ List.mem_cons_self
  have hle : l.span.stop ≤ r.span.start := List.rel_of_pairwise_cons horder List.mem_cons_self
  have hlt : l.span.start < l.span.stop := (hsound.proper (.expr l) List.mem_cons_self).lt
  rw [hspan]
  show l.span.start = min l.span.start r.span.start
  omega

/-- A complaint about a sound node points at its beginning, or at a late part inside it. -/
theorem Node.Blamed.start {mistake : Mistake} {span : Span} (h : n.Blamed mistake span)
    (hsound : n.Sound source) (hjoined : n.Joined) :
    (span.start = n.span.start ∨ ∃ e ∈ n.late, span = e.span) ∧ n.span.start ≤ span.start := by
  rcases h.cases with (hspan | hspan) | ⟨p, t, op, l, r, rfl, hspan⟩ | ⟨e, he, hspan⟩
  · rw [hspan]
    exact ⟨.inl rfl, Nat.le_refl _⟩
  · rw [hspan]
    exact ⟨.inl rfl, Nat.le_refl _⟩
  · have hstart := hjoined.start_eq hsound
    rw [hspan]
    exact ⟨.inl hstart, Nat.le_of_eq hstart.symm⟩
  · rw [hspan]
    exact ⟨.inr ⟨e, he, rfl⟩, (hsound.inside _ (Node.late_child he)).1⟩

/-- Every diagnostic about a text is a mistake in a construct of the program, worded for and
reported on the line on which this construct begins. It points at the beginning of the
construct, or at a part that does not begin it. Its span begins as many lines further down as
there are newlines between the beginning of the construct and the span, so it begins on the
line of the diagnostic exactly if there are none. -/
theorem diagnostic_lines (how : Presentation) (file source : String) (checked : Checked)
    (h : (checkText how file source).verdict = .ok checked) :
    ∃ p, parse source = .ok p ∧ ∀ d ∈ checked.errors.toList,
      ∃ n mistake, (Node.program p).Has n ∧ n.Blamed mistake d.span ∧
        d = mistake.onLine (lineIn source n.span.start) d.span ∧
        (d.span.start = n.span.start ∨ ∃ e ∈ n.late, d.span = e.span) ∧
        n.span.start ≤ d.span.start ∧
        lineIn source d.span.start =
          d.line + (Lines.between n.span.start d.span.start source.toList).count '\n' := by
  rcases @checkText_lieIn source how file with ⟨p, hp, hverdict⟩ | ⟨fault, -, hfault, -⟩
  · cases h.symm.trans hverdict
    refine ⟨p, hp, fun d hd => ?_⟩
    obtain ⟨n, mistake, hn, hblamed, hd⟩ := checkProgram_about hp d hd
    have hsound := parse_allSound hp n hn
    have hline : n.place.line = lineIn source n.span.start :=
      hsound.line.trans (Lines.lineOf_eq _ _).symm
    rw [hline] at hd
    obtain ⟨hstart, hle⟩ := hblamed.start hsound (parse_allJoined hp n hn)
    refine ⟨n, mistake, hn, hblamed, hd, hstart, hle, ?_⟩
    have hreported : d.line = lineIn source n.span.start := congrArg Diagnostic.line hd
    rw [hreported]
    exact Lines.lineOf_between source.toList hle
  · cases h.symm.trans hfault

/-- An operator between two lines, with an operand of the wrong type on each. -/
def splitOperands : String :=
  "int main() \x7b\n  return true +\n    false;\n\x7d"

/-- Both operands are reported on the line of the left one, the line on which the operator is
applied. -/
theorem splitOperands_lines :
    ∃ checked, (checkText .default "a.decaf" splitOperands).verdict = .ok checked ∧
      checked.errors.toList.map (fun d => (d.line, lineIn splitOperands d.span.start)) =
        [(2, 2), (2, 3)] ∧
      ∀ d ∈ checked.errors.toList, ∃ start, d.line = lineIn splitOperands start ∧
        lineIn splitOperands d.span.start =
          d.line + (Lines.between start d.span.start splitOperands.toList).count '\n' := by
  have heval : ((checkText .default "a.decaf" splitOperands).verdict.toOption.map fun checked =>
      checked.errors.toList.map fun d => (d.line, lineIn splitOperands d.span.start)) =
      some [(2, 2), (2, 3)] := by
    decide +kernel
  cases hverdict : (checkText .default "a.decaf" splitOperands).verdict with
  | error fault =>
    rw [hverdict] at heval
    cases heval
  | ok checked =>
    rw [hverdict] at heval
    refine ⟨checked, rfl, Option.some.inj heval, fun d hd => ?_⟩
    obtain ⟨p, -, hlines⟩ := diagnostic_lines .default "a.decaf" splitOperands checked hverdict
    obtain ⟨n, mistake, -, -, hmistake, -, -, hline⟩ := hlines d hd
    exact ⟨n.span.start, congrArg Diagnostic.line hmistake, hline⟩

/-- A condition that stands on the line behind its `if`. -/
def splitCondition : String :=
  "int main() \x7b\n  if (\n1) \x7b \x7d\n  return 0;\n\x7d"

/-- The condition is reported on the line of the `if`, not on the line on which it stands. -/
theorem splitCondition_line :
    ∃ checked d, (checkText .default "a.decaf" splitCondition).verdict = .ok checked ∧
      checked.errors.toList = [d] ∧
      d = Mistake.condition.onLine 2 ⟨20, 21⟩ ∧ lineIn splitCondition d.span.start = 3 := by
  have heval : ((checkText .default "a.decaf" splitCondition).verdict.toOption.map fun checked =>
      checked.errors.toList) = some [Mistake.condition.onLine 2 ⟨20, 21⟩] := by
    decide +kernel
  cases hverdict : (checkText .default "a.decaf" splitCondition).verdict with
  | error fault =>
    rw [hverdict] at heval
    cases heval
  | ok checked =>
    rw [hverdict] at heval
    exact ⟨checked, _, rfl, Option.some.inj heval, rfl, by decide +kernel⟩

end Decaf
