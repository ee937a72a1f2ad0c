import Decaf.Proofs.Token.Coverage

/-!
# Where tokens and unreadable spots stand

The tokens of a text follow one another: each is a stretch of characters that is not empty,
and it begins behind the one before it (`Stream.ofSource_in`). The end of the tokens and
the unreadable spot that they may stop at lie in the text as well, and so does every answer
of a reader that goes on after unreadable spots (`Lexer.answers_lieIn`).
-/

namespace Decaf

/-! ## Spans in a text -/

/-- A span that lies inside a text, and begins and ends between characters of it. -/
structure Span.LiesIn (source : String) (span : Span) : Prop where
  start_le : span.start ≤ span.stop
  stop_le : span.stop ≤ source.utf8ByteSize
  start : String.Pos.Raw.IsValid source ⟨span.start⟩
  stop : String.Pos.Raw.IsValid source ⟨span.stop⟩

/-- A stretch of characters of a text that is not empty. -/
structure Span.Proper (source : String) (span : Span) : Prop where
  lt : span.start < span.stop
  start : String.Pos.Raw.IsValid source ⟨span.start⟩
  stop : String.Pos.Raw.IsValid source ⟨span.stop⟩

namespace Span

variable {source : String} {span : Span}

/-- A stretch that is not empty lies in the text. -/
theorem Proper.liesIn (h : span.Proper source) : span.LiesIn source :=
  ⟨Nat.le_of_lt h.lt, h.stop.le_utf8ByteSize, h.start, h.stop⟩

theorem liesIn_point {offset : Nat} (h : String.Pos.Raw.IsValid source ⟨offset⟩) :
    (point offset).LiesIn source :=
  ⟨Nat.le_refl _, h.le_utf8ByteSize, h, h⟩

/-- Characters between others are a stretch of the text, counted in bytes. -/
theorem proper_of_append {a m b : List Char} (h : source.toList = a ++ m ++ b) (hm : m ≠ []) :
    Proper source ⟨byteLength a, byteLength a + byteLength m⟩ := by
  have hmarks := marks_of_append h
  have hpos := byteLength_pos hm
  exact ⟨by show byteLength a < byteLength a + byteLength m; omega, hmarks.start, hmarks.stop⟩

end Span

/-- Tokens that follow one another in a text, from an offset on. -/
def TokenRow (source : String) : Nat → List Token → Prop
  | _, [] => True
  | offset, t :: tokens =>
    offset ≤ t.span.start ∧ t.span.Proper source ∧ TokenRow source t.span.stop tokens

/-! ## Pieces -/

/-- A piece spans characters of the text that it is part of. -/
theorem Piece.Stands.proper {source : String} {before rest : List Char} {p : Piece}
    (hp : p.Stands (byteLength before)) (h : source.toList = before ++ (p.gap ++ p.slice ++ rest)) :
    (Answer.span p.answer).Proper source := by
  have happend : source.toList = (before ++ p.gap) ++ p.slice ++ rest := by
    rw [h]
    simp only [List.append_assoc]
  have hproper := Span.proper_of_append happend hp.slice
  rwa [byteLength_append, ← hp.span] at hproper

/-! ## Streams -/

namespace Stream

open Scan

/-- A scan as one step of a reader: the lexeme behind the gap is a token, or the scan ends there. -/
theorem scan_lexeme (offset : Nat) {text cs : List Char} {c : Char}
    (h : (splitGap false text).2 = c :: cs) :
    scan offset text =
      match Token.ofLexeme (offset + byteLength (splitGap false text).1) (lexeme c cs) with
      | .error e => ⟨[], offset + byteLength (splitGap false text).1, some e⟩
      | .ok t => (scan (offset + byteLength (splitGap false text).1 +
          byteLength (lexeme c cs).slice) (lexeme c cs).rest).prepend t := by
  rw [scan]
  dsimp only
  split
  · next hnil => cases h.symm.trans hnil
  · next c' cs' hc =>
    cases h.symm.trans hc
    rfl

/-- What was read of a text lies in it: the tokens follow one another, and the offset after
the last of them and the unreadable spot stand between characters. -/
structure In (source : String) (offset : Nat) (stream : Stream) : Prop where
  row : TokenRow source offset stream.tokens
  size : String.Pos.Raw.IsValid source ⟨stream.size⟩
  fault : ∀ e, stream.fault = some e → e.span.Proper source

/-- From any place in a text, the tokens that are scanned are stretches of it in order. -/
theorem scan_in {source : String} (before text : List Char) (h : source.toList = before ++ text) :
    In source (byteLength before) (scan (byteLength before) text) := by
  have hsplit := splitGap_append false text
  cases hrest : (splitGap false text).2 with
  | nil =>
    -- nothing but a gap is left, and the text ends behind it
    rw [hrest, List.append_nil] at hsplit
    rw [scan_nil hrest, hsplit, ← byteLength_append]
    refine ⟨trivial, isValid_of_append (b := []) ?_, fun e he => by cases he⟩
    rw [List.append_nil, h]
  | cons c cs =>
    have hgap := gap_splitGap text
    rw [hrest] at hgap hsplit
    have hstands := Piece.stands_lexeme hgap (byteLength before)
    have hcut : text = (splitGap false text).1 ++ (lexeme c cs).slice ++ (lexeme c cs).rest := by
      rw [List.append_assoc, lexeme_append, hsplit]
    have hproper := hstands.proper (h.trans (congrArg (before ++ ·) hcut))
    have hlt : (lexeme c cs).rest.length < text.length := by
      have hlength := congrArg List.length hsplit
      have hless := lexeme_rest_length c cs
      rw [List.length_append, List.length_cons] at hlength
      omega
    rw [scan_lexeme _ hrest]
    cases hread : Token.ofLexeme (byteLength before + byteLength (splitGap false text).1)
        (lexeme c cs) with
    | error e =>
      -- the tokens stop in front of the unreadable spot
      dsimp only at hproper
      rw [hread] at hproper
      refine ⟨trivial, ?_, fun e' he => ?_⟩
      · rw [← byteLength_append]
        refine isValid_of_append (b := c :: cs) ?_
        rw [h, List.append_assoc, hsplit]
      · cases he
        exact hproper
    | ok t =>
      have hspan := hstands.span
      dsimp only at hproper hspan
      rw [hread] at hproper hspan
      have hrow : source.toList =
          before ++ (splitGap false text).1 ++ (lexeme c cs).slice ++ (lexeme c cs).rest := by
        rw [h, List.append_assoc, List.append_assoc, ← List.append_assoc (splitGap false text).1,
          ← hcut]
      have hafter := scan_in _ _ hrow
      rw [byteLength_append, byteLength_append] at hafter
      have hstop : t.span.stop = byteLength before + byteLength (splitGap false text).1 +
          byteLength (lexeme c cs).slice := congrArg Span.stop hspan
      refine ⟨⟨?_, hproper, ?_⟩, hafter.size, hafter.fault⟩
      · have hstart : t.span.start = byteLength before + byteLength (splitGap false text).1 :=
          congrArg Span.start hspan
        omega
      · rw [hstop]
        exact hafter.row
termination_by text.length

/-- The tokens of a text are stretches of it in order. -/
theorem ofSource_in (source : String) : In source 0 (ofSource source) :=
  scan_in [] source.toList rfl

end Stream

/-! ## Calls -/

namespace Lexer

/-- Every answer of a reader lies in the text, also behind unreadable spots. -/
theorem answers_lieIn {source : String} (n : Nat) (lexer : Lexer) (before : List Char)
    (hpeeked : lexer.peeked = none) (h : source.toList = before ++ lexer.rest)
    (hoffset : lexer.offset = byteLength before) :
    ∀ a ∈ lexer.answers n, (Answer.span a).LiesIn source := by
  induction n generalizing lexer before with
  | zero =>
    intro a ha
    cases ha
  | succ n ih =>
    intro a ha
    rw [answers] at ha
    rcases next_cases hpeeked with ⟨-, hnext⟩ | ⟨p, rest, hrest, hstands, hnext⟩
    · rw [hnext] at ha
      rcases List.mem_cons.mp ha with rfl | ha
      · refine Span.liesIn_point ?_
        rw [hoffset, ← byteLength_append]
        exact isValid_of_append (b := []) (by rw [List.append_nil, h])
      · refine ih (lexer.skip [] (byteLength lexer.rest)) (before ++ lexer.rest) hpeeked ?_ ?_ a ha
        · exact h.trans (List.append_nil _).symm
        · rw [byteLength_append, ← hoffset]
          rfl
    · rw [hnext] at ha
      rw [hrest] at h
      rcases List.mem_cons.mp ha with rfl | ha
      · rw [hoffset] at hstands
        exact (hstands.proper h).liesIn
      · refine ih (lexer.skip rest (byteLength p.gap + byteLength p.slice))
          (before ++ (p.gap ++ p.slice)) hpeeked ?_ ?_ a ha
        · exact h.trans (List.append_assoc _ _ _).symm
        · rw [byteLength_append, byteLength_append, ← hoffset]
          rfl

end Lexer

end Decaf
