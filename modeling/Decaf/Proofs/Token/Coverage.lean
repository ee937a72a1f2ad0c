import Mathlib.Data.String.Basic
import Decaf.Proofs.Token.Spelled

/-!
# Reading loses nothing

A reader that is asked for one token after the other, and goes on after unreadable spots,
divides its text into pieces: a gap of blanks and comments, and behind it the slice of a
token or of an unreadable spot. After the last piece comes one more gap, and from there on
the answer is the end of the file (`Lexer.answers_cover_source`).

One call gives one piece (`Lexer.next_cases`), and by induction on what is left of the text
a run gives all of them (`Lexer.exists_pieces`). Where a piece stands is the number of bytes
before it (`Laid`); that the spans lie on characters of the text, do not overlap and come in
order is read off that.
-/

namespace Decaf

/-! ## Bytes -/

/-- Bytes are counted as the library counts them. -/
theorem byteLength_eq_utf8Len (cs : List Char) : byteLength cs = String.utf8Len cs := by
  induction cs with
  | nil => rfl
  | cons c cs ih => rw [byteLength_cons, String.utf8Len_cons, ih, Nat.add_comm]

theorem byteLength_toList (s : String) : byteLength s.toList = s.utf8ByteSize := by
  rw [byteLength_eq_utf8Len, String.utf8Len_toList]

theorem byteLength_pos {cs : List Char} (h : cs ≠ []) : 0 < byteLength cs := by
  cases cs with
  | nil => exact absurd rfl h
  | cons c cs =>
    have hc := c.utf8Size_pos
    rw [byteLength_cons]
    omega

/-- A span begins and ends between characters of a source, and `text` is what it holds. -/
structure Span.Marks (source : String) (span : Span) (text : String) : Prop where
  start : String.Pos.Raw.IsValid source ⟨span.start⟩
  stop : String.Pos.Raw.IsValid source ⟨span.stop⟩
  holds : String.Pos.Raw.extract source ⟨span.start⟩ ⟨span.stop⟩ = text

/-- The place behind some characters of a text lies between characters of it. -/
theorem isValid_of_append {source : String} {a b : List Char} (h : source.toList = a ++ b) :
    String.Pos.Raw.IsValid source ⟨byteLength a⟩ := by
  rw [String.Pos.Raw.isValid_iff_exists_append]
  refine ⟨String.ofList a, String.ofList b, ?_, ?_⟩
  · rw [← String.ofList_append, ← h, String.ofList_toList]
  · rw [String.rawEndPos_ofList, byteLength_eq_utf8Len]

/-- A span over characters of a text, counted in bytes, holds these characters. -/
theorem Span.marks_of_append {source : String} {a m b : List Char}
    (h : source.toList = a ++ m ++ b) :
    Span.Marks source ⟨byteLength a, byteLength a + byteLength m⟩ (String.ofList m) where
  start := isValid_of_append (by rw [h, List.append_assoc])
  stop := by
    rw [← byteLength_append]
    exact isValid_of_append h
  holds := by
    rw [← source.ofList_toList, h, byteLength_eq_utf8Len, byteLength_eq_utf8Len]
    exact String.extract_of_valid a m b

/-! ## Gaps -/

namespace Scan

/-- `Gap g rest`: before `rest`, `g` is made of blanks and of comments. A comment runs to
the next newline, or to the end if there is none. -/
inductive Gap : List Char → List Char → Prop
  | nil {rest : List Char} : Gap [] rest
  | blank {c : Char} {g rest : List Char} :
    c = ' ' ∨ c = '\t' ∨ c = '\n' ∨ c = '\r' ∨ c = '\x0c' → Gap g rest → Gap (c :: g) rest
  | comment {text g rest : List Char} :
    '\n' ∉ text → Gap g rest → Gap ('/' :: '/' :: (text ++ '\n' :: g)) rest
  | last {text : List Char} : '\n' ∉ text → Gap ('/' :: '/' :: text) []

/-- Of what comes behind a gap it matters only that there is something. -/
theorem Gap.before {g rest rest' : List Char} (h : Gap g rest) (hrest : rest ≠ []) :
    Gap g rest' := by
  induction h with
  | nil => exact .nil
  | blank hc _ ih => exact .blank hc (ih hrest)
  | comment hno _ ih => exact .comment hno (ih hrest)
  | last _ => exact absurd rfl hrest

/-- An open comment takes everything up to the newline, and after it the gap goes on. -/
theorem splitGap_comment (cs : List Char) :
    ∃ text, '\n' ∉ text ∧ ((cs = text ∧ splitGap true cs = (text, [])) ∨
      ∃ after, cs = text ++ '\n' :: after ∧
        splitGap true cs =
          (text ++ '\n' :: (splitGap false after).1, (splitGap false after).2)) := by
  induction cs with
  | nil => exact ⟨[], List.not_mem_nil, .inl ⟨rfl, rfl⟩⟩
  | cons c cs ih =>
    have hstep : splitGap true (c :: cs) =
        (c :: (splitGap (c != '\n') cs).1, (splitGap (c != '\n') cs).2) := rfl
    by_cases hc : c = '\n'
    · subst hc
      exact ⟨[], List.not_mem_nil, .inr ⟨cs, rfl, hstep⟩⟩
    · have hopen : (c != '\n') = true := bne_iff_ne.mpr hc
      rw [hopen] at hstep
      obtain ⟨text, hno, hcase⟩ := ih
      refine ⟨c :: text, ?_, ?_⟩
      · intro hm
        rcases List.mem_cons.mp hm with he | hm
        · exact hc he.symm
        · exact hno hm
      · rcases hcase with ⟨rfl, hsplit⟩ | ⟨after, rfl, hsplit⟩
        · left
          rw [hstep, hsplit]
          exact ⟨rfl, rfl⟩
        · right
          refine ⟨after, rfl, ?_⟩
          rw [hstep, hsplit]
          rfl

/-- What is divided off the front of a text is a gap before what is left. -/
theorem gap_splitGap (cs : List Char) : Gap (splitGap false cs).1 (splitGap false cs).2 := by
  cases cs with
  | nil => exact .nil
  | cons c cs =>
    unfold splitGap
    by_cases hb : isBlank c
    · rw [if_pos hb]
      exact .blank (isBlank_iff.mp hb) (gap_splitGap cs)
    · rw [if_neg hb]
      split
      next hslash =>
        -- two slashes: the second one is the first character of the open comment
        obtain ⟨hc, hhead⟩ := (Bool.and_eq_true _ _).mp hslash
        have hc := eq_of_beq hc
        obtain ⟨cs', rfl⟩ : ∃ cs', cs = '/' :: cs' := by
          cases cs with
          | nil => cases hhead
          | cons d cs' => exact ⟨cs', by rw [Option.some.inj (eq_of_beq hhead)]⟩
        subst hc
        show Gap ('/' :: '/' :: (splitGap true cs').1) (splitGap true cs').2
        obtain ⟨text, hno, ⟨_, hsplit⟩ | ⟨after, hcs, hsplit⟩⟩ := splitGap_comment cs'
        · rw [hsplit]
          exact .last hno
        · have hlt : after.length < cs'.length := by
            rw [hcs, List.length_append, List.length_cons]
            omega
          rw [hsplit]
          exact .comment hno (gap_splitGap after)
      next => exact .nil
termination_by cs.length

end Scan

/-! ## Pieces -/

/-- What a call of `next` answers. -/
abbrev Answer : Type := Except LexicalError Token

/-- The span of a token or of an unreadable spot. -/
def Answer.span : Answer → Span
  | .ok t => t.span
  | .error e => e.span

/-- The text of a token or of an unreadable spot. -/
def Answer.text : Answer → String
  | .ok t => t.kind.spelling
  | .error e => e.slice

/-- A gap, the slice behind it, and what is answered for the slice. -/
structure Piece where
  gap : List Char
  slice : List Char
  answer : Answer

/-- The characters of pieces, one after the other. -/
def Piece.chars (pieces : List Piece) : List Char :=
  pieces.flatMap fun p => p.gap ++ p.slice

theorem Piece.chars_cons (p : Piece) (ps : List Piece) :
    Piece.chars (p :: ps) = p.gap ++ p.slice ++ Piece.chars ps :=
  List.flatMap_cons

theorem Piece.chars_append (ps qs : List Piece) :
    Piece.chars (ps ++ qs) = Piece.chars ps ++ Piece.chars qs :=
  List.flatMap_append

/-- A piece that begins at an offset: a gap, and a slice that is not empty, which the answer
names and spans. The end of the file is no such answer. -/
structure Piece.Stands (offset : Nat) (p : Piece) : Prop where
  gap : Scan.Gap p.gap p.slice
  slice : p.slice ≠ []
  span : Answer.span p.answer =
    ⟨offset + byteLength p.gap, offset + byteLength p.gap + byteLength p.slice⟩
  text : Answer.text p.answer = String.ofList p.slice
  kind : ∀ t, p.answer = .ok t → t.kind ≠ .endOfFile

/-- Pieces that follow one another from an offset on. -/
def Laid : Nat → List Piece → Prop
  | _, [] => True
  | offset, p :: ps =>
    p.Stands offset ∧ Laid (offset + byteLength p.gap + byteLength p.slice) ps

/-- A piece stands behind the bytes of the pieces before it. -/
theorem Laid.append {offset : Nat} {ps : List Piece} {p : Piece} {qs : List Piece}
    (h : Laid offset (ps ++ p :: qs)) : p.Stands (offset + byteLength (Piece.chars ps)) := by
  induction ps generalizing offset with
  | nil => exact h.1
  | cons q ps ih =>
    have hoffset : offset + byteLength (Piece.chars (q :: ps)) =
        offset + byteLength q.gap + byteLength q.slice + byteLength (Piece.chars ps) := by
      rw [Piece.chars_cons, byteLength_append, byteLength_append]
      omega
    rw [hoffset]
    exact ih h.2

/-- What is laid from an offset on lies behind it. -/
theorem Laid.offset_le {offset : Nat} {ps : List Piece} (h : Laid offset ps) {p : Piece}
    (hp : p ∈ ps) : offset ≤ (Answer.span p.answer).start := by
  obtain ⟨before, after, rfl⟩ := List.append_of_mem hp
  rw [h.append.span]
  show offset ≤ offset + byteLength (Piece.chars before) + byteLength p.gap
  omega

/-- Pieces come in order and do not overlap. -/
theorem Laid.pairwise {offset : Nat} {ps : List Piece} (h : Laid offset ps) :
    ps.Pairwise fun p q => (Answer.span p.answer).stop ≤ (Answer.span q.answer).start := by
  induction ps generalizing offset with
  | nil => exact .nil
  | cons p ps ih =>
    refine .cons (fun q hq => ?_) (ih h.2)
    rw [h.1.span]
    exact h.2.offset_le hq

/-- In a text that begins with the pieces, every piece spans its slice. -/
theorem Laid.marks {source : String} {ps : List Piece} {last : List Char} (h : Laid 0 ps)
    (hsource : source.toList = Piece.chars ps ++ last) {p : Piece} (hp : p ∈ ps) :
    (Answer.span p.answer).start < (Answer.span p.answer).stop ∧
      Span.Marks source (Answer.span p.answer) (String.ofList p.slice) := by
  obtain ⟨before, after, rfl⟩ := List.append_of_mem hp
  have hstands := h.append
  have hchars : source.toList =
      (Piece.chars before ++ p.gap) ++ p.slice ++ (Piece.chars after ++ last) := by
    rw [hsource, Piece.chars_append, Piece.chars_cons]
    simp only [List.append_assoc]
  have hmarks := Span.marks_of_append hchars
  rw [byteLength_append] at hmarks
  have hpos := byteLength_pos hstands.slice
  rw [hstands.span, Nat.zero_add]
  refine ⟨?_, hmarks⟩
  show byteLength (Piece.chars before) + byteLength p.gap <
    byteLength (Piece.chars before) + byteLength p.gap + byteLength p.slice
  omega

/-- The piece that a lexeme makes with the gap before it. -/
theorem Piece.stands_lexeme {g : List Char} {c : Char} {cs : List Char} (hg : Scan.Gap g (c :: cs))
    (offset : Nat) :
    Piece.Stands offset ⟨g, (Scan.lexeme c cs).slice,
      Token.ofLexeme (offset + byteLength g) (Scan.lexeme c cs)⟩ := by
  have hne := Scan.lexeme_slice_ne_nil c cs
  have hgap : Scan.Gap g (Scan.lexeme c cs).slice := hg.before (List.cons_ne_nil c cs)
  unfold Token.ofLexeme
  cases hk : (Scan.lexeme c cs).kind with
  | none => exact ⟨hgap, hne, rfl, rfl, fun t ht => by cases ht⟩
  | some k =>
    obtain ⟨hspelled, hspelling⟩ := Scan.lexeme_spelled hk
    refine ⟨hgap, hne, rfl, ?_, fun t ht he => ?_⟩
    · show k.spelling = _
      rw [← hspelling, String.ofList_toList]
    · cases ht
      change k = .endOfFile at he
      rw [he] at hspelled
      exact hspelled

/-! ## Calls -/

namespace Lexer

open Scan

/-- What a reader answers to `n` calls of `next`. -/
def answers (lexer : Lexer) : Nat → List Answer
  | 0 => []
  | n + 1 => lexer.next.1 :: lexer.next.2.answers n

/-- The reader after a stretch of its text. -/
def skip (lexer : Lexer) (rest : List Char) (bytes : Nat) : Lexer :=
  { lexer with rest := rest, offset := lexer.offset + bytes }

/-- If only a gap is left, the answer is the end of the file, and the gap is used up. -/
theorem next_of_gap {lexer : Lexer} (h : lexer.peeked = none)
    (hrest : (splitGap false lexer.rest).2 = []) :
    lexer.next = (.ok (.ending (lexer.offset + byteLength lexer.rest)),
      lexer.skip [] (byteLength lexer.rest)) := by
  have hall := splitGap_append false lexer.rest
  rw [hrest, List.append_nil] at hall
  unfold next read
  rw [h]
  dsimp only
  rw [hrest, hall]
  simp only [skip, h]

/-- Otherwise the answer is the lexeme behind the gap, and both are used up. -/
theorem next_of_lexeme {lexer : Lexer} (h : lexer.peeked = none) {c : Char} {cs : List Char}
    (hrest : (splitGap false lexer.rest).2 = c :: cs) :
    lexer.next =
      (Token.ofLexeme (lexer.offset + byteLength (splitGap false lexer.rest).1) (lexeme c cs),
        lexer.skip (lexeme c cs).rest
          (byteLength (splitGap false lexer.rest).1 + byteLength (lexeme c cs).slice)) := by
  unfold next read
  rw [h]
  dsimp only
  rw [hrest]
  simp only [skip, h, Nat.add_assoc]

/-- A call reads a piece, or there is nothing but a gap left and it is the end of the file. -/
theorem next_cases {lexer : Lexer} (h : lexer.peeked = none) :
    (Gap lexer.rest [] ∧
      lexer.next = (.ok (.ending (lexer.offset + byteLength lexer.rest)),
        lexer.skip [] (byteLength lexer.rest))) ∨
    ∃ (p : Piece) (rest : List Char), lexer.rest = p.gap ++ p.slice ++ rest ∧
      p.Stands lexer.offset ∧
      lexer.next = (p.answer, lexer.skip rest (byteLength p.gap + byteLength p.slice)) := by
  have hgap := gap_splitGap lexer.rest
  have hall := splitGap_append false lexer.rest
  cases hrest : (splitGap false lexer.rest).2 with
  | nil =>
    left
    rw [hrest] at hgap hall
    rw [List.append_nil] at hall
    rw [hall] at hgap
    exact ⟨hgap, next_of_gap h hrest⟩
  | cons c cs =>
    right
    rw [hrest] at hgap hall
    refine ⟨⟨(splitGap false lexer.rest).1, (lexeme c cs).slice, Token.ofLexeme
      (lexer.offset + byteLength (splitGap false lexer.rest).1) (lexeme c cs)⟩,
      (lexeme c cs).rest, ?_, Piece.stands_lexeme hgap lexer.offset, next_of_lexeme h hrest⟩
    rw [List.append_assoc, lexeme_append, hall]

/-- Once nothing is left, every call answers with the end of the file. -/
theorem answers_ended (lexer : Lexer) (h : lexer.peeked = none) (hrest : lexer.rest = [])
    (n : Nat) : lexer.answers n = List.replicate n (.ok (.ending lexer.offset)) := by
  have hnext : lexer.next = (.ok (.ending lexer.offset), lexer) := by
    obtain ⟨source, rest, offset, peeked⟩ := lexer
    subst hrest
    exact next_of_gap h rfl
  induction n with
  | zero => rfl
  | succ n ih =>
    rw [answers, hnext, ih]
    rfl

/-- A reader divides what is left of its text into pieces and a last gap, and answers with
the pieces and then with the end of the file. -/
theorem exists_pieces (lexer : Lexer) (h : lexer.peeked = none) :
    ∃ (pieces : List Piece) (last : List Char), lexer.rest = Piece.chars pieces ++ last ∧
      Laid lexer.offset pieces ∧ Gap last [] ∧
      ∀ n, lexer.answers (pieces.length + n) = pieces.map (·.answer) ++
        List.replicate n (.ok (.ending (lexer.offset + byteLength lexer.rest))) := by
  rcases next_cases h with ⟨hgap, hnext⟩ | ⟨p, rest, hrest, hstands, hnext⟩
  · refine ⟨[], lexer.rest, rfl, trivial, hgap, fun n => ?_⟩
    show lexer.answers (0 + n) = _
    rw [Nat.zero_add]
    cases n with
    | zero => rfl
    | succ n =>
      have hended := answers_ended (lexer.skip [] (byteLength lexer.rest)) h rfl n
      rw [answers, hnext, hended]
      rfl
  · have hlt : rest.length < lexer.rest.length := by
      have hpos := List.length_pos_iff.mpr hstands.slice
      rw [hrest, List.length_append, List.length_append]
      omega
    obtain ⟨pieces, last, hpieces, hlaid, hgap, hanswers⟩ :=
      exists_pieces (lexer.skip rest (byteLength p.gap + byteLength p.slice)) h
    change rest = Piece.chars pieces ++ last at hpieces
    refine ⟨p :: pieces, last, ?_, ⟨hstands, ?_⟩, hgap, fun n => ?_⟩
    · rw [hrest, hpieces, Piece.chars_cons, List.append_assoc _ (Piece.chars pieces)]
    · rw [Nat.add_assoc]
      exact hlaid
    · -- the first answer is the piece's, the others are those of the reader behind it
      have hbytes : lexer.offset + byteLength lexer.rest =
          lexer.offset + (byteLength p.gap + byteLength p.slice) + byteLength rest := by
        rw [hrest, byteLength_append, byteLength_append]
        omega
      have hlength : (p :: pieces).length + n = pieces.length + n + 1 := by
        rw [List.length_cons]
        omega
      rw [hlength, answers, hnext, hbytes]
      exact congrArg (p.answer :: ·) (hanswers n)
termination_by lexer.rest.length

/-- Reading loses nothing and comes to an end. The text is made of pieces and a last gap.
The calls answer with the pieces, in order, and then with the end of the file at the end of
the text, for ever. Each piece is a gap and a slice that is not empty; the answer to it is a
token that is spelled like the slice, or an unreadable spot with that slice. The spans of
the answers hold the slices, lie on characters of the text, and follow one another. -/
theorem answers_cover_source (source : String) :
    ∃ (pieces : List Piece) (last : List Char),
      Piece.chars pieces ++ last = source.toList ∧ Laid 0 pieces ∧ Gap last [] ∧
      (∀ n, (ofSource source).answers (pieces.length + n) = pieces.map (·.answer) ++
        List.replicate n (.ok ⟨.endOfFile, ⟨source.utf8ByteSize, source.utf8ByteSize⟩⟩)) ∧
      (pieces.Pairwise fun p q => (Answer.span p.answer).stop ≤ (Answer.span q.answer).start) ∧
      ∀ p ∈ pieces, (Answer.span p.answer).start < (Answer.span p.answer).stop ∧
        (Answer.span p.answer).stop ≤ source.utf8ByteSize ∧
        Span.Marks source (Answer.span p.answer) (String.ofList p.slice) := by
  obtain ⟨pieces, last, hsource, hlaid, hgap, hanswers⟩ := exists_pieces (ofSource source) rfl
  change source.toList = Piece.chars pieces ++ last at hsource
  change Laid 0 pieces at hlaid
  refine ⟨pieces, last, hsource.symm, hlaid, hgap, fun n => ?_, hlaid.pairwise, fun p hp => ?_⟩
  · have hsize : (ofSource source).offset + byteLength (ofSource source).rest =
        source.utf8ByteSize := by
      show 0 + byteLength source.toList = _
      rw [Nat.zero_add, byteLength_toList]
    rw [hanswers n, hsize]
    rfl
  · obtain ⟨hpos, hmarks⟩ := hlaid.marks hsource hp
    exact ⟨hpos, hmarks.stop.le_utf8ByteSize, hmarks⟩

end Lexer

end Decaf
