import Decaf.CommandLine.Run
import Decaf.Proofs.Check.Messages
import Decaf.Proofs.Check.WellFormed

/-!
# Presentation does not change the verdict

How a check is presented decides what is dumped, in which style diagnostics are shown and what
is logged. Only one of these choices gets near the verdict: to dump the tokens all of them are
read first, so that an unreadable spot ends the check before the parser looks at the text.
But the parser does not accept a text with an unreadable spot either, and it complains about
one only where there is one. So the same texts pass, with the same diagnostics, and the others
fail; only the fault that is named can differ, and only if there is an unreadable spot.

An unreadable spot is the first of a text if a reader that is asked for one token after the
other answers with tokens before it (`Lexer.Stumbles`).
-/

namespace Decaf

/-! ## The first unreadable spot -/

/-- The first answer of a reader that is no token. -/
def Lexer.Stumbles (lexer : Lexer) (e : LexicalError) : Prop :=
  ∃ tokens : List Token, lexer.answers (tokens.length + 1) = tokens.map .ok ++ [.error e]

section Stumbles

open Scan Lexer

variable {lexer after : Lexer} {e : LexicalError}

/-- A reader that has come to the end does not come upon an unreadable spot. -/
theorem not_stumbles_of_ended {n : Nat} (h : lexer.next = (.ok (.ending n), after))
    (hpeeked : after.peeked = none) (hrest : after.rest = []) : ¬ lexer.Stumbles e := by
  rintro ⟨tokens, hanswers⟩
  have hmem : .error e ∈ lexer.answers (tokens.length + 1) := by
    rw [hanswers]
    exact List.mem_append_right _ List.mem_cons_self
  rw [answers, h, answers_ended after hpeeked hrest] at hmem
  rcases List.mem_cons.mp hmem with hmem | hmem
  · cases hmem
  · cases (List.mem_replicate.mp hmem).2

theorem stumbles_of_error {f : LexicalError} (h : lexer.next = (.error f, after)) :
    lexer.Stumbles e ↔ f = e := by
  constructor
  · rintro ⟨tokens, hanswers⟩
    rw [answers, h] at hanswers
    cases tokens with
    | nil =>
      cases hanswers
      rfl
    | cons t tokens => cases hanswers
  · rintro rfl
    exact ⟨[], by rw [List.length_nil, answers, h]; rfl⟩

/-- A token that is read leaves the first unreadable spot to be found behind it. -/
theorem stumbles_of_ok {t : Token} (h : lexer.next = (.ok t, after)) :
    lexer.Stumbles e ↔ after.Stumbles e := by
  constructor
  · rintro ⟨tokens, hanswers⟩
    rw [answers, h] at hanswers
    cases tokens with
    | nil => cases hanswers
    | cons t' tokens => exact ⟨tokens, (List.cons.inj hanswers).2⟩
  · rintro ⟨tokens, hanswers⟩
    refine ⟨t :: tokens, ?_⟩
    rw [List.length_cons, answers, h, hanswers]
    rfl

/-- The tokens that are read at once stop at the first unreadable spot. -/
theorem stumbles_iff_fault (lexer : Lexer) (h : lexer.peeked = none) :
    lexer.Stumbles e ↔ (Stream.scan lexer.offset lexer.rest).fault = some e := by
  cases hrest : (splitGap false lexer.rest).2 with
  | nil =>
    rw [Stream.scan_nil hrest]
    have hnot := not_stumbles_of_ended (e := e) (next_of_gap h hrest) h rfl
    exact ⟨fun hs => absurd hs hnot, fun hs => by cases hs⟩
  | cons c cs =>
    have hnext := next_of_lexeme h hrest
    rw [Stream.scan_lexeme lexer.offset hrest]
    cases hlexeme : Token.ofLexeme (lexer.offset + byteLength (splitGap false lexer.rest).1)
      (lexeme c cs) with
    | error f =>
      rw [hlexeme] at hnext
      rw [stumbles_of_error hnext]
      exact Option.some_inj.symm
    | ok t =>
      rw [hlexeme] at hnext
      have hlt : (lexeme c cs).rest.length < lexer.rest.length := by
        have h₁ := splitGap_rest_length false lexer.rest
        have h₂ := lexeme_rest_length c cs
        rw [hrest, List.length_cons] at h₁
        omega
      have hafter := stumbles_iff_fault (lexer.skip (lexeme c cs).rest
        (byteLength (splitGap false lexer.rest).1 + byteLength (lexeme c cs).slice)) h
      rw [stumbles_of_ok hnext, hafter, Nat.add_assoc]
      rfl
termination_by lexer.rest.length

/-- Splitting a text fails with its first unreadable spot, if it has one. -/
theorem tokenize_eq_error_iff {source : String} :
    tokenize source = .error e ↔ (Lexer.ofSource source).Stumbles e := by
  rw [stumbles_iff_fault _ rfl]
  constructor
  · exact tokenize_eq_error
  · intro hfault
    rw [tokenize, Stream.toExcept, show (Stream.ofSource source).fault = some e from hfault]

end Stumbles

/-! ## Verdicts -/

section Verdicts

variable {source : String}

/-- The verdict of a run is that of the check on what was read. -/
theorem run_verdict_eq (how : Presentation) (file : String) :
    (run how file source).verdict =
      (readProgram how source).map fun p => (checkProgram p).errors := by
  unfold run checkText
  cases readProgram how source <;> rfl

/-- A program that is read is checked, however the check is presented. -/
theorem run_verdict_of_ok {p : Program} (h : parse source = .ok p) (how : Presentation)
    (file : String) : (run how file source).verdict = .ok (checkProgram p).errors := by
  rw [run_verdict_eq, readProgram_eq_ok h how]
  rfl

/-- If the tokens are dumped, the first unreadable spot ends the check. -/
theorem run_verdict_of_stumbles {e : LexicalError} (h : (Lexer.ofSource source).Stumbles e)
    {how : Presentation} (hdump : how.dumpTokens = true) (file : String) :
    (run how file source).verdict = .error e.fault := by
  rw [run_verdict_eq, readProgram.eq_def, hdump, tokenize_eq_error_iff.mpr h]
  rfl

/-- Otherwise the first complaint of the parser does. -/
theorem run_verdict_of_error {e : ParseError} (h : parse source = .error e) {how : Presentation}
    (hread : how.dumpTokens = false ∨ ∀ f, ¬ (Lexer.ofSource source).Stumbles f) (file : String) :
    (run how file source).verdict = .error e.fault := by
  rw [run_verdict_eq, readProgram.eq_def, h]
  rcases hread with hdump | hread
  · rw [hdump]
    rfl
  · cases htokens : tokenize source with
    | error f => exact absurd (tokenize_eq_error_iff.mp htokens) (hread f)
    | ok tokens => cases how.dumpTokens <;> rfl

/-- A text that cannot be read fails, however it is presented. -/
theorem run_verdict_of_error_exists {e : ParseError} (h : parse source = .error e)
    (how : Presentation) (file : String) :
    ∃ fault, (run how file source).verdict = .error fault := by
  by_cases hread : how.dumpTokens = false ∨ ∀ f, ¬ (Lexer.ofSource source).Stumbles f
  · exact ⟨e.fault, run_verdict_of_error h hread file⟩
  · obtain ⟨hdump, hstumbles⟩ := not_or.mp hread
    obtain ⟨f, hf⟩ := not_forall_not.mp hstumbles
    exact ⟨f.fault, run_verdict_of_stumbles hf (Bool.eq_true_of_not_eq_false hdump) file⟩

/-- Two checks of one text that do not pass name the same fault, unless there is an unreadable
spot and the tokens are dumped in one of them only. -/
theorem run_faults {e : ParseError} (h : parse source = .error e) (how how' : Presentation)
    (file file' : String) :
    (run how file source).verdict = (run how' file' source).verdict ∨
    how.dumpTokens ≠ how'.dumpTokens ∧ ∃ f, (Lexer.ofSource source).Stumbles f := by
  by_cases hstumbles : ∃ f, (Lexer.ofSource source).Stumbles f
  · by_cases hsame : how.dumpTokens = how'.dumpTokens
    · left
      rw [run_verdict_eq, run_verdict_eq, readProgram.eq_def, readProgram.eq_def, hsame]
    · exact .inr ⟨hsame, hstumbles⟩
  · have hread := not_exists.mp hstumbles
    left
    rw [run_verdict_of_error h (.inr hread), run_verdict_of_error h (.inr hread)]

end Verdicts

/-! ## What is printed -/

/-- Whether nothing of it goes to the standard output. -/
def Output.quiet : Output → Bool
  | .out _ => false
  | _ => true

/-- The messages that a check comes to. -/
def Session.messages (s : Session ErrorList) : List String :=
  match s.verdict with
  | .ok errors => errors.messages
  | .error _ => []

section Printed

variable {xs ys : List Output} {how : Presentation} {file source : String}

theorem printed_append : printed (xs ++ ys) = printed xs ++ printed ys := by
  rw [printed, List.map_append, String.join_append]
  rfl

/-- Texts are printed in order. -/
theorem printed_cons (x : Output) : printed (x :: xs) = printed [x] ++ printed xs :=
  @printed_append [x] xs

/-- Nothing is printed by what goes elsewhere. -/
theorem printed_of_quiet (h : ∀ x ∈ xs, x.quiet = true) : printed xs = "" := by
  induction xs with
  | nil => rfl
  | cons x xs ih =>
    rw [printed_cons, ih fun y hy => h y (List.mem_cons_of_mem x hy)]
    cases x with
    | out text => cases h _ List.mem_cons_self
    | err text => rfl
    | event e => rfl

theorem events_quiet (events : List Event) : ∀ x ∈ events.map Output.event, x.quiet = true :=
  List.forall_mem_map.mpr fun _ _ => rfl

/-- What comes of reading a text, dumped tokens included, goes elsewhere. -/
theorem readingOutput_quiet : ∀ x ∈ readingOutput how file source, x.quiet = true := by
  unfold readingOutput
  split
  · exact fun x hx => absurd hx List.not_mem_nil
  · exact List.forall_mem_cons.mpr ⟨rfl, List.forall_mem_singleton.mpr rfl⟩
  · exact List.forall_mem_singleton.mpr rfl

theorem dump_quiet {dumps : Bool} {x : Output} (h : x.quiet = true) :
    ∀ y ∈ (if dumps = true then [x] else []), y.quiet = true := by
  cases dumps with
  | false => exact fun y hy => absurd hy List.not_mem_nil
  | true => exact List.forall_mem_singleton.mpr h

/-- What comes of checking a program, dumped trees and tables included, goes elsewhere. -/
theorem checkingOutput_quiet (p : Program) :
    ∀ x ∈ checkingOutput how file p, x.quiet = true := by
  unfold checkingOutput
  simp only [List.forall_mem_append, List.forall_mem_singleton]
  exact ⟨⟨⟨⟨⟨dump_quiet rfl, rfl⟩, events_quiet _⟩, dump_quiet rfl⟩, rfl⟩, events_quiet _⟩

/-- A check by itself prints nothing: its dumps and its faults go elsewhere. -/
theorem checkText_quiet : ∀ x ∈ (checkText how file source).output, x.quiet = true := by
  unfold checkText
  cases readProgram how source with
  | error fault =>
    refine List.forall_mem_append.mpr ⟨readingOutput_quiet, ?_⟩
    exact List.forall_mem_cons.mpr ⟨rfl, List.forall_mem_singleton.mpr rfl⟩
  | ok p => exact List.forall_mem_append.mpr ⟨readingOutput_quiet, checkingOutput_quiet p⟩

/-- In plain style each diagnostic is printed as its message and a line break. -/
theorem printed_diagnostics (hplain : how.plain = true) (snippets : Snippet.Source)
    (ds : List Diagnostic) :
    printed (ds.map (showDiagnostic how snippets)) =
      String.join (ds.map fun d => d.message ++ "\n") := by
  rw [printed, List.map_map]
  refine congrArg String.join (List.map_congr_left fun d _ => ?_)
  rw [Function.comp_apply, showDiagnostic, if_pos hplain]

/-- A plain run prints its messages, one on each line, and nothing else. -/
theorem run_stdout (hplain : how.plain = true) :
    (run how file source).stdout =
      String.join ((run how file source).messages.map (· ++ "\n")) := by
  have hquiet := printed_of_quiet (@checkText_quiet how file source)
  show printed (run how file source).output = _
  unfold run
  dsimp only
  cases (checkText how file source).verdict with
  | error fault => exact hquiet
  | ok checked =>
    show printed (_ ++ _ ++ [_]) = String.join (checked.errors.messages.map (· ++ "\n"))
    rw [printed_append, printed_append, hquiet, printed_diagnostics hplain, ErrorList.messages,
      List.map_map, String.empty_append]
    exact String.append_empty

/-- The messages of a run are those of the mistakes that the check lists. -/
theorem run_messages_of_ok {p : Program} (h : parse source = .ok p) :
    (run how file source).messages = (checkProgram p).errors.messages := by
  rw [Session.messages, run_verdict_of_ok h how file]

/-- Every message of a run is a single line. -/
theorem run_messages_oneLine : ∀ m ∈ (run how file source).messages, OneLine m := by
  cases hp : parse source with
  | ok p =>
    rw [run_messages_of_ok hp]
    exact checkProgram_oneLine hp
  | error e =>
    obtain ⟨fault, hfault⟩ := run_verdict_of_error_exists hp how file
    rw [Session.messages, hfault]
    exact fun m hm => absurd hm List.not_mem_nil

end Printed

/-! ## The command -/

namespace CommandLine

variable {source : String} (o : Options) (terminal : Bool)

/-- A text is decoded from its own bytes. -/
theorem decode_toUTF8 (source : String) : decode (.ok source.toUTF8) = .ok source := by
  have hread : String.fromUTF8? source.toUTF8 = some source := dif_pos source.isValidUTF8
  rw [decode, hread]

/-- Checking a file with the bytes of a text is checking the text. -/
theorem checkFile_toUTF8 (how : Presentation) (file source : String) :
    checkFile how file (.ok source.toUTF8) = run how file source := by
  rw [checkFile, decode_toUTF8]

/-- Leaving log entries out changes nothing in what is printed. -/
theorem printed_filter_shown (verbose : Bool) (xs : List Output) :
    printed (xs.filter (shown verbose)) = printed xs := by
  induction xs with
  | nil => rfl
  | cons x xs ih =>
    rw [printed_cons, List.filter_cons]
    split
    · rw [printed_cons, ih]
    next hhidden =>
      -- only events are hidden
      cases x with
      | event e => rw [ih]; exact String.empty_append.symm
      | out text => exact absurd rfl hhidden
      | err text => exact absurd rfl hhidden

/-- The command prints what the check of its file prints. -/
theorem check_stdout (source : String) :
    (check o terminal (.ok source.toUTF8)).stdout =
      (run (o.presentation terminal) o.input source).stdout := by
  have hfilter := printed_filter_shown o.verbose
    (run (o.presentation terminal) o.input source).output
  show printed (check o terminal (.ok source.toUTF8)).output =
    printed (run (o.presentation terminal) o.input source).output
  unfold check
  dsimp only
  rw [checkFile_toUTF8]
  cases (run (o.presentation terminal) o.input source).verdict with
  | error fault =>
    show printed (_ ++ [.err _]) = _
    rw [printed_append, hfilter]
    exact String.append_empty
  | ok errors =>
    dsimp only
    split
    · exact hfilter
    · show printed (_ ++ [.err _]) = _
      rw [printed_append, hfilter]
      exact String.append_empty

/-- The status that a text leads to. -/
def status (source : String) : Nat :=
  match parse source with
  | .ok p => if (checkProgram p).errors.isEmpty then 0 else 1
  | .error _ => 1

/-- A run succeeds exactly if the text is read and no mistake is found in it. -/
theorem status_eq_zero_iff (source : String) :
    status source = 0 ↔ ∃ p, parse source = .ok p ∧ (checkProgram p).errors.isEmpty := by
  unfold status
  cases parse source with
  | error e =>
    constructor
    · intro hzero
      cases hzero
    · rintro ⟨p, hp, -⟩
      cases hp
  | ok p =>
    dsimp only
    by_cases hempty : (checkProgram p).errors.isEmpty = true
    · rw [if_pos hempty]
      exact ⟨fun _ => ⟨p, rfl, hempty⟩, fun _ => rfl⟩
    · rw [if_neg hempty]
      refine ⟨fun hzero => (by cases hzero), ?_⟩
      rintro ⟨q, hq, hq'⟩
      cases hq
      exact absurd hq' hempty

/-- The status of the command is decided by the text alone. -/
theorem check_code (source : String) :
    (check o terminal (.ok source.toUTF8)).code = status source := by
  unfold check status
  dsimp only
  rw [checkFile_toUTF8]
  cases hp : parse source with
  | ok p =>
    rw [run_verdict_of_ok hp]
    dsimp only
    split <;> rfl
  | error e =>
    obtain ⟨fault, hfault⟩ := run_verdict_of_error_exists hp (o.presentation terminal) o.input
    rw [hfault]

end CommandLine

/-- However two checks of a text are presented, both pass with the same diagnostics, those of
the program that the text is read as, or both fail. They fail with the same fault, unless there
is an unreadable spot and the tokens are dumped in one of them only: where they are dumped, the
fault is the first unreadable spot, and otherwise it is what the parser complains about. The
status of the command is the same for all options, and it is zero exactly if the text is read
as a program in which nothing is wrong. In plain style the messages are printed in order, each
of them on a line of its own, and nothing else is printed. -/
theorem presentation_keeps_verdict (source : String) :
    (∀ how how' file file',
      (∃ p, parse source = .ok p ∧ (run how file source).verdict = .ok (checkProgram p).errors ∧
        (run how' file' source).verdict = .ok (checkProgram p).errors) ∨
      ∃ fault fault', (run how file source).verdict = .error fault ∧
        (run how' file' source).verdict = .error fault' ∧
        (fault = fault' ∨ how.dumpTokens ≠ how'.dumpTokens ∧
          ∃ e, (Lexer.ofSource source).Stumbles e)) ∧
    (∀ e, (Lexer.ofSource source).Stumbles e → ∀ how file, how.dumpTokens = true →
      (run how file source).verdict = .error e.fault) ∧
    (∀ e, parse source = .error e → ∀ how file,
      how.dumpTokens = false ∨ (∀ f, ¬ (Lexer.ofSource source).Stumbles f) →
      (run how file source).verdict = .error e.fault) ∧
    (∃ code, (∀ o terminal, (CommandLine.check o terminal (.ok source.toUTF8)).code = code) ∧
      (code = 0 ↔ ∃ p, parse source = .ok p ∧ (checkProgram p).errors.isEmpty)) ∧
    (∀ how file, how.plain = true → (run how file source).stdout =
      String.join ((run how file source).messages.map (· ++ "\n"))) ∧
    (∀ how file, ∀ m ∈ (run how file source).messages, OneLine m) ∧
    ∀ o terminal, (CommandLine.check o terminal (.ok source.toUTF8)).stdout =
      (run (o.presentation terminal) o.input source).stdout := by
  refine ⟨fun how how' file file' => ?_, fun e he how file hdump => ?_,
    fun e he how file hread => ?_, ?_, fun how file => ?_, fun how file => ?_,
    fun o terminal => ?_⟩
  · cases hp : parse source with
    | ok p => exact .inl ⟨p, rfl, run_verdict_of_ok hp how file, run_verdict_of_ok hp how' file'⟩
    | error e =>
      obtain ⟨fault, hfault⟩ := run_verdict_of_error_exists hp how file
      obtain ⟨fault', hfault'⟩ := run_verdict_of_error_exists hp how' file'
      refine .inr ⟨fault, fault', hfault, hfault', ?_⟩
      refine (run_faults hp how how' file file').imp (fun hsame => ?_) id
      exact Except.error.inj (hfault.symm.trans (hsame.trans hfault'))
  · exact run_verdict_of_stumbles he hdump file
  · exact run_verdict_of_error he hread file
  · exact ⟨_, fun o terminal => CommandLine.check_code o terminal source,
      CommandLine.status_eq_zero_iff source⟩
  · exact run_stdout
  · exact run_messages_oneLine
  · exact CommandLine.check_stdout o terminal source

/-- A sign where a name should be, and an unreadable spot further behind. -/
def misplacedSign : String :=
  "int + x @"

/-- The parser stops at the sign. If the tokens are dumped, the unreadable spot comes first.
The command fails either way. -/
theorem misplacedSign_faults :
    parse misplacedSign = .error (.unexpected .identifier ⟨.sign .plus, ⟨4, 5⟩⟩) ∧
    (∀ how file, how.dumpTokens = true → (run how file misplacedSign).verdict =
      .error (.lexer "unexpected character '@'" ⟨8, 9⟩)) ∧
    ∀ o terminal, (CommandLine.check o terminal (.ok misplacedSign.toUTF8)).code ≠ 0 := by
  have hparse : parse misplacedSign = .error (.unexpected .identifier ⟨.sign .plus, ⟨4, 5⟩⟩) :=
    eq_error_of_map (by decide +kernel)
  have hstumbles : (Lexer.ofSource misplacedSign).Stumbles ⟨"@", ⟨8, 9⟩⟩ :=
    tokenize_eq_error_iff.mp (by decide +kernel)
  obtain ⟨-, hdump, -, ⟨code, hcode, hzero⟩, -⟩ := presentation_keeps_verdict misplacedSign
  refine ⟨hparse, hdump _ hstumbles, fun o terminal h => ?_⟩
  obtain ⟨p, hp, -⟩ := hzero.mp ((hcode o terminal).symm.trans h)
  cases hp.symm.trans hparse

end Decaf
