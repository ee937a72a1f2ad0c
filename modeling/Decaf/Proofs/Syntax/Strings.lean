import Mathlib.Data.List.TakeWhile
import Decaf.Proofs.Syntax.LiteralTokens
import Decaf.Proofs.Syntax.Literals
import Decaf.Proofs.Syntax.Printed

/-!
# String literals

A value is written as a string literal by escaping backslashes, quotes, newlines and tabs and
putting quotes around it. The literal ends where it should, whatever text follows, and means
the value again.

Conversely the literals that a text can hold mean something exactly if every escape in them
is known. Where an escape begins can be told without reading from the front: at a backslash
with an even number of backslashes directly before it, since these escape one another in
pairs (`StartsEscape`). That this is where `unescape` finds its escapes goes by its
recursion, which takes either one plain character off the front or a backslash and what it
escapes; neither changes the parity further on.
-/

namespace Decaf

open Grammar Scan

/-! ## Where escapes begin -/

/-- The number of backslashes at the end of a text. -/
def backslashes (cs : List Char) : Nat :=
  (cs.reverse.takeWhile (· == '\\')).length

/-- At this position a backslash stands, and directly before it an even number of them. -/
def StartsEscape (cs : List Char) (i : Nat) : Prop :=
  cs[i]? = some '\\' ∧ backslashes (cs.take i) % 2 = 0

theorem backslashes_cons (c : Char) (cs : List Char) :
    backslashes (c :: cs) =
      if cs.all (· == '\\') then cs.length + (if c = '\\' then 1 else 0) else backslashes cs := by
  have hlength : (cs.reverse.takeWhile (· == '\\')).length = cs.reverse.length ↔
      cs.all (· == '\\') := by
    rw [← List.all_reverse, List.all_eq_true]
    constructor
    · intro h c hc
      have hwhole := (List.takeWhile_prefix (p := (· == '\\')) (l := cs.reverse)).eq_of_length h
      rw [← hwhole] at hc
      exact List.mem_takeWhile_imp (p := (· == '\\')) hc
    · intro h
      rw [List.takeWhile_eq_self_iff.mpr h]
  unfold backslashes
  rw [List.reverse_cons, List.takeWhile_append]
  by_cases hall : cs.all (· == '\\')
  · rw [if_pos (hlength.mpr hall), if_pos hall, List.length_append, List.length_reverse]
    by_cases hc : c = '\\'
    · rw [if_pos hc, hc]
      rfl
    · rw [if_neg hc, List.takeWhile_cons_of_neg (by rw [beq_iff_eq]; exact hc)]
      rfl
  · rw [if_neg (fun h => hall (hlength.mp h)), if_neg hall]

/-- If there is nothing else, all of them are at the end. -/
theorem backslashes_of_all {cs : List Char} (h : cs.all (· == '\\')) :
    backslashes cs = cs.length := by
  rw [← List.all_reverse, List.all_eq_true] at h
  rw [backslashes, List.takeWhile_eq_self_iff.mpr h, List.length_reverse]

theorem startsEscape_zero {c : Char} {cs : List Char} : StartsEscape (c :: cs) 0 ↔ c = '\\' := by
  constructor
  · exact fun h => Option.some.inj h.1
  · rintro rfl
    exact ⟨rfl, rfl⟩

/-- Another character in front changes nothing. -/
theorem startsEscape_plain {c : Char} {cs : List Char} {i : Nat} (hc : c ≠ '\\') :
    StartsEscape (c :: cs) (i + 1) ↔ StartsEscape cs i := by
  have hsame : backslashes ((c :: cs).take (i + 1)) = backslashes (cs.take i) := by
    rw [List.take_succ_cons, backslashes_cons, if_neg hc]
    split
    · next hall => rw [backslashes_of_all hall, Nat.add_zero]
    · rfl
  rw [StartsEscape, hsame]
  rfl

/-- What a backslash escapes does not begin an escape. -/
theorem not_startsEscape_one (cs : List Char) : ¬ StartsEscape ('\\' :: cs) 1 := by
  intro h
  cases cs with
  | nil => cases h.1
  | cons c cs =>
    have hone : backslashes ['\\'] % 2 = 0 := h.2
    exact absurd hone (by decide)

/-- Nor does an escape in front change anything. -/
theorem startsEscape_escape {c : Char} {cs : List Char} {i : Nat} :
    StartsEscape ('\\' :: c :: cs) (i + 2) ↔ StartsEscape cs i := by
  have hparity :
      backslashes (('\\' :: c :: cs).take (i + 2)) % 2 = backslashes (cs.take i) % 2 := by
    rw [List.take_succ_cons, List.take_succ_cons, backslashes_cons, backslashes_cons,
      List.all_cons]
    by_cases hall : (cs.take i).all (· == '\\')
    · rw [backslashes_of_all hall, hall, Bool.and_true, if_pos rfl, if_pos rfl, List.length_cons]
      by_cases hc : c = '\\'
      · rw [if_pos (beq_iff_eq.mpr hc)]
        omega
      · rw [if_neg (by rw [beq_iff_eq]; exact hc), if_neg hc, Nat.add_zero]
    · rw [Bool.not_eq_true] at hall
      rw [hall, Bool.and_false]
      rfl
  rw [StartsEscape, hparity]
  rfl

/-- Every escape is one of a newline, a tab, a backslash or a quote. -/
def EscapesKnown (cs : List Char) : Prop :=
  ∀ i, StartsEscape cs i → ∃ c ∈ ['n', 't', '\\', '"'], cs[i + 1]? = some c

theorem escaped?_isSome_iff {c : Char} :
    (∃ d, escaped? c = some d) ↔ c ∈ ['n', 't', '\\', '"'] := by
  simp only [escaped?_eq_some_iff, List.mem_cons, List.not_mem_nil, or_false]
  constructor
  · rintro ⟨d, _ | _ | _ | _⟩ <;> simp
  · rintro (rfl | rfl | rfl | rfl)
    · exact ⟨_, .newline⟩
    · exact ⟨_, .tab⟩
    · exact ⟨_, .backslash⟩
    · exact ⟨_, .quote⟩

theorem escapesKnown_plain {c : Char} {cs : List Char} (hc : c ≠ '\\') :
    EscapesKnown (c :: cs) ↔ EscapesKnown cs := by
  constructor
  · intro h i hi
    exact h (i + 1) ((startsEscape_plain hc).mpr hi)
  · intro h i hi
    cases i with
    | zero => exact absurd (startsEscape_zero.mp hi) hc
    | succ i => exact h i ((startsEscape_plain hc).mp hi)

theorem escapesKnown_escape {c : Char} {cs : List Char} :
    EscapesKnown ('\\' :: c :: cs) ↔ (∃ d, escaped? c = some d) ∧ EscapesKnown cs := by
  rw [escaped?_isSome_iff]
  constructor
  · intro h
    refine ⟨?_, fun i hi => h (i + 2) (startsEscape_escape.mpr hi)⟩
    obtain ⟨d, hd, hc⟩ := h 0 (startsEscape_zero.mpr rfl)
    cases hc
    exact hd
  · rintro ⟨hc, h⟩ i hi
    cases i with
    | zero => exact ⟨c, hc, rfl⟩
    | succ i =>
      cases i with
      | zero => exact absurd hi (not_startsEscape_one _)
      | succ i => exact h i (startsEscape_escape.mp hi)

/-- The escapes of a text can be resolved if they are known, and only then. -/
theorem exists_unescape_iff (cs : List Char) : (∃ v, unescape cs = .ok v) ↔ EscapesKnown cs := by
  have hmap : ∀ (d : Char) (rest : List Char),
      (∃ v, (unescape rest).map (d :: ·) = .ok v) ↔ ∃ v, unescape rest = .ok v := by
    intro d rest
    cases unescape rest with
    | error e => constructor <;> rintro ⟨_, ⟨⟩⟩
    | ok v => exact ⟨fun _ => ⟨v, rfl⟩, fun _ => ⟨d :: v, rfl⟩⟩
  fun_induction unescape cs with
  | case1 => exact ⟨fun _ i hi => (by cases hi.1), fun _ => ⟨[], rfl⟩⟩
  | case2 =>
    constructor
    · rintro ⟨_, ⟨⟩⟩
    · intro h
      obtain ⟨c, -, hc⟩ := h 0 (startsEscape_zero.mpr rfl)
      cases hc
  | case3 c cs d hd ih =>
    refine (hmap d cs).trans (ih.trans ?_)
    rw [escapesKnown_escape]
    exact ⟨fun h => ⟨⟨d, hd⟩, h⟩, And.right⟩
  | case4 c cs hnone =>
    rw [escapesKnown_escape, hnone]
    constructor
    · rintro ⟨_, ⟨⟩⟩
    · rintro ⟨⟨_, ⟨⟩⟩, _⟩
  | case5 c cs h₁ h₂ ih =>
    have hc : c ≠ '\\' := by
      rintro rfl
      cases cs with
      | nil => exact h₁ rfl rfl
      | cons d ds => exact h₂ d ds rfl rfl
    exact (hmap c cs).trans (ih.trans (escapesKnown_plain hc).symm)

/-! ## Writing values -/

/-- A value as a string literal: escaped, between quotes. -/
def quotedText (v : String) : String :=
  String.ofList ('"' :: escape v.toList ++ ['"'])

theorem toList_quotedText (v : String) :
    (quotedText v).toList = '"' :: escape v.toList ++ ['"'] :=
  String.toList_ofList

/-- The value of a literal is drawn from what stands between its quotes. -/
theorem stringValue_eq {text : String} {items : List Char}
    (h : text.toList = '"' :: items ++ ['"']) :
    stringValue text = (unescape items).map String.ofList := by
  have hcontent : (text.toList.drop 1).dropLast = items := by
    rw [h]
    exact List.dropLast_concat
  rw [stringValue, hcontent]

theorem stringValue_quotedText (v : String) : stringValue (quotedText v) = .ok v := by
  rw [stringValue_eq (toList_quotedText v), (spells_escape v.toList).unescape_eq]
  exact congrArg Except.ok String.ofList_toList

theorem fronts_quotedText (v : String) (rest : List Char) :
    Fronts (.stringLiteral (quotedText v)) ((quotedText v).toList ++ rest) rest :=
  fronts_string (toList_quotedText v) (stringItems_escape v.toList) rest

/-- String literals round-trip. A value that is written as a literal is read, whatever text
follows, as one token that covers exactly this text, and this token is taken for the value.
A literal that some text holds has its quotes around it, and it has a value exactly if every
backslash in it that begins an escape has one of `n`, `t`, a backslash or a quote behind it;
writing this value as a literal again keeps it. -/
theorem strings_roundTrip :
    (∀ (v : String) (lexer : Lexer) (rest : List Char), lexer.peeked = none →
      lexer.rest = (quotedText v).toList ++ rest →
      ∃ t, lexer.next = (.ok t, lexer.skip rest (quotedText v).utf8ByteSize) ∧
        t.kind = .stringLiteral (quotedText v) ∧
        t.span = ⟨lexer.offset, lexer.offset + (quotedText v).utf8ByteSize⟩ ∧
        ∀ r tokens, Parser.primary r (t :: tokens) = do
          r.reach tokens
          return ⟨.literal (r.place t.span) none (.str v), tokens, Parsed.tail_lt t tokens⟩) ∧
    ∀ (source : String) (n : Nat) (t : Token) (text : String),
      .ok t ∈ (Lexer.ofSource source).answers n → t.kind = .stringLiteral text →
      ∃ items, text.toList = '"' :: items ++ ['"'] ∧
        ((∃ v, stringValue text = .ok v) ↔
          ∀ i, StartsEscape items i → ∃ c ∈ ['n', 't', '\\', '"'], items[i + 1]? = some c) ∧
        ∀ v, stringValue text = .ok v → stringValue (quotedText v) = .ok v := by
  constructor
  · intro v lexer rest hpeeked hrest
    have hnext := Lexer.next_fronts hpeeked (hrest ▸ fronts_quotedText v rest)
    have hbytes : byteLength (Token.Kind.stringLiteral (quotedText v)).spelling.toList =
        (quotedText v).utf8ByteSize := byteLength_toList (quotedText v)
    rw [hbytes] at hnext
    have hliteral : ∀ span, Parser.literal? ⟨.stringLiteral (quotedText v), span⟩ =
        some (.ok (.str v)) := by
      intro span
      simp only [Parser.literal?, stringValue_quotedText]
    exact ⟨_, hnext, rfl, rfl, fun r tokens => Parser.primary_of_literal r (hliteral _)⟩
  · intro source n t text ht hkind
    have hspelled := Lexer.answers_wellSpelled n _ rfl ht
    rw [hkind] at hspelled
    rcases hspelled with hend | ⟨items, htext, -⟩
    · cases hend
    refine ⟨items, htext, ?_, fun v _ => stringValue_quotedText v⟩
    rw [stringValue_eq htext]
    refine Iff.trans ?_ (exists_unescape_iff items)
    cases unescape items with
    | error e => constructor <;> rintro ⟨_, ⟨⟩⟩
    | ok v => exact ⟨fun _ => ⟨v, rfl⟩, fun _ => ⟨String.ofList v, rfl⟩⟩

/-- A backslash, a quote, a carriage return and a letter of two bytes, with one more quote
behind the literal; and a literal in which the last of three backslashes begins an escape that
means nothing. -/
theorem backslashRuns_roundTrip :
    quotedText "\\\"\ré" = "\"\\\\\\\"\ré\"" ∧
    (∃ t, (Lexer.ofSource "\"\\\\\\\"\ré\"\"x").next.1 = .ok t ∧ t.span = ⟨0, 9⟩ ∧
      ∀ r, Parser.primary r [t] = do
        r.reach []
        return ⟨.literal (r.place t.span) none (.str "\\\"\ré"), [], Parsed.tail_lt t []⟩) ∧
    ¬ ∃ v, stringValue "\"\\\\\\q\"" = .ok v := by
  have hquoted : quotedText "\\\"\ré" = "\"\\\\\\\"\ré\"" := by decide
  refine ⟨hquoted, ?_, ?_⟩
  · obtain ⟨t, hnext, -, hspan, hprimary⟩ := strings_roundTrip.1 "\\\"\ré"
      (.ofSource "\"\\\\\\\"\ré\"\"x") ['"', 'x'] rfl (by rw [hquoted]; decide)
    refine ⟨t, congrArg Prod.fst hnext, ?_, fun r => hprimary r []⟩
    rw [hspan, hquoted]
    rfl
  · obtain ⟨items, hitems, hvalue, -⟩ := strings_roundTrip.2 "\"\\\\\\q\"" 1
      ⟨.stringLiteral "\"\\\\\\q\"", ⟨0, 6⟩⟩ _ (by decide +kernel) rfl
    have hcontent : items = ['\\', '\\', '\\', 'q'] :=
      List.append_cancel_right (List.cons.inj hitems.symm).2
    rw [hvalue, hcontent]
    intro h
    obtain ⟨c, hc, hnext⟩ := h 2 ⟨rfl, rfl⟩
    cases hnext
    exact absurd hc (by decide)

end Decaf
