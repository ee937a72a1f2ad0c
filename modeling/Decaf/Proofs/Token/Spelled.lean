import Decaf.Token.Lexer

/-!
# Lexemes and the kinds they are read as

A kind of token is well spelled if its text follows the pattern of its class:
names, decimal and hexadecimal digits, quoted strings. Every kind the lexer reads
is well spelled, and its spelling is the slice that was read (`lexeme_spelled`).
Conversely the spelling of such a kind, with a blank or nothing behind it, is read
back as that kind (`fronts_spelling`).

The steps of the stream follow: what stands at the front of a text, after any
blanks, is its first token (`scan_fronts`), and all tokens are well spelled
(`scan_wellSpelled`).
-/

namespace Decaf

open Scan

/-- A letter or underscore, and any number of letters, digits and underscores. -/
def isWord : List Char → Bool
  | [] => false
  | c :: cs => isWordStart c && cs.all isWordPart

/-- A name: a word that is not reserved. -/
def IsName (text : String) : Prop :=
  isWord text.toList ∧ ∀ w : Keyword, w.spelling ≠ text

/-- The list of keywords is complete. -/
theorem Keyword.mem_all (w : Keyword) : w ∈ Keyword.all := by
  cases w <;> decide

instance (text : String) : Decidable (IsName text) :=
  decidable_of_iff (isWord text.toList ∧ ∀ w ∈ Keyword.all, w.spelling ≠ text)
    ⟨fun h => ⟨h.1, fun w => h.2 w w.mem_all⟩, fun h => ⟨h.1, fun w _ => h.2 w⟩⟩

/-- What may stand between the quotes of a string literal: characters other than
quotes, backslashes and newlines, and backslashes before any character but a
newline. -/
inductive StringItems : List Char → Prop
  | nil : StringItems []
  | plain {c : Char} {cs : List Char} :
    c ≠ '"' → c ≠ '\\' → c ≠ '\n' → StringItems cs → StringItems (c :: cs)
  | escape {c : Char} {cs : List Char} :
    c ≠ '\n' → StringItems cs → StringItems ('\\' :: c :: cs)

namespace Token.Kind

/-- The text of a token follows the pattern of its class. The end of the file has
no text and is no part of one. -/
def WellSpelled : Kind → Prop
  | word _ => True
  | identifier text => IsName text
  | decLiteral text => text.toList ≠ [] ∧ ∀ d ∈ text.toList, d.isDigit
  | hexLiteral text => ∃ x d ds, text.toList = '0' :: x :: d :: ds ∧ (x = 'x' ∨ x = 'X') ∧
    ∀ h ∈ d :: ds, isHexDigit h
  | stringLiteral text => ∃ items, text.toList = '"' :: items ++ ['"'] ∧ StringItems items
  | sign _ => True
  | endOfFile => False

end Token.Kind

namespace Scan

/-! ## What is read is well spelled -/

/-- What is split off as the text of a string consists of plain characters and escapes. -/
theorem stringItems_splitItems (cs : List Char) : StringItems (splitItems cs).1 := by
  fun_induction splitItems cs with
  | case1 => exact .nil
  | case2 c cs hc r ih => exact .escape hc ih
  | case3 => exact .nil
  | case4 c cs _ hc r ih =>
    rw [not_or, not_or] at hc
    exact .plain hc.1 hc.2.1 hc.2.2 ih
  | case5 => exact .nil

/-- A word is spelled as it was read, whether it is a keyword or a name. -/
theorem wordKind_spelling (text : String) : (wordKind text).spelling = text := by
  unfold wordKind
  split
  · next w hw => exact eq_of_beq (List.find?_some (p := fun w : Keyword => w.spelling == text) hw)
  · rfl

/-- A word is read as a keyword, or as a name that is none. -/
theorem wellSpelled_wordKind {text : String} (ht : isWord text.toList) :
    (wordKind text).WellSpelled := by
  unfold wordKind
  split
  · exact trivial
  · next hw =>
    refine ⟨ht, fun w he => ?_⟩
    have hno := List.find?_eq_none.mp hw w w.mem_all
    exact hno (beq_iff_eq.mpr he)

/-- A sign of one character is spelled with that character. -/
theorem single?_spelling {c : Char} {s : Sign} (h : Sign.single? c = some s) :
    s.spelling.toList = [c] := by
  unfold Sign.single? at h
  split at h <;> cases h <;> rfl

theorem pair?_spelling {c d : Char} {s : Sign} (h : Sign.pair? c d = some s) :
    s.spelling.toList = [c, d] := by
  unfold Sign.pair? at h
  split at h <;> cases h <;> rfl

theorem single_spelled {c : Char} {cs : List Char} {k : Token.Kind}
    (h : (single c cs).kind = some k) :
    k.WellSpelled ∧ k.spelling.toList = (single c cs).slice := by
  obtain ⟨s, hs, rfl⟩ := Option.map_eq_some_iff.mp h
  exact ⟨trivial, single?_spelling hs⟩

/-- A sign is the slice that was read, one character or two. -/
theorem sign_spelled {c : Char} {cs : List Char} {k : Token.Kind}
    (h : (sign c cs).kind = some k) :
    k.WellSpelled ∧ k.spelling.toList = (sign c cs).slice := by
  unfold sign at h ⊢
  cases cs with
  | nil => exact single_spelled h
  | cons d ds =>
    dsimp only at h ⊢
    cases hp : Sign.pair? c d with
    | none =>
      rw [hp] at h
      exact single_spelled h
    | some s =>
      rw [hp] at h
      cases h
      exact ⟨trivial, pair?_spelling hp⟩

/-- A digit always begins a number, which takes all digits that follow. -/
theorem decimal_spelled {c : Char} (cs : List Char) (hc : c.isDigit) :
    ∃ k, (decimal c cs).kind = some k ∧ k.WellSpelled ∧
      k.spelling.toList = (decimal c cs).slice := by
  refine ⟨_, rfl, ⟨by simp, ?_⟩, String.toList_ofList⟩
  intro d hd
  rw [String.toList_ofList] at hd
  rcases List.mem_cons.mp hd with rfl | hd
  · exact hc
  · exact List.all_eq_true.mp List.all_takeWhile d hd

/-- A digit always begins a number, decimal or hexadecimal. -/
theorem number_spelled {c : Char} (cs : List Char) (hc : c.isDigit) :
    ∃ k, (number c cs).kind = some k ∧ k.WellSpelled ∧ k.spelling.toList = (number c cs).slice := by
  unfold number
  split
  · next x d ds =>
    split
    · next h =>
      obtain ⟨rfl, hx, hd⟩ := h
      refine ⟨_, rfl, ⟨x, d, _, String.toList_ofList, hx, ?_⟩, String.toList_ofList⟩
      intro e he
      rcases List.mem_cons.mp he with rfl | he
      · exact hd
      · exact List.all_eq_true.mp List.all_takeWhile e he
    · exact decimal_spelled _ hc
  · exact decimal_spelled _ hc

/-- Every kind that is read is well spelled, and its spelling is what was read. -/
theorem lexeme_spelled {c : Char} {cs : List Char} {k : Token.Kind}
    (h : (lexeme c cs).kind = some k) :
    k.WellSpelled ∧ k.spelling.toList = (lexeme c cs).slice := by
  unfold lexeme at h ⊢
  split at h
  · next hc =>
    cases h
    rw [if_pos hc]
    refine ⟨?_, by rw [wordKind_spelling]; exact String.toList_ofList⟩
    apply wellSpelled_wordKind
    rw [String.toList_ofList]
    exact (Bool.and_eq_true _ _).mpr ⟨hc, List.all_takeWhile⟩
  · next hc =>
    rw [if_neg hc]
    split at h
    · next hd =>
      rw [if_pos hd]
      obtain ⟨k', hk', hspelled⟩ := number_spelled cs hd
      cases hk'.symm.trans h
      exact hspelled
    · next hd =>
      rw [if_neg hd]
      split at h
      · next hq =>
        rw [if_pos hq]
        unfold quoted at h ⊢
        dsimp only at h ⊢
        split at h
        · next rest hrest =>
          cases h
          exact ⟨⟨_, String.toList_ofList, stringItems_splitItems cs⟩, String.toList_ofList⟩
        · cases h
      · next hq =>
        rw [if_neg hq]
        exact sign_spelled h

/-! ## What is well spelled is read -/

/-- A run of characters ends here: there is no further one with the property. -/
def Stops (p : Char → Bool) (rest : List Char) : Prop :=
  ∀ d ∈ rest.head?, p d = false

/-- What all has a property, before something that has not, is taken whole. -/
theorem takeWhile_of_stops {p : Char → Bool} {run rest : List Char} (hrun : ∀ d ∈ run, p d)
    (hrest : Stops p rest) : (run ++ rest).takeWhile p = run := by
  rw [List.takeWhile_append_of_pos hrun]
  cases rest with
  | nil => exact List.append_nil run
  | cons d ds => rw [List.takeWhile_cons_of_neg (by simp [hrest d rfl]), List.append_nil]

/-- What all has a property, before something that has not, is dropped whole. -/
theorem dropWhile_of_stops {p : Char → Bool} {run rest : List Char} (hrun : ∀ d ∈ run, p d)
    (hrest : Stops p rest) : (run ++ rest).dropWhile p = rest := by
  rw [List.dropWhile_append_of_pos hrun]
  cases rest with
  | nil => rfl
  | cons d ds => rw [List.dropWhile_cons_of_neg (by simp [hrest d rfl])]

/-- The text is at its end or goes on with a blank. -/
def Separated (rest : List Char) : Prop :=
  ∀ d ∈ rest.head?, isBlank d = true

theorem isBlank_iff {d : Char} :
    isBlank d ↔ d = ' ' ∨ d = '\t' ∨ d = '\n' ∨ d = '\r' ∨ d = '\x0c' := by
  simp [isBlank, or_assoc]

/-- A blank, or the end, ends any token that cannot have blanks in it. -/
theorem Separated.stops {p : Char → Bool} {rest : List Char} (h : Separated rest)
    (hp : p ' ' = false ∧ p '\t' = false ∧ p '\n' = false ∧ p '\r' = false ∧ p '\x0c' = false) :
    Stops p rest := by
  obtain ⟨h₁, h₂, h₃, h₄, h₅⟩ := hp
  intro d hd
  rcases isBlank_iff.mp (h d hd) with rfl | rfl | rfl | rfl | rfl <;> assumption

/-- A word is read up to where its letters and digits stop. -/
theorem word_eq {text : String} {c : Char} {cs rest : List Char} (ht : text.toList = c :: cs)
    (hcs : ∀ d ∈ cs, isWordPart d) (hrest : Stops isWordPart rest) :
    word c (cs ++ rest) = ⟨some (wordKind text), c :: cs, rest⟩ := by
  rw [word, takeWhile_of_stops hcs hrest, dropWhile_of_stops hcs hrest, ← ht, String.ofList_toList]

/-- A decimal number is read up to where its digits stop. -/
theorem decimal_eq {text : String} {c : Char} {cs rest : List Char} (ht : text.toList = c :: cs)
    (hcs : ∀ d ∈ cs, d.isDigit) (hrest : Stops Char.isDigit rest) :
    decimal c (cs ++ rest) = ⟨some (.decLiteral text), c :: cs, rest⟩ := by
  rw [decimal, takeWhile_of_stops hcs hrest, dropWhile_of_stops hcs hrest, ← ht,
    String.ofList_toList]

/-- A number is decimal if no `x` comes second. -/
theorem number_eq_decimal {c : Char} {cs : List Char}
    (h : Stops (fun d => d == 'x' || d == 'X') cs) : number c cs = decimal c cs := by
  unfold number
  split
  · next x d ds =>
    have hx := h x rfl
    rw [if_neg]
    rintro ⟨_, rfl | rfl, _⟩ <;> cases hx
  · rfl

/-- A prefix with at least one hexadecimal digit behind it begins a hexadecimal number. -/
theorem number_eq_hex {text : String} {x d : Char} {ds rest : List Char}
    (ht : text.toList = '0' :: x :: d :: ds) (hx : x = 'x' ∨ x = 'X')
    (hds : ∀ e ∈ d :: ds, isHexDigit e) (hrest : Stops isHexDigit rest) :
    number '0' (x :: d :: ds ++ rest) = ⟨some (.hexLiteral text), '0' :: x :: d :: ds, rest⟩ := by
  have hd : isHexDigit d := hds d List.mem_cons_self
  have hds' : ∀ e ∈ ds, isHexDigit e := fun e he => hds e (List.mem_cons_of_mem d he)
  rw [List.cons_append, List.cons_append, number, if_pos ⟨rfl, hx, hd⟩,
    takeWhile_of_stops hds' hrest, dropWhile_of_stops hds' hrest, ← ht]
  dsimp only
  rw [String.ofList_toList]

/-- The text of a string is read up to its closing quote, escapes included. -/
theorem splitItems_eq {items : List Char} (h : StringItems items) (rest : List Char) :
    splitItems (items ++ '"' :: rest) = (items, '"' :: rest) := by
  induction h with
  | nil => rw [List.nil_append, splitItems] <;> simp
  | plain h₁ h₂ h₃ _ ih =>
    rw [List.cons_append, splitItems, if_neg (by simp [h₁, h₂, h₃]), ih]
    intro _ _ he
    exact absurd he h₂
  | escape hc _ ih => rw [List.cons_append, List.cons_append, splitItems, if_neg hc, ih]

/-- A string literal ends at its closing quote, whatever comes next. -/
theorem quoted_eq {text : String} {items : List Char} (ht : text.toList = '"' :: items ++ ['"'])
    (hitems : StringItems items) (rest : List Char) :
    quoted (items ++ '"' :: rest) =
      ⟨some (.stringLiteral text), '"' :: items ++ ['"'], rest⟩ := by
  simp only [quoted, splitItems_eq hitems, ← ht, String.ofList_toList]

/-- No gap is skipped before a character that is neither a blank nor a slash. -/
theorem splitGap_front {p : Char → Bool} {c : Char} {cs : List Char} (hc : p c)
    (hp : p ' ' = false ∧ p '\t' = false ∧ p '\n' = false ∧ p '\r' = false ∧ p '\x0c' = false)
    (hs : p '/' = false) : splitGap false (c :: cs) = ([], c :: cs) := by
  have hb : isBlank c = false := by
    obtain ⟨h₁, h₂, h₃, h₄, h₅⟩ := hp
    cases hb : isBlank c with
    | false => rfl
    | true => rcases isBlank_iff.mp hb with rfl | rfl | rfl | rfl | rfl <;> simp_all
  have hne : c ≠ '/' := by
    rintro rfl
    simp [hs] at hc
  simp [splitGap, hb, hne]

theorem isWordStart_of_isDigit {c : Char} (h : c.isDigit) : isWordStart c = false := by
  have hle : c.toNat ≤ 57 := by
    simp only [Char.isDigit, Bool.and_eq_true, decide_eq_true_eq] at h
    exact UInt32.le_iff_toNat_le.mp h.2
  have hne : c ≠ '_' := by
    rintro rfl
    cases h
  have hupper : c.isUpper = false := by
    refine decide_eq_false fun h => ?_
    have hge : 65 ≤ c.toNat := UInt32.le_iff_toNat_le.mp h.1
    omega
  have hlower : c.isLower = false := by
    refine Bool.and_eq_false_imp.mpr fun h => ?_
    have hge : 97 ≤ c.toNat := UInt32.le_iff_toNat_le.mp (of_decide_eq_true h)
    omega
  show ((c.isUpper || c.isLower) || c == '_') = false
  rw [hupper, hlower, beq_false_of_ne hne]
  rfl

/-- A lexeme stands at the front of a text, with no gap before it. -/
structure Fronts (k : Token.Kind) (text rest : List Char) : Prop where
  split : splitGap false text = ([], text)
  read : ∃ c cs, text = c :: cs ∧ lexeme c cs = ⟨some k, k.spelling.toList, rest⟩

/-- A word with a blank behind it is read as a whole. -/
theorem fronts_word {text : String} {rest : List Char} (hw : isWord text.toList)
    (hrest : Separated rest) : Fronts (wordKind text) (text.toList ++ rest) rest := by
  obtain ⟨c, cs, ht⟩ : ∃ c cs, text.toList = c :: cs :=
    List.exists_cons_of_ne_nil fun h => by rw [h] at hw; cases hw
  rw [ht] at hw ⊢
  obtain ⟨hc, hcs⟩ := (Bool.and_eq_true _ _).mp hw
  have hcs := List.all_eq_true.mp hcs
  refine ⟨splitGap_front hc (by decide) (by decide), c, cs ++ rest, rfl, ?_⟩
  rw [lexeme, if_pos hc, word_eq ht hcs (hrest.stops (by decide)), wordKind_spelling, ht]

/-- A decimal number with a blank behind it is read as a whole. -/
theorem fronts_decimal {text : String} {rest : List Char} (hne : text.toList ≠ [])
    (hd : ∀ d ∈ text.toList, d.isDigit) (hrest : Separated rest) :
    Fronts (.decLiteral text) (text.toList ++ rest) rest := by
  obtain ⟨c, cs, ht⟩ := List.exists_cons_of_ne_nil hne
  rw [ht] at hd ⊢
  have hc : c.isDigit := hd c List.mem_cons_self
  have hcs : ∀ d ∈ cs, d.isDigit := fun d hm => hd d (List.mem_cons_of_mem c hm)
  have hsecond : Stops (fun d => d == 'x' || d == 'X') (cs ++ rest) := by
    cases cs with
    | nil => exact hrest.stops (by decide)
    | cons d ds =>
      rintro _ ⟨⟩
      have hdigit := hcs d List.mem_cons_self
      have hx : d ≠ 'x' ∧ d ≠ 'X' := by
        constructor <;> rintro rfl <;> cases hdigit
      simp [hx.1, hx.2]
  refine ⟨splitGap_front hc (by decide) (by decide), c, cs ++ rest, rfl, ?_⟩
  rw [lexeme, if_neg (by simp [isWordStart_of_isDigit hc]), if_pos hc, number_eq_decimal hsecond,
    decimal_eq ht hcs (hrest.stops (by decide)), Token.Kind.spelling, ht]

/-- A hexadecimal number with a blank behind it is read as a whole. -/
theorem fronts_hex {text : String} {x d : Char} {ds rest : List Char}
    (ht : text.toList = '0' :: x :: d :: ds) (hx : x = 'x' ∨ x = 'X')
    (hds : ∀ e ∈ d :: ds, isHexDigit e) (hrest : Separated rest) :
    Fronts (.hexLiteral text) (text.toList ++ rest) rest := by
  rw [ht]
  refine ⟨splitGap_front (p := Char.isDigit) rfl (by decide) (by decide), '0', _, rfl, ?_⟩
  rw [lexeme, if_neg (by decide), if_pos (by decide), Token.Kind.spelling, ht]
  exact number_eq_hex ht hx hds (hrest.stops (by decide))

/-- A string is read as a whole, whatever stands behind its closing quote. -/
theorem fronts_string {text : String} {items : List Char}
    (ht : text.toList = '"' :: items ++ ['"']) (hitems : StringItems items) (rest : List Char) :
    Fronts (.stringLiteral text) (text.toList ++ rest) rest := by
  rw [ht, List.append_assoc]
  refine ⟨splitGap_front (p := (· == '"')) rfl (by decide) (by decide), '"', _, rfl, ?_⟩
  rw [lexeme, if_neg (by decide), if_neg (by decide), if_pos rfl, Token.Kind.spelling, ht]
  exact quoted_eq ht hitems rest

/-- A character that is a sign is no blank, and it begins no word, number or string. -/
theorem single?_front {c : Char} {s : Sign} (h : Sign.single? c = some s) :
    isBlank c = false ∧ isWordStart c = false ∧ c.isDigit = false ∧ c ≠ '"' := by
  unfold Sign.single? at h
  split at h <;> first | decide | cases h

/-- The first of two characters that are a sign begins neither a gap nor a word, number or
string. -/
theorem pair?_front {c d : Char} {s : Sign} (h : Sign.pair? c d = some s) :
    isBlank c = false ∧ isWordStart c = false ∧ c.isDigit = false ∧ c ≠ '"' ∧ c ≠ '/' := by
  unfold Sign.pair? at h
  split at h <;> first | decide | cases h

/-- No sign of two characters has a blank in it. -/
theorem pair?_blank (c : Char) {d : Char} (h : isBlank d) : Sign.pair? c d = none := by
  unfold Sign.pair?
  split <;> first | rfl | cases h

/-- A sign of one character is read if a blank follows, as it could begin a longer one or a
comment. -/
theorem fronts_single {c : Char} {s : Sign} {rest : List Char} (hs : Sign.single? c = some s)
    (hrest : Separated rest) : Fronts (.sign s) (c :: rest) rest := by
  obtain ⟨hb, hw, hd, hq⟩ := single?_front hs
  have hslash : rest.head? ≠ some '/' := fun he => absurd (hrest _ he) (by decide)
  have hsign : sign c rest = ⟨some (.sign s), [c], rest⟩ := by
    cases rest with
    | nil => simp [sign, single, hs]
    | cons d ds => simp [sign, single, hs, pair?_blank c (hrest d rfl)]
  refine ⟨by simp [splitGap, hb, hslash], c, rest, rfl, ?_⟩
  rw [lexeme, if_neg (by simp [hw]), if_neg (by simp [hd]), if_neg hq, hsign, Token.Kind.spelling,
    single?_spelling hs]

/-- A sign of two characters is read whatever stands behind it. -/
theorem fronts_pair {c d : Char} {s : Sign} (hs : Sign.pair? c d = some s) (rest : List Char) :
    Fronts (.sign s) (c :: d :: rest) rest := by
  obtain ⟨hb, hw, hd, hq, hne⟩ := pair?_front hs
  have hsign : sign c (d :: rest) = ⟨some (.sign s), [c, d], rest⟩ := by
    simp [sign, hs]
  refine ⟨by simp [splitGap, hb, hne], c, d :: rest, rfl, ?_⟩
  rw [lexeme, if_neg (by simp [hw]), if_neg (by simp [hd]), if_neg hq, hsign, Token.Kind.spelling,
    pair?_spelling hs]

/-- The sign that is written with the given characters. -/
def signOf? : List Char → Option Sign
  | [c] => Sign.single? c
  | [c, d] => Sign.pair? c d
  | _ => none

/-- Every sign is found again by its spelling. -/
theorem signOf?_spelling (s : Sign) : signOf? s.spelling.toList = some s := by
  cases s <;> rfl

/-- A sign with a blank behind it is read back. -/
theorem fronts_sign (s : Sign) {rest : List Char} (hrest : Separated rest) :
    Fronts (.sign s) (s.spelling.toList ++ rest) rest := by
  have h := signOf?_spelling s
  unfold signOf? at h
  split at h
  · next c hc => exact hc ▸ fronts_single h hrest
  · next c d hc => exact hc ▸ fronts_pair h rest
  · cases h

/-- The spelling of a kind, with a blank or nothing behind it, is read as that kind. -/
theorem fronts_spelling {k : Token.Kind} {rest : List Char} (hk : k.WellSpelled)
    (hrest : Separated rest) : Fronts k (k.spelling.toList ++ rest) rest := by
  cases k with
  | word w =>
    have hw : wordKind w.spelling = .word w := by cases w <;> decide
    have h := fronts_word (by cases w <;> rfl : isWord w.spelling.toList) hrest
    rwa [hw] at h
  | identifier text =>
    obtain ⟨ht, hno⟩ := hk
    have hw : wordKind text = .identifier text := by
      rw [wordKind, Keyword.ofSpelling?, List.find?_eq_none.mpr]
      intro w _ he
      exact hno w (eq_of_beq he)
    have h := fronts_word ht hrest
    rwa [hw] at h
  | decLiteral text => exact fronts_decimal hk.1 hk.2 hrest
  | hexLiteral text =>
    obtain ⟨x, d, ds, ht, hx, hds⟩ := hk
    exact fronts_hex ht hx hds hrest
  | stringLiteral text =>
    obtain ⟨items, ht, hitems⟩ := hk
    exact fronts_string ht hitems rest
  | sign s => exact fronts_sign s hrest
  | endOfFile => exact hk.elim

end Scan

namespace Stream

open Scan

/-- A stream with one more token in front. -/
def prepend (t : Token) (s : Stream) : Stream :=
  ⟨t :: s.tokens, s.size, s.fault⟩

/-- Where only a gap is left there are no more tokens. -/
theorem scan_nil {offset : Nat} {text : List Char} (h : (splitGap false text).2 = []) :
    scan offset text = ⟨[], offset + byteLength (splitGap false text).1, none⟩ := by
  rw [scan]
  dsimp only
  split
  · rfl
  · next hc => cases h.symm.trans hc

/-- Behind the gap the next lexeme is a token, and the scan goes on behind it. -/
theorem scan_cons (offset : Nat) {text cs : List Char} {c : Char} {k : Token.Kind}
    (h : (splitGap false text).2 = c :: cs) (hk : (lexeme c cs).kind = some k) :
    ∃ span after, scan offset text = (scan after (lexeme c cs).rest).prepend ⟨k, span⟩ := by
  rw [scan]
  dsimp only
  split
  · next hnil => cases h.symm.trans hnil
  · next c' cs' hc =>
    cases h.symm.trans hc
    rw [Token.ofLexeme, hk]
    exact ⟨_, _, rfl⟩

/-- An unreadable lexeme ends the scan. -/
theorem scan_unreadable {offset : Nat} {text cs : List Char} {c : Char}
    (h : (splitGap false text).2 = c :: cs) (hk : (lexeme c cs).kind = none) :
    (scan offset text).tokens = [] := by
  rw [scan]
  dsimp only
  split
  · next hnil => cases h.symm.trans hnil
  · next c' cs' hc =>
    cases h.symm.trans hc
    rw [Token.ofLexeme, hk]

/-- Every token of a text is well spelled. -/
theorem scan_wellSpelled (offset : Nat) (text : List Char) :
    ∀ t ∈ (scan offset text).tokens, t.kind.WellSpelled := by
  cases h : (splitGap false text).2 with
  | nil =>
    rw [scan_nil h]
    exact fun _ ht => absurd ht List.not_mem_nil
  | cons c cs =>
    cases hk : (lexeme c cs).kind with
    | none =>
      rw [scan_unreadable h hk]
      exact fun _ ht => absurd ht List.not_mem_nil
    | some k =>
      have hlt : (lexeme c cs).rest.length < text.length := by
        have h₁ := splitGap_rest_length false text
        have h₂ := lexeme_rest_length c cs
        rw [h, List.length_cons] at h₁
        omega
      obtain ⟨span, after, hs⟩ := scan_cons offset h hk
      rw [hs]
      intro t ht
      rcases List.mem_cons.mp ht with rfl | ht
      · exact (lexeme_spelled hk).1
      · exact scan_wellSpelled after _ t ht
termination_by text.length

/-- Blanks in front of something that begins no gap are skipped, all of them and nothing else. -/
theorem splitGap_blanks {gap text : List Char} (hgap : ∀ c ∈ gap, isBlank c)
    (h : (splitGap false text).1 = []) : (splitGap false (gap ++ text)).2 = text := by
  induction gap with
  | nil =>
    have happend := splitGap_append false text
    rwa [h] at happend
  | cons c gap ih =>
    rw [List.cons_append, splitGap, if_pos (hgap c List.mem_cons_self)]
    exact ih fun d hd => hgap d (List.mem_cons_of_mem c hd)

/-- A lexeme behind blanks is the first token, and the reading goes on after it. -/
theorem scan_fronts {k : Token.Kind} {gap text rest : List Char} (offset : Nat)
    (hgap : ∀ c ∈ gap, isBlank c) (h : Fronts k text rest) :
    ∃ span after, scan offset (gap ++ text) = (scan after rest).prepend ⟨k, span⟩ := by
  obtain ⟨hsplit, c, cs, rfl, hread⟩ := h
  have hfront := splitGap_blanks hgap (congrArg Prod.fst hsplit)
  have hs := scan_cons offset hfront (congrArg Lexeme.kind hread)
  rwa [congrArg Lexeme.rest hread] at hs

end Stream

/-! ## All tokens of a text -/

/-- A text that is split into tokens has no unreadable spot, and its tokens are followed by the
end. -/
theorem tokenize_eq_ok {source : String} {tokens : List Token} (h : tokenize source = .ok tokens) :
    (Stream.ofSource source).fault = none ∧
      tokens = (Stream.ofSource source).tokens ++ [(Stream.ofSource source).ending] := by
  rw [tokenize, Stream.toExcept] at h
  split at h
  · cases h
  · next hf => exact ⟨hf, (Except.ok.inj h).symm⟩

/-- A text is refused for its unreadable spot. -/
theorem tokenize_eq_error {source : String} {L : LexicalError} (h : tokenize source = .error L) :
    (Stream.ofSource source).fault = some L := by
  rw [tokenize, Stream.toExcept] at h
  split at h
  · next f hf =>
    cases h
    exact hf
  · cases h

/-- A text without unreadable spots is split into tokens. -/
theorem tokenize_of_readable {source : String} (h : (Stream.ofSource source).fault = none) :
    tokenize source =
      .ok ((Stream.ofSource source).tokens ++ [(Stream.ofSource source).ending]) := by
  rw [tokenize, Stream.toExcept, h]

end Decaf
