import Decaf.Token.Basic

/-!
# The lexeme at the front of a text

Between tokens a text may hold blanks and comments; `splitGap` divides such a
gap from what follows. What follows begins with a lexeme: the longest token
that can be read there, or, where none can be read, the slice that an error
message complains about. `lexeme` finds it.

The two facts that everything above rests on are that nothing is lost
(`splitGap_append`, `lexeme_append`) and that a lexeme is never empty
(`lexeme_slice_ne_nil`), so each step leaves a shorter text
(`lexeme_rest_length`).
-/

namespace Decaf.Scan

/-! ## Gaps -/

/-- The characters that separate tokens: space, tab, newline, carriage return
and form feed. -/
def isBlank (c : Char) : Bool :=
  c == ' ' || c == '\t' || c == '\n' || c == '\r' || c == '\x0c'

/-- Divides the blanks and comments at the front of a text from the rest. The
flag tells whether a comment is open; a comment runs up to the next newline. -/
def splitGap : Bool → List Char → List Char × List Char
  | _, [] => ([], [])
  | true, c :: cs =>
    let r := splitGap (c != '\n') cs
    (c :: r.1, r.2)
  | false, c :: cs =>
    if isBlank c then
      let r := splitGap false cs
      (c :: r.1, r.2)
    else if c == '/' && cs.head? == some '/' then
      let r := splitGap true cs
      (c :: r.1, r.2)
    else ([], c :: cs)

theorem splitGap_append (open? : Bool) (cs : List Char) :
    (splitGap open? cs).1 ++ (splitGap open? cs).2 = cs := by
  induction cs generalizing open? with
  | nil => cases open? <;> rfl
  | cons c cs ih =>
    cases open? with
    | true => simp [splitGap, ih]
    | false =>
      simp only [splitGap]
      split
      · simp [ih]
      · split <;> simp [ih]

theorem splitGap_rest_length (open? : Bool) (cs : List Char) :
    (splitGap open? cs).2.length ≤ cs.length := by
  have h := congrArg List.length (splitGap_append open? cs)
  rw [List.length_append] at h
  omega

/-! ## Lexemes -/

/-- A slice at the front of a text, the kind of token it is, if it is one, and
the text after it. -/
structure Lexeme where
  kind : Option Token.Kind
  slice : List Char
  rest : List Char

/-- A letter of the ASCII alphabet or an underscore. -/
def isWordStart (c : Char) : Bool :=
  c.isAlpha || c == '_'

/-- A letter or digit of ASCII or an underscore. -/
def isWordPart (c : Char) : Bool :=
  c.isAlphanum || c == '_'

/-- A digit to base sixteen, in either case. -/
def isHexDigit (c : Char) : Bool :=
  c.isDigit || ('a' ≤ c && c ≤ 'f') || ('A' ≤ c && c ≤ 'F')

/-- A word that is not reserved is an identifier. -/
def wordKind (text : String) : Token.Kind :=
  match Keyword.ofSpelling? text with
  | some keyword => .word keyword
  | none => .identifier text

/-- The word that begins with `c`. -/
def word (c : Char) (cs : List Char) : Lexeme :=
  let slice := c :: cs.takeWhile isWordPart
  ⟨some (wordKind (String.ofList slice)), slice, cs.dropWhile isWordPart⟩

/-- The run of decimal digits that begins with `c`. -/
def decimal (c : Char) (cs : List Char) : Lexeme :=
  let slice := c :: cs.takeWhile Char.isDigit
  ⟨some (.decLiteral (String.ofList slice)), slice, cs.dropWhile Char.isDigit⟩

/-- The number that begins with the digit `c`. It is hexadecimal only if at
least one digit follows `0x`; otherwise the zero stands alone. -/
def number (c : Char) (cs : List Char) : Lexeme :=
  match cs with
  | x :: d :: ds =>
    if c = '0' ∧ (x = 'x' ∨ x = 'X') ∧ isHexDigit d then
      let slice := c :: x :: d :: ds.takeWhile isHexDigit
      ⟨some (.hexLiteral (String.ofList slice)), slice, ds.dropWhile isHexDigit⟩
    else decimal c cs
  | _ => decimal c cs

/-- Divides the complete items of a string literal from the rest: plain
characters, and backslashes with the character they escape. Neither may be a
newline. -/
def splitItems : List Char → List Char × List Char
  | '\\' :: c :: cs =>
    if c = '\n' then ([], '\\' :: c :: cs)
    else
      let r := splitItems cs
      ('\\' :: c :: r.1, r.2)
  | c :: cs =>
    if c = '"' ∨ c = '\\' ∨ c = '\n' then ([], c :: cs)
    else
      let r := splitItems cs
      (c :: r.1, r.2)
  | [] => ([], [])

/-- The string literal after an opening quote. Without a closing quote the
quote and the complete items after it are unreadable. -/
def quoted (cs : List Char) : Lexeme :=
  let items := splitItems cs
  match items.2 with
  | '"' :: rest =>
    let slice := '"' :: items.1 ++ ['"']
    ⟨some (.stringLiteral (String.ofList slice)), slice, rest⟩
  | rest => ⟨none, '"' :: items.1, rest⟩

/-- The sign that is the character `c` alone; any other character is
unreadable. -/
def single (c : Char) (cs : List Char) : Lexeme :=
  ⟨(Sign.single? c).map .sign, [c], cs⟩

/-- The sign that begins with `c`, of two characters where that is possible. -/
def sign (c : Char) (cs : List Char) : Lexeme :=
  match cs with
  | d :: ds =>
    match Sign.pair? c d with
    | some s => ⟨some (.sign s), [c, d], ds⟩
    | none => single c cs
  | [] => single c cs

/-- The lexeme at the front of the text `c :: cs`. -/
def lexeme (c : Char) (cs : List Char) : Lexeme :=
  if isWordStart c then word c cs
  else if c.isDigit then number c cs
  else if c = '"' then quoted cs
  else sign c cs

theorem splitItems_append (cs : List Char) :
    (splitItems cs).1 ++ (splitItems cs).2 = cs := by
  fun_induction splitItems cs <;> simp_all +zetaDelta

private theorem quoted_append (cs : List Char) :
    (quoted cs).slice ++ (quoted cs).rest = '"' :: cs := by
  have h := splitItems_append cs
  simp only [quoted]
  split
  · next rest heq => rw [heq] at h; simpa using h
  · simpa using h

private theorem number_append (c : Char) (cs : List Char) :
    (number c cs).slice ++ (number c cs).rest = c :: cs := by
  unfold number decimal
  split
  · split <;> simp
  · simp

private theorem sign_append (c : Char) (cs : List Char) :
    (sign c cs).slice ++ (sign c cs).rest = c :: cs := by
  unfold sign single
  split
  · split <;> simp
  · simp

/-- A lexeme and the text after it make up the text it was found in. -/
theorem lexeme_append (c : Char) (cs : List Char) :
    (lexeme c cs).slice ++ (lexeme c cs).rest = c :: cs := by
  unfold lexeme
  split
  · simp [word]
  · split
    · exact number_append c cs
    · split
      · next h => rw [h]; exact quoted_append cs
      · exact sign_append c cs

/-- A lexeme has at least one character. -/
theorem lexeme_slice_ne_nil (c : Char) (cs : List Char) :
    (lexeme c cs).slice ≠ [] := by
  unfold lexeme
  split
  · simp [word]
  · split
    · unfold number decimal
      split
      · split <;> simp
      · simp
    · split
      · simp only [quoted]
        split <;> simp
      · unfold sign single
        split
        · split <;> simp
        · simp

/-- The text after a lexeme is shorter than the text it begins. -/
theorem lexeme_rest_length (c : Char) (cs : List Char) :
    (lexeme c cs).rest.length ≤ cs.length := by
  have h := congrArg List.length (lexeme_append c cs)
  have hne := List.length_pos_iff.mpr (lexeme_slice_ne_nil c cs)
  rw [List.length_append, List.length_cons] at h
  omega

end Decaf.Scan
