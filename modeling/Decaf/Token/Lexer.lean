import Decaf.Token.Scan

/-!
# Reading the tokens of a text

`Lexer` reads one token at a time and can look one token ahead; it goes on
after an unreadable spot, and gives the end of the file again and again once it
is reached. `Stream` is the same reading done at once: all tokens up to the end
of the text or up to the first unreadable spot, whichever comes first.
-/

namespace Decaf

/-- A spot of a text where no token can be read. -/
structure LexicalError where
  slice : String
  span : Span
deriving DecidableEq

namespace LexicalError

/-- The wording of the complaint. -/
def message (e : LexicalError) : String :=
  "unexpected character '" ++ e.slice ++ "'"

end LexicalError

namespace Token

/-- The end of a text of `size` bytes. -/
def ending (size : Nat) : Token :=
  ⟨.endOfFile, .point size⟩

/-- A lexeme found at `offset`, as a token or as an unreadable spot. -/
def ofLexeme (offset : Nat) (lexeme : Scan.Lexeme) : Except LexicalError Token :=
  let span : Span := ⟨offset, offset + byteLength lexeme.slice⟩
  match lexeme.kind with
  | some kind => .ok ⟨kind, span⟩
  | none => .error ⟨String.ofList lexeme.slice, span⟩

end Token

/-- A reader of tokens: the text, what is left of it, the offset where that
begins, and the token that was looked at but not yet taken. -/
structure Lexer where
  source : String
  rest : List Char
  offset : Nat
  peeked : Option Token

namespace Lexer

/-- A reader at the beginning of a text. -/
def ofSource (source : String) : Lexer :=
  ⟨source, source.toList, 0, none⟩

/-- Reads the next lexeme of the text, whether or not a token was looked at. -/
def read (lexer : Lexer) : Except LexicalError Token × Lexer :=
  let gap := Scan.splitGap false lexer.rest
  let offset := lexer.offset + byteLength gap.1
  match gap.2 with
  | [] => (.ok (.ending offset), { lexer with rest := [], offset := offset })
  | c :: cs =>
    let lexeme := Scan.lexeme c cs
    (Token.ofLexeme offset lexeme,
      { lexer with rest := lexeme.rest, offset := offset + byteLength lexeme.slice })

/-- Takes the next token. -/
def next (lexer : Lexer) : Except LexicalError Token × Lexer :=
  match lexer.peeked with
  | some token => (.ok token, { lexer with peeked := none })
  | none => lexer.read

/-- Looks at the next token without taking it. An unreadable spot is passed
over, so a second look finds what comes after it. -/
def peek (lexer : Lexer) : Except LexicalError Token × Lexer :=
  match lexer.peeked with
  | some token => (.ok token, lexer)
  | none =>
    match lexer.read with
    | (.ok token, after) => (.ok token, { after with peeked := some token })
    | (.error e, after) => (.error e, after)

end Lexer

/-- The tokens of a text up to its end or to its first unreadable spot. -/
structure Stream where
  /-- The tokens, without the one that marks the end of the file. -/
  tokens : List Token
  /-- The number of bytes that were passed over. -/
  size : Nat
  /-- The unreadable spot that the tokens stop at, if there is one. -/
  fault : Option LexicalError

namespace Stream

/-- Reads a text that begins at `offset`. -/
def scan (offset : Nat) (text : List Char) : Stream :=
  let gap := Scan.splitGap false text
  let start := offset + byteLength gap.1
  match h : gap.2 with
  | [] => ⟨[], start, none⟩
  | c :: cs =>
    have : (Scan.lexeme c cs).rest.length < text.length := by
      have h₁ := Scan.splitGap_rest_length false text
      have h₂ := Scan.lexeme_rest_length c cs
      simp only [show Scan.splitGap false text = gap from rfl, h, List.length_cons] at h₁
      omega
    let lexeme := Scan.lexeme c cs
    match Token.ofLexeme start lexeme with
    | .error e => ⟨[], start, some e⟩
    | .ok token =>
      let after := scan (start + byteLength lexeme.slice) lexeme.rest
      { after with tokens := token :: after.tokens }
termination_by text.length

/-- Reads a whole text. -/
def ofSource (source : String) : Stream :=
  scan 0 source.toList

/-- The token that marks the end of the file. -/
def ending (stream : Stream) : Token :=
  .ending stream.size

/-- All tokens, the one that marks the end of the file included, or the
unreadable spot that prevents them. -/
def toExcept (stream : Stream) : Except LexicalError (List Token) :=
  match stream.fault with
  | some e => .error e
  | none => .ok (stream.tokens ++ [stream.ending])

end Stream

namespace Lexer

/-- Takes all tokens that are left, one that was looked at first. -/
def drain (lexer : Lexer) : Except LexicalError (List Token) :=
  let rest := (Stream.scan lexer.offset lexer.rest).toExcept
  match lexer.peeked with
  | none => rest
  | some token =>
    if token.kind = .endOfFile then .ok [token] else rest.map (token :: ·)

end Lexer

/-- All tokens of a text, ending with the end of the file. -/
def tokenize (source : String) : Except LexicalError (List Token) :=
  (Stream.ofSource source).toExcept

end Decaf
