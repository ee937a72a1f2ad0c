import Decaf.Token.Basic

/-!
# The values of literals

A number literal denotes the value of its digits, whatever their count, and is
refused only where that value does not fit: integers go up to `largestInt`,
array lengths up to `largestLength`. A string literal denotes the characters
between its quotes once the escapes are resolved by `unescape`; `escape` writes
a value so that `unescape` gives it back.
-/

namespace Decaf

/-! ## Numbers -/

/-- The largest value of an integer, `2 ^ 63 - 1`. -/
def largestInt : Nat := 0x7fffffffffffffff

/-- The largest length of an array, `2 ^ 64 - 1`. -/
def largestLength : Nat := 0xffffffffffffffff

/-- The value of a digit to base sixteen or less. -/
def digitValue (c : Char) : Nat :=
  if c.isDigit then c.toNat - '0'.toNat
  else if 'a' ≤ c ∧ c ≤ 'f' then c.toNat - 'a'.toNat + 10
  else c.toNat - 'A'.toNat + 10

/-- The value of a row of digits. -/
def digitsValue (base : Nat) (digits : List Char) : Nat :=
  digits.foldl (fun value c => base * value + digitValue c) 0

/-- The integer that a row of decimal digits denotes. -/
def intOfDecimal? (text : String) : Option Nat :=
  let value := digitsValue 10 text.toList
  if value ≤ largestInt then some value else none

/-- The integer that a hexadecimal literal denotes; its digits come after the
two characters of `0x`. -/
def intOfHex? (text : String) : Option Nat :=
  let value := digitsValue 16 (text.toList.drop 2)
  if value ≤ largestInt then some value else none

/-- The array length that a row of decimal digits denotes. -/
def lengthOfDecimal? (text : String) : Option Nat :=
  let value := digitsValue 10 text.toList
  if value ≤ largestLength then some value else none

/-! ## Strings -/

/-- What is wrong with the escapes of a string literal. -/
inductive EscapeError where
  /-- A backslash before a character that it cannot escape. -/
  | unknown (c : Char)
  /-- A backslash with nothing after it. -/
  | unfinished
deriving DecidableEq

/-- The character that a backslash before `c` stands for. -/
def escaped? : Char → Option Char
  | 'n' => some '\n'
  | 't' => some '\t'
  | '\\' => some '\\'
  | '"' => some '"'
  | _ => none

/-- Resolves the escapes of a text. -/
def unescape : List Char → Except EscapeError (List Char)
  | [] => .ok []
  | ['\\'] => .error .unfinished
  | '\\' :: c :: cs =>
    match escaped? c with
    | some d => (unescape cs).map (d :: ·)
    | none => .error (.unknown c)
  | c :: cs => (unescape cs).map (c :: ·)

/-- Writes a text with backslashes, quotes, newlines and tabs escaped. -/
def escape : List Char → List Char
  | [] => []
  | c :: cs =>
    match c with
    | '\n' => '\\' :: 'n' :: escape cs
    | '\t' => '\\' :: 't' :: escape cs
    | '\\' => '\\' :: '\\' :: escape cs
    | '"' => '\\' :: '"' :: escape cs
    | c => c :: escape cs

/-- The value of a string literal, from its text with the quotes. -/
def stringValue (text : String) : Except EscapeError String :=
  (unescape (text.toList.drop 1).dropLast).map String.ofList

end Decaf
