/-!
# Text without control sequences

A stream that is no terminal is given text without the sequences that would steer
one. Such a sequence begins with the escape character, and what comes next says
how it goes on: a single character, a bracketed command with parameters, or a
longer string. Control characters other than white space are dropped as well.

A string for a device has a head before its contents: parameters, then characters
that qualify what comes next, then one that ends the head. A string terminator ends
the contents; in the head it means nothing.

White space inside a sequence is still shown, and so is what follows it, up to the
next character that cannot be shown; only then is the sequence taken up again.
-/

namespace Decaf.Text

/-- Where in a control sequence a text stands. -/
inductive Sequence where
  /-- Outside of any. -/
  | none
  /-- After the escape character. -/
  | escape
  /-- After the escape character and characters that qualify what comes next. -/
  | qualified
  /-- In a command with parameters. -/
  | command
  /-- In a string that a bell ends. -/
  | title
  /-- At the start of the head of a string for a device. -/
  | head
  /-- After parameters in such a head. -/
  | parameters
  /-- After qualifying characters in such a head. -/
  | qualifiers
  /-- In a string that only another sequence ends, or a string terminator. -/
  | string
deriving DecidableEq

namespace Sequence

/-- White space as it may stand inside a sequence. -/
def isSpacing (c : Char) : Bool :=
  c == '\t' || c == '\n' || c == '\x0c' || c == '\r'

/-- The characters that are shown outside of sequences: spacing, and all but the
controls of ASCII. -/
def isShown (c : Char) : Bool :=
  isSpacing c || (0x20 ≤ c.toNat && c.toNat ≠ 0x7f)

/-- Whether a byte of a character is the string terminator. -/
def hasTerminator (c : Char) : Bool :=
  (String.utf8EncodeChar c).any (· == 0x9c)

/-- Where a text stands after a character of the head of a string for a device, if
`parameter` tells which characters are parameters still. A character of a parameter
that comes too late ends the head. -/
def inHead (here : Sequence) (parameter : Nat → Bool) (c : Char) : Sequence :=
  let code := c.toNat
  if code < 0x20 ∨ 0x7f ≤ code then here
  else if code < 0x30 then qualifiers
  else if parameter code then parameters
  else string

/-- Where a text stands after a character of a sequence that is not shown. -/
def next (here : Sequence) (c : Char) : Sequence :=
  let code := c.toNat
  if code = 0x1b then escape
  else if code = 0x18 ∨ code = 0x1a then none
  else
    match here with
    | none => none
    | escape =>
      if code < 0x20 ∨ 0x7f ≤ code then escape
      else if code < 0x30 then qualified
      else if c = '[' then command
      else if c = ']' then title
      else if c = 'P' then head
      else if c = 'X' ∨ c = '^' ∨ c = '_' then string
      else none
    | qualified => if 0x30 ≤ code ∧ code < 0x7f then none else qualified
    | command => if 0x40 ≤ code ∧ code < 0x7f then none else command
    | title => if code = 0x07 then none else title
    | head => inHead head (· < 0x40) c
    | parameters => inHead parameters (· < 0x3c) c
    | qualifiers => inHead qualifiers (fun _ => false) c
    | string => if hasTerminator c then none else string

/-- Whether a character is shown at a spot of a sequence. -/
def shows (here : Sequence) (c : Char) : Bool :=
  match here with
  | none => isShown c
  | escape | qualified | command => isSpacing c
  | title | head | parameters | qualifiers | string => false

end Sequence

/-- The characters that are left. The flag tells whether the character before was
shown. -/
def strip : Sequence → Bool → List Char → List Char
  | _, _, [] => []
  | here, showing, c :: cs =>
    if here.shows c || (showing && Sequence.isShown c) then
      c :: strip (if 0x80 ≤ c.toNat then .none else here) true cs
    else strip (here.next c) false cs

/-- A text without control sequences and control characters. -/
def stripped (text : String) : String :=
  String.ofList (strip .none false text.toList)

end Decaf.Text
