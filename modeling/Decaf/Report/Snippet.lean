import Decaf.Text.Characters
import Decaf.Text.Lines
import Decaf.Report.Fault

/-!
# Snippets

A fault is shown with the lines of the text that it is about: numbered, and with
the span marked. A span on one line gets carets under it; a span over several
lines gets a bracket to its left, and the middle of a long one is left out.

The layout is the same with and without colours. Colours are escape sequences
around the pieces (`Palette`), and no colour means that they are empty.
-/

namespace Decaf.Snippet

/-- The escape sequences that a snippet is coloured with. -/
structure Palette where
  reset : String
  marked : String
  gutter : String
  severity : String
  heading : String

namespace Palette

/-- No colours. -/
def plain : Palette :=
  ⟨"", "", "", "", ""⟩

/-- Colours for a terminal: red for what is marked, blue for the gutter. -/
def ansi : Palette :=
  ⟨"\x1b[0m", "\x1b[0m\x1b[31m", "\x1b[0m\x1b[34m", "\x1b[0m\x1b[1m\x1b[38;5;9m",
    "\x1b[0m\x1b[1m"⟩

/-- A piece that is marked. -/
def mark (p : Palette) (text : String) : String :=
  p.marked ++ text ++ p.reset

/-- A piece of the gutter. -/
def rule (p : Palette) (text : String) : String :=
  p.gutter ++ text ++ p.reset

end Palette

/-- A character on a line: the offset of its first byte from the start of the
line, and the columns it takes there. -/
structure Cell where
  byte : Nat
  width : Nat
  char : Char

/-- The offset after the last byte of a cell. -/
def Cell.stop (cell : Cell) : Nat :=
  cell.byte + cell.char.utf8Size

/-- The characters of a line that is laid out from a byte and a column on. A tab
goes to the next column that is a multiple of four. -/
def cells (byte column : Nat) : List Char → List Cell
  | [] => []
  | c :: cs =>
    let width := if c = '\t' then 4 - column % 4 else Text.columns c
    ⟨byte, width, c⟩ :: cells (byte + c.utf8Size) (column + width) cs

/-- A text to take snippets from. -/
structure Source where
  name : String
  lines : Lines
  /-- The lines of the text, each with the newline that ends it. -/
  texts : Array (List Char)

/-- Divides a text after each newline. -/
def splitLines : List Char → List (List Char)
  | [] => [[]]
  | c :: cs =>
    match splitLines cs with
    | [] => [[c]]
    | line :: rest => if c = '\n' then [c] :: line :: rest else (c :: line) :: rest

namespace Source

/-- A text with its name. -/
def ofString (name source : String) : Source :=
  ⟨name, .ofChars source.toList, (splitLines source.toList).toArray⟩

/-- The index, from zero, of the line that holds an offset. -/
def lineIndex (s : Source) (offset : Nat) : Nat :=
  s.lines.lineOf offset - 1

/-- The offset at which a line begins. -/
def lineStart (s : Source) (index : Nat) : Nat :=
  s.lines.starts[index]?.getD 0

/-- A line with the newline that ends it. -/
def rawLine (s : Source) (index : Nat) : List Char :=
  s.texts[index]?.getD []

/-- A line without the newlines, carriage returns and null characters at its
end. -/
def line (s : Source) (index : Nat) : List Char :=
  ((s.rawLine index).reverse.dropWhile fun c => c == '\n' || c == '\r' || c == '\x00').reverse

/-- The column, from one, of an offset on a line: one more than the characters
that end at or before it. -/
def column (s : Source) (index offset : Nat) : Nat :=
  let before := (cells (s.lineStart index) 0 (s.rawLine index)).takeWhile (·.stop ≤ offset)
  before.length + 1

end Source

/-- A number of equal characters. -/
def times (c : Char) (n : Nat) : String :=
  "".pushn c n

/-- Writes cells, with the marked ones in colour. The flag tells whether the
cell before was marked. -/
def paint (p : Palette) (marked : Cell → Bool) (write : Cell → String) :
    Bool → List Cell → String
  | inside, [] => if inside then p.reset else ""
  | inside, cell :: rest =>
    let now := marked cell
    (if now && !inside then p.marked else "") ++ (if inside && !now then p.reset else "") ++
      write cell ++ paint p marked write now rest

/-- Writes a line of the text, with tabs as spaces and the marked part in
colour. -/
def body (p : Palette) (line : List Char) (marked : Cell → Bool) : String :=
  let write (cell : Cell) : String :=
    if cell.char = '\t' then times ' ' cell.width else String.singleton cell.char
  paint p marked write false (cells 0 0 line)

/-- The parts of a snippet that all its lines share. -/
structure Frame where
  palette : Palette
  source : Source
  /-- The width of the line numbers. -/
  pad : Nat

namespace Frame

/-- The gutter of a line without a number. -/
def margin (f : Frame) : String :=
  times ' ' (f.pad + 1)

/-- The rule to the right of the line numbers. -/
def bar (f : Frame) : String :=
  f.palette.rule "│"

/-- The gutter of a numbered line. -/
def number (f : Frame) (index : Nat) : String :=
  let digits := toString (index + 1)
  f.palette.rule (times ' ' (f.pad - digits.length) ++ digits) ++ " " ++ f.bar

/-- The left side of the bracket around a span over several lines. -/
def left (f : Frame) : String :=
  " " ++ f.palette.mark "│"

/-- The columns of a line that are taken by characters for which `p` holds. -/
def dashes (line : List Char) (p : Cell → Bool) : String :=
  times '─' (((cells 0 0 line).filter p).foldl (fun n cell => n + cell.width) 0)

/-- A span on one line: the line, and carets under the span. An empty span gets
one caret. -/
def single (f : Frame) (label : String) (index : Nat) (span : Span) : String :=
  let line := f.source.line index
  let start := f.source.lineStart index
  let lo := span.start - start
  let hi := max (span.stop - start) (lo + 1)
  let hit (cell : Cell) : Bool := max lo cell.byte < min hi cell.stop
  let write (cell : Cell) : String :=
    if hit cell then times '^' cell.width
    else if cell.byte < hi then times ' ' cell.width
    else ""
  -- One more cell at the end holds the caret of a span that begins there.
  let row := cells 0 0 line ++ [⟨byteLength line, 1, '\x00'⟩]
  f.margin ++ f.bar ++ "\n" ++
  f.number index ++ " " ++ body f.palette line hit ++ "\n" ++
  f.margin ++ f.bar ++ " " ++ paint f.palette hit write false row ++
  (if label.isEmpty then "" else " " ++ f.palette.mark label) ++ "\n"

/-- The first line of a span over several lines. The bracket opens on the line
itself if nothing but white space stands before the span, else below it. -/
def first (f : Frame) (index lo : Nat) : String :=
  let line := f.source.line index
  let text := body f.palette line (lo ≤ ·.byte)
  if lo ≤ byteLength (line.takeWhile Text.isWhiteSpace) then
    f.number index ++ " " ++ f.palette.mark "╭" ++ " " ++ text ++ "\n"
  else
    f.number index ++ "   " ++ text ++ "\n" ++
    f.margin ++ f.bar ++ " " ++ f.palette.mark "╭" ++
    f.palette.mark (dashes line (·.byte ≤ lo) ++ "^") ++ "\n"

/-- A line in the middle of a span over several lines. -/
def middle (f : Frame) (index : Nat) : String :=
  f.number index ++ f.left ++ " " ++ body f.palette (f.source.line index) (fun _ => true) ++ "\n"

/-- The last line of a span over several lines. -/
def last (f : Frame) (label : String) (index hi : Nat) : String :=
  let line := f.source.line index
  f.number index ++ f.left ++ " " ++ body f.palette line (·.stop ≤ hi) ++ "\n" ++
  f.margin ++ f.bar ++ " " ++ f.palette.mark "╰" ++
  f.palette.mark (dashes line (·.byte < hi) ++ "^" ++
    if label.isEmpty then "" else " " ++ label) ++ "\n"

/-- A line that no part of the span is on. -/
def aside (f : Frame) (index : Nat) : String :=
  f.number index ++ "   " ++ body f.palette (f.source.line index) (fun _ => false) ++ "\n"

/-- The place of lines that are left out. -/
def gap (f : Frame) : String :=
  f.margin ++ f.palette.rule "·" ++ f.left ++ "\n"

/-- A span over the lines from `a` to `b`. Of the lines between, the first three
and the last are shown, and all of them if that saves no more than one. -/
def forward (f : Frame) (label : String) (a b : Nat) (span : Span) : String :=
  let hidden (j : Nat) : Bool := a + 6 < b && a + 4 ≤ j && j + 1 < b
  let shown (j : Nat) : String :=
    if hidden j then if j = a + 4 then f.gap else ""
    else if j = a then f.first j (span.start - f.source.lineStart a)
    else if j < b then f.middle j
    else f.last label j (span.stop - f.source.lineStart b)
  String.join ((List.range' a (b + 1 - a)).map shown)

/-- A span that starts on the line `a` and stops on an earlier line `b`. The lines
between are no part of it: a single one is shown, more are left out. -/
def backward (f : Frame) (label : String) (a b : Nat) (span : Span) : String :=
  let between :=
    if a = b + 1 then ""
    else if a = b + 2 then f.aside (b + 1)
    else f.gap
  f.last label b (span.stop - f.source.lineStart b) ++ between ++
    f.first a (span.start - f.source.lineStart a)

/-- A span over several lines. -/
def several (f : Frame) (label : String) (a b : Nat) (span : Span) : String :=
  f.margin ++ f.bar ++ "  \n" ++
    if a < b then f.forward label a b span else f.backward label a b span

end Frame

/-- A fault as it is shown, with a snippet of the text unless it is about none. -/
def render (palette : Palette) (source : Source) (fault : Fault) : String :=
  let title := palette.severity ++ "error" ++ palette.heading ++ ": " ++ fault.heading ++
    palette.reset ++ "\n"
  match fault.span? with
  | none => title ++ "\n"
  | some span =>
    let a := source.lineIndex span.start
    let b := source.lineIndex span.stop
    let frame : Frame := ⟨palette, source, (toString (max a b + 1)).length⟩
    let header := frame.margin ++ palette.rule "┌─" ++ " " ++ source.name ++ ":" ++
      toString (a + 1) ++ ":" ++ toString (source.column a span.start) ++ "\n"
    let lines := if a = b then frame.single fault.label a span
      else frame.several fault.label a b span
    title ++ header ++ lines ++ "\n"

end Decaf.Snippet
