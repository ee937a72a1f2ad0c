import Decaf.Text.Span

/-!
# Line numbers of byte offsets

The table `Lines` holds the offset at which each line of a text begins, in
increasing order. The line of an offset is then the number of lines that begin
at or before it, which a bisection of the table finds: lines count from one,
and an offset past the end belongs to the last line.
-/

namespace Decaf

/-- The offsets at which the lines of a text begin. -/
structure Lines where
  starts : Array Nat

namespace Lines

/-- The starts of the lines after the first, for a text that begins at
`offset`: a new line begins after each newline. -/
def startsAfter (offset : Nat) : List Char → List Nat
  | [] => []
  | c :: cs =>
    let next := offset + c.utf8Size
    if c = '\n' then next :: startsAfter next cs else startsAfter next cs

/-- The line table of a text. -/
def ofChars (text : List Char) : Lines :=
  ⟨(0 :: startsAfter 0 text).toArray⟩

/-- The number of entries of a sorted table that are at most `offset`, if it
lies between `lo` and `hi`: the middle entry tells which half holds it. -/
def bisect (starts : Array Nat) (offset lo hi : Nat) : Nat :=
  if lo < hi then
    let mid := (lo + hi) / 2
    match starts[mid]? with
    | some start =>
      if start ≤ offset then bisect starts offset (mid + 1) hi
      else bisect starts offset lo mid
    | none => bisect starts offset lo mid
  else lo
termination_by hi - lo

/-- The line, counted from one, that holds the byte at `offset`. -/
def lineOf (lines : Lines) (offset : Nat) : Nat :=
  bisect lines.starts offset 0 lines.starts.size

end Lines

end Decaf
