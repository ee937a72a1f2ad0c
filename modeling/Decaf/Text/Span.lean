/-!
# Spans of a source text

A span is a stretch of bytes of a source text, from its first byte up to and
without its last offset. Every token, every node of a program and every
diagnostic carries one. Offsets count UTF-8 bytes, so a character may be worth
up to four of them; `byteLength` is that measure on a list of characters.
-/

namespace Decaf

/-- The number of UTF-8 bytes that a list of characters takes. -/
def byteLength : List Char → Nat
  | [] => 0
  | c :: cs => c.utf8Size + byteLength cs

@[simp] theorem byteLength_nil : byteLength [] = 0 := rfl

@[simp] theorem byteLength_cons (c : Char) (cs : List Char) :
    byteLength (c :: cs) = c.utf8Size + byteLength cs := rfl

@[simp] theorem byteLength_append (a b : List Char) :
    byteLength (a ++ b) = byteLength a + byteLength b := by
  induction a with
  | nil => simp
  | cons c cs ih => simp only [List.cons_append, byteLength_cons, ih, Nat.add_assoc]

/-- A stretch of bytes of a source text: `start` is its first byte, `stop` the
offset after its last one. -/
structure Span where
  start : Nat
  stop : Nat
deriving DecidableEq

namespace Span

/-- The smallest span that covers both. -/
def merge (a b : Span) : Span :=
  ⟨min a.start b.start, max a.stop b.stop⟩

/-- The number of bytes covered, none if the span ends before it starts. -/
def length (s : Span) : Nat :=
  s.stop - s.start

/-- The empty span at an offset. -/
def point (offset : Nat) : Span :=
  ⟨offset, offset⟩

/-- How a span is written in messages and dumps. -/
def text (s : Span) : String :=
  "Span \x7b start: " ++ toString s.start ++ ", end: " ++ toString s.stop ++ " \x7d"

end Span

end Decaf
