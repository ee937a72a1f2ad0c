/-!
# Similar words

How alike two words are, between nought and one: by the characters they have in
common at nearly the same place, and by how many of these come in another order.
-/

namespace Decaf.Text

/-- Takes the first position between `lo` and `hi` that holds `c` and is not
taken yet. A taken position holds nothing. -/
def takeMatch (c : Char) (lo hi : Nat) (word : List (Option Char)) :
    Option (Nat × List (Option Char)) :=
  let found := word.zipIdx.find? fun (d, j) => lo ≤ j && j < hi && d == some c
  found.map fun (_, j) => (j, word.set j none)

/-- The characters of a word, from position `i` on, that have a match in `free`,
each with the position of its match. Matches are at most `range` apart. -/
def matchesFrom (range : Nat) : Nat → List Char → List (Option Char) → List (Char × Nat)
  | _, [], _ => []
  | i, c :: cs, free =>
    match takeMatch c (i - range) (i + range + 1) free with
    | some (j, free) => (c, j) :: matchesFrom range (i + 1) cs free
    | none => matchesFrom range (i + 1) cs free

/-- How alike two words are: the mean of the share of the first word that has a
match, the share of the second word that has one, and the share of the matches that
come in the same order. A pair of matches in each other's place counts once. -/
def likeness (a b : String) : Float :=
  let as := a.toList
  let bs := b.toList
  let range := max as.length bs.length / 2 - 1
  let found := matchesFrom range 0 as (bs.map some)
  let m := found.length
  if as.isEmpty && bs.isEmpty then 1
  else if m = 0 then 0
  else
    -- The matched characters of the second word, in its own order.
    let partners := bs.zipIdx.filterMap fun (d, j) =>
      if found.any (·.2 == j) then some d else none
    let moved := ((found.map (·.1)).zip partners).countP fun (c, d) => c != d
    let ratio (k n : Nat) : Float := k.toFloat / n.toFloat
    (ratio m as.length + ratio m bs.length + ratio (m - moved / 2) m) / 3

/-- Two words are clearly alike above this likeness. -/
def clearlyAlike : Float := 0.7

/-- The word most like `word` among some candidates, if any is clearly alike. Of
two that are equally alike, the later one. -/
def mostSimilar? (word : String) (candidates : List String) : Option String :=
  let scored := (candidates.map fun c => (c, likeness word c)).filter
    fun (_, l) => clearlyAlike < l
  let best := scored.foldl (fun best next =>
    match best with
    | none => some next
    | some b => if next.2 < b.2 then best else some next) none
  best.map (·.1)

end Decaf.Text
