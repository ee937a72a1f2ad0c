import Decaf.Text.Lines
import Mathlib.Data.List.Basic

/-!
# The line of an offset

The line starts of a text ascend, so the bisection has one answer: the entries
before it are the starts at or before the offset, and the ones after it are not
(`bisect_parts`). The line of an offset hence grows with the offset, and the
line on which two stretches of text together begin is the smaller of their two
lines. It is one more than the number of newlines before the offset
(`lineOf_eq`), wherever the offset lies, so that two offsets are as many lines
apart as there are newlines between them (`lineOf_between`).
-/

namespace Decaf.Lines

/-- Line starts come behind the place they are counted from. -/
theorem lt_of_mem_startsAfter {text : List Char} {offset start : Nat}
    (h : start ∈ startsAfter offset text) : offset < start := by
  induction text generalizing offset with
  | nil => cases h
  | cons c cs ih =>
    have hc := c.utf8Size_pos
    unfold startsAfter at h
    split at h
    · rcases List.mem_cons.mp h with h | h
      · omega
      · have := ih h
        omega
    · have := ih h
      omega

theorem startsAfter_ascend (text : List Char) (offset : Nat) :
    (startsAfter offset text).Pairwise (· < ·) := by
  induction text generalizing offset with
  | nil => exact .nil
  | cons c cs ih =>
    unfold startsAfter
    split
    · apply List.Pairwise.cons
      · intro start h
        exact lt_of_mem_startsAfter h
      · exact ih _
    · exact ih _

/-- The line starts of a text ascend, the first of them zero. -/
theorem starts_ascend (text : List Char) :
    (ofChars text).starts.toList.Pairwise (· < ·) := by
  unfold ofChars
  apply List.Pairwise.cons
  · intro start h
    exact lt_of_mem_startsAfter h
  · exact startsAfter_ascend text 0

/-- A position that parts a table of starts: those before it are at or before
the offset, and no others. -/
def Parts (starts : Array Nat) (offset n : Nat) : Prop :=
  n ≤ starts.size ∧ ∀ i start, starts[i]? = some start → (i < n ↔ start ≤ offset)

/-- Each step of the bisection keeps the starts below `lo` at or before the offset, and those from
`hi` on after it; where the two meet is the answer. -/
theorem bisect_parts {starts : Array Nat} (hasc : starts.toList.Pairwise (· < ·))
    {offset lo hi : Nat} (hle : lo ≤ hi) (hhi : hi ≤ starts.size)
    (hbefore : ∀ i start, starts[i]? = some start → i < lo → start ≤ offset)
    (hafter : ∀ i start, starts[i]? = some start → hi ≤ i → offset < start) :
    Parts starts offset (bisect starts offset lo hi) := by
  have ordered : ∀ i j a b : Nat, starts[i]? = some a → starts[j]? = some b → i ≤ j → a ≤ b := by
    intro i j a b ha hb hij
    obtain ⟨hi, rfl⟩ := Array.getElem?_eq_some_iff.mp ha
    obtain ⟨hj, rfl⟩ := Array.getElem?_eq_some_iff.mp hb
    rcases Nat.lt_or_eq_of_le hij with hlt | rfl
    · exact Nat.le_of_lt (List.pairwise_iff_getElem.mp hasc i j hi hj hlt)
    · exact Nat.le_refl _
  fun_induction bisect starts offset lo hi with
  | case1 lo hi hlt mid start hmid hstart ih =>
    -- the middle line begins early enough, and so do all before it
    apply ih (by omega) hhi
    · intro i a ha hi
      have := ordered i mid a start ha hmid (by omega)
      omega
    · exact hafter
  | case2 lo hi hlt mid start hmid hstart ih =>
    -- the middle line begins too late, and so do all after it
    apply ih (by omega) (by omega) hbefore
    intro i a ha hi
    have := ordered mid i start a hmid ha hi
    omega
  | case3 lo hi hlt mid hmid ih =>
    have := Array.getElem?_eq_none_iff.mp hmid
    omega
  | case4 lo hi hlt =>
    refine ⟨by omega, ?_⟩
    intro i start h
    constructor
    · exact hbefore i start h
    · intro hle'
      by_contra hi
      have := hafter i start h (by omega)
      omega

/-- The line of an offset is the number of starts at or before it. -/
theorem lineOf_parts (text : List Char) (offset : Nat) :
    Parts (ofChars text).starts offset ((ofChars text).lineOf offset) := by
  apply bisect_parts (starts_ascend text) (Nat.zero_le _) (Nat.le_refl _)
  · intro i start _ hi
    omega
  · intro i start h hi
    have := (Array.getElem?_eq_some_iff.mp h).1
    omega

/-- A later offset is on no earlier line. -/
theorem lineOf_mono (text : List Char) {a b : Nat} (hab : a ≤ b) :
    (ofChars text).lineOf a ≤ (ofChars text).lineOf b := by
  obtain ⟨hsize, ha⟩ := lineOf_parts text a
  obtain ⟨_, hb⟩ := lineOf_parts text b
  by_contra hlt
  -- the first start that is too late for `b` would be early enough for `a`
  have hi : (ofChars text).lineOf b < (ofChars text).starts.size := by omega
  have hstart := Array.getElem?_eq_getElem hi
  have := (ha _ _ hstart).mp (by omega)
  have := (hb _ _ hstart).mpr (by omega)
  omega

/-- The line on which two stretches together begin is the smaller of their lines. -/
theorem lineOf_min (text : List Char) (a b : Nat) :
    (ofChars text).lineOf (min a b) =
      min ((ofChars text).lineOf a) ((ofChars text).lineOf b) := by
  rcases Nat.le_total a b with h | h
  · rw [Nat.min_eq_left h, Nat.min_eq_left (lineOf_mono text h)]
  · rw [Nat.min_eq_right h, Nat.min_eq_right (lineOf_mono text h)]

/-! ## Newlines before an offset -/

/-- The characters of a text that begin before an offset. -/
def charsBefore : Nat → List Char → List Char
  | _, [] => []
  | offset, c :: cs => if offset = 0 then [] else c :: charsBefore (offset - c.utf8Size) cs

/-- Where a character begins, the text before it is what is before it. -/
theorem charsBefore_append (a b : List Char) : charsBefore (byteLength a) (a ++ b) = a := by
  induction a with
  | nil => cases b <;> rfl
  | cons c cs ih =>
    have hc := c.utf8Size_pos
    have hrest : c.utf8Size + byteLength cs - c.utf8Size = byteLength cs := by omega
    rw [byteLength_cons, List.cons_append, charsBefore, if_neg (by omega), hrest, ih]

/-- If the starts at or before an offset are the first `n`, there are `n` of them. -/
theorem countP_eq_of_front {offset n : Nat} {starts : List Nat} (hn : n ≤ starts.length)
    (h : ∀ i start, starts[i]? = some start → (i < n ↔ start ≤ offset)) :
    starts.countP (· ≤ offset) = n := by
  induction starts generalizing n with
  | nil => exact (Nat.le_zero.mp hn).symm
  | cons a starts ih =>
    have ha := h 0 a rfl
    cases n with
    | zero =>
      rw [List.countP_cons_of_neg (by rw [decide_eq_true_iff, ← ha]; omega)]
      apply ih (Nat.zero_le _)
      intro i start hi
      have := h (i + 1) start hi
      omega
    | succ n =>
      rw [List.countP_cons_of_pos (by rw [decide_eq_true_iff, ← ha]; omega)]
      have hcount : starts.countP (· ≤ offset) = n := by
        apply ih (Nat.le_of_succ_le_succ hn)
        intro i start hi
        have := h (i + 1) start hi
        omega
      rw [hcount]

/-- The lines that begin at or before an offset, the first apart, are the newlines before it. -/
theorem countP_startsAfter (text : List Char) (offset base : Nat) :
    (startsAfter base text).countP (· ≤ offset) =
      (charsBefore (offset - base) text).count '\n' := by
  induction text generalizing base with
  | nil => rfl
  | cons c cs ih =>
    have hc := c.utf8Size_pos
    unfold charsBefore
    by_cases hbefore : offset - base = 0
    · -- the text begins too late, and all its lines with it
      rw [if_pos hbefore, List.count_nil, List.countP_eq_zero]
      intro start hstart
      have := lt_of_mem_startsAfter hstart
      rw [decide_eq_true_iff]
      omega
    · have hsub : offset - base - c.utf8Size = offset - (base + c.utf8Size) := by omega
      rw [if_neg hbefore, hsub]
      unfold startsAfter
      by_cases hnewline : c = '\n'
      · have hsize : c.utf8Size = 1 := by rw [hnewline]; rfl
        rw [if_pos hnewline, List.countP_cons_of_pos (by rw [decide_eq_true_iff]; omega), ih,
          hnewline, List.count_cons_self]
      · rw [if_neg hnewline, ih, List.count_cons_of_ne hnewline]

/-- The line of an offset is one more than the number of newlines before it. -/
theorem lineOf_eq (text : List Char) (offset : Nat) :
    (ofChars text).lineOf offset = 1 + (charsBefore offset text).count '\n' := by
  obtain ⟨hsize, hparts⟩ := lineOf_parts text offset
  have hcount : (ofChars text).starts.toList.countP (· ≤ offset) =
      (ofChars text).lineOf offset :=
    countP_eq_of_front hsize fun i start hi => hparts i start (by rwa [Array.getElem?_toList] at hi)
  rw [← hcount, ofChars, List.countP_cons_of_pos (by rw [decide_eq_true_iff]; omega),
    countP_startsAfter, Nat.sub_zero, Nat.add_comm]

/-- The characters before an offset begin those before a later one. -/
theorem charsBefore_isPrefix (text : List Char) {a b : Nat} (h : a ≤ b) :
    charsBefore a text <+: charsBefore b text := by
  induction text generalizing a b with
  | nil => exact List.prefix_rfl
  | cons c cs ih =>
    unfold charsBefore
    by_cases ha : a = 0
    · rw [if_pos ha]
      exact List.nil_prefix
    · rw [if_neg ha, if_neg (by omega)]
      exact List.cons_prefix_cons.mpr ⟨rfl, ih (by omega)⟩

/-- The characters of a text that begin at or behind an offset, but before another. -/
def between (a b : Nat) (text : List Char) : List Char :=
  (charsBefore b text).drop (charsBefore a text).length

/-- From one offset to a later one there are as many lines as newlines between them. -/
theorem lineOf_between (text : List Char) {a b : Nat} (h : a ≤ b) :
    (ofChars text).lineOf b = (ofChars text).lineOf a + (between a b text).count '\n' := by
  have hsplit : charsBefore b text = charsBefore a text ++ between a b text :=
    (List.prefix_iff_eq_append.mp (charsBefore_isPrefix text h)).symm
  rw [lineOf_eq, lineOf_eq, hsplit, List.count_append, Nat.add_assoc]

end Decaf.Lines
