import Decaf.Proofs.Text.Lines
import Mathlib.Data.List.Basic

/-!
# Lines by bytes

The line table against the bytes of a text. A newline is the only character whose encoding
holds the byte ten, so the entries of the table are zero and the offsets behind these bytes
(`mem_starts_iff`), and the line of an offset is one more than the number of them below it,
also if the offset is inside a character or past the end (`lineOf_eq_count`).

A sorted table can be searched in many ways: the entry that is compared next may be any of
those still in question (`Probing`), and the answer tells whether the offset is an entry or
where it would have to be put (`Found`). For a table without repetitions there is one right
answer (`Found.Answers.unique`), which every search gives, and the line is read off it.
-/

namespace Decaf.Lines

/-! ## Bytes -/

/-- The bytes of some characters. -/
def bytes (text : List Char) : List UInt8 :=
  text.flatMap String.utf8EncodeChar

/-- The byte of a newline. -/
def newline : UInt8 := 10

theorem bytes_toList (source : String) : bytes source.toList = source.toByteArray.data.toList := by
  rw [← String.utf8Encode_toList, List.utf8Encode, List.data_toByteArray]
  rfl

theorem bytes_cons (c : Char) (cs : List Char) :
    bytes (c :: cs) = String.utf8EncodeChar c ++ bytes cs :=
  List.flatMap_cons

theorem newline_ne_or (x : UInt8) {k : UInt8} (hk : 128 ≤ k.toNat) : newline ≠ x ||| k := by
  intro h
  have hle : k.toNat ≤ (x ||| k).toNat := by
    rw [UInt8.toNat_or]
    exact Nat.right_le_or
  rw [← h] at hle
  have hten : newline.toNat = 10 := rfl
  omega

/-- No other character has the byte of a newline in its encoding. -/
theorem newline_not_mem {c : Char} (hc : c ≠ '\n') : newline ∉ String.utf8EncodeChar c := by
  rcases c.utf8Size_eq with hsize | hsize | hsize | hsize
  · rw [String.utf8EncodeChar_eq_singleton hsize, List.mem_singleton]
    intro h
    have hle := UInt32.le_iff_toNat_le.mp (Char.utf8Size_eq_one_iff.mp hsize)
    have hval : c.val.toNat % 256 = 10 := by
      rw [← UInt32.toNat_toUInt8, ← h]
      rfl
    have hmax : (127 : UInt32).toNat = 127 := rfl
    have hten : c.val = '\n'.val := by
      apply UInt32.toNat_inj.mp
      have : '\n'.val.toNat = 10 := rfl
      omega
    exact hc (Char.ext hten)
  · rw [String.utf8EncodeChar_eq_cons_cons hsize]
    simp only [List.mem_cons, List.not_mem_nil, or_false, not_or]
    exact ⟨newline_ne_or _ (by decide), newline_ne_or _ (by decide)⟩
  · rw [String.utf8EncodeChar_eq_cons_cons_cons hsize]
    simp only [List.mem_cons, List.not_mem_nil, or_false, not_or]
    exact ⟨newline_ne_or _ (by decide), newline_ne_or _ (by decide), newline_ne_or _ (by decide)⟩
  · rw [String.utf8EncodeChar_eq_cons_cons_cons_cons hsize]
    simp only [List.mem_cons, List.not_mem_nil, or_false, not_or]
    exact ⟨newline_ne_or _ (by decide), newline_ne_or _ (by decide), newline_ne_or _ (by decide),
      newline_ne_or _ (by decide)⟩

theorem utf8EncodeChar_newline : String.utf8EncodeChar '\n' = [newline] := by
  decide

/-- The newlines that begin before an offset are the bytes of newlines below it. -/
theorem count_charsBefore (offset : Nat) (text : List Char) :
    (charsBefore offset text).count '\n' = ((bytes text).take offset).count newline := by
  induction text generalizing offset with
  | nil => rw [charsBefore, bytes, List.flatMap_nil, List.take_nil]; rfl
  | cons c cs ih =>
    rw [charsBefore, bytes_cons]
    by_cases hzero : offset = 0
    · rw [if_pos hzero, hzero, List.take_zero]
      rfl
    · rw [if_neg hzero, List.take_append, List.count_append, String.length_utf8EncodeChar, ← ih]
      by_cases hc : c = '\n'
      · have hone : (String.utf8EncodeChar c).take offset = [newline] := by
          rw [hc, utf8EncodeChar_newline, List.take_of_length_le]
          rw [List.length_singleton]
          omega
        rw [hone, hc, List.count_cons_self, List.count_singleton_self, Nat.add_comm]
      · have hnone : ((String.utf8EncodeChar c).take offset).count newline = 0 :=
          List.count_eq_zero.mpr fun h => newline_not_mem hc (List.mem_of_mem_take h)
        rw [hnone, List.count_cons_of_ne hc, Nat.zero_add]

/-- The line of an offset is one more than the number of newline bytes below it. -/
theorem lineOf_eq_count (source : String) (offset : Nat) :
    (ofChars source.toList).lineOf offset =
      1 + (source.toByteArray.data.toList.take offset).count newline := by
  rw [lineOf_eq, count_charsBefore, bytes_toList]

/-- The bytes behind a character are those of the rest. -/
theorem bytes_cons_getElem? (c : Char) (cs : List Char) (i : Nat) :
    (bytes (c :: cs))[c.utf8Size + i]? = (bytes cs)[i]? := by
  have hlength := String.length_utf8EncodeChar c
  rw [bytes_cons, List.getElem?_append_right (by omega), hlength, Nat.add_sub_cancel_left]

/-- A line after the first begins behind a newline byte. -/
theorem mem_startsAfter_iff {text : List Char} {base start : Nat} :
    start ∈ startsAfter base text ↔
      ∃ i, (bytes text)[i]? = some newline ∧ start = base + i + 1 := by
  induction text generalizing base with
  | nil =>
    constructor
    · intro h
      cases h
    · rintro ⟨i, hi, -⟩
      cases hi
  | cons c cs ih =>
    have hlength := String.length_utf8EncodeChar c
    -- a newline behind the first character is one of the rest
    have hrest : ∀ i, c.utf8Size ≤ i → (bytes (c :: cs))[i]? = some newline → start = base + i + 1 →
        start ∈ startsAfter (base + c.utf8Size) cs := by
      intro i hle hi hstart
      rw [← Nat.add_sub_of_le hle, bytes_cons_getElem?] at hi
      exact ih.mpr ⟨i - c.utf8Size, hi, by omega⟩
    have hlater : start ∈ startsAfter (base + c.utf8Size) cs →
        ∃ i, (bytes (c :: cs))[i]? = some newline ∧ start = base + i + 1 := by
      intro h
      obtain ⟨i, hi, hstart⟩ := ih.mp h
      exact ⟨c.utf8Size + i, (bytes_cons_getElem? c cs i).trans hi, by omega⟩
    unfold startsAfter
    by_cases hc : c = '\n'
    · have hsize : c.utf8Size = 1 := by rw [hc]; rfl
      rw [if_pos hc, List.mem_cons]
      constructor
      · rintro (h | h)
        · refine ⟨0, ?_, by omega⟩
          rw [bytes_cons, hc, utf8EncodeChar_newline]
          rfl
        · exact hlater h
      · rintro ⟨i, hi, hstart⟩
        cases i with
        | zero => exact .inl (by omega)
        | succ i => exact .inr (hrest (i + 1) (by omega) hi hstart)
    · rw [if_neg hc]
      constructor
      · exact hlater
      · rintro ⟨i, hi, hstart⟩
        by_cases hle : c.utf8Size ≤ i
        · exact hrest i hle hi hstart
        · rw [bytes_cons, List.getElem?_append_left (by omega)] at hi
          exact absurd (List.mem_of_getElem? hi) (newline_not_mem hc)

/-- The lines begin at zero and behind the newline bytes. -/
theorem mem_starts_iff (source : String) (start : Nat) :
    start ∈ (ofChars source.toList).starts.toList ↔
      start = 0 ∨ ∃ i, source.toByteArray.data.toList[i]? = some newline ∧ start = i + 1 := by
  rw [ofChars, List.mem_cons, mem_startsAfter_iff, bytes_toList]
  simp only [Nat.zero_add]

/-! ## Searching a sorted table -/

/-- What a search answers: where the value is, or where it would have to be put. -/
inductive Found where
  | present (index : Nat)
  | absent (index : Nat)

namespace Found

/-- The line of an offset, from where it is in the table of line starts: an entry begins the
line, anything else is on the line before. -/
def line : Found → Nat
  | present index => index + 1
  | absent index => index

/-- An answer is right: the value is there, or it is not in the table, and up to the index
all entries are smaller and from there on they are larger. -/
inductive Answers (starts : Array Nat) (offset : Nat) : Found → Prop
  | present {index : Nat} : starts[index]? = some offset → Answers starts offset (.present index)
  | absent {index : Nat} : index ≤ starts.size →
    (∀ i start, starts[i]? = some start → i < index → start < offset) →
    (∀ i start, starts[i]? = some start → index ≤ i → offset < start) →
    Answers starts offset (.absent index)

end Found

/-- A way to choose the entry to look at next among those from `lo` up to `hi`. -/
structure Probing where
  probe : Nat → Nat → Nat
  lo_le : ∀ {lo hi : Nat}, lo < hi → lo ≤ probe lo hi
  lt_hi : ∀ {lo hi : Nat}, lo < hi → probe lo hi < hi

/-- Looks at the entries one after the other. -/
def Probing.inTurn : Probing :=
  ⟨fun lo _ => lo, fun _ => Nat.le_refl _, fun h => h⟩

/-- Searches the entries of a table from `lo` up to `hi`. -/
def searchFrom (probing : Probing) (starts : Array Nat) (offset lo hi : Nat) : Found :=
  if h : lo < hi then
    have := probing.lo_le h
    have := probing.lt_hi h
    match starts[probing.probe lo hi]? with
    | none => .absent lo
    | some start =>
      if start = offset then .present (probing.probe lo hi)
      else if start < offset then searchFrom probing starts offset (probing.probe lo hi + 1) hi
      else searchFrom probing starts offset lo (probing.probe lo hi)
  else .absent lo
termination_by hi - lo

/-- Searches a whole table. -/
def search (probing : Probing) (starts : Array Nat) (offset : Nat) : Found :=
  searchFrom probing starts offset 0 starts.size

/-- One position parts a table. -/
theorem Parts.unique {starts : Array Nat} {offset m n : Nat} (hm : Parts starts offset m)
    (hn : Parts starts offset n) : m = n := by
  have hle : ∀ {a b : Nat}, Parts starts offset a → Parts starts offset b → b ≤ a := by
    intro a b ha hb
    by_contra hlt
    -- the entry at `a` would be early enough and too late
    have hsize : a < starts.size := Nat.lt_of_lt_of_le (Nat.lt_of_not_le hlt) hb.1
    have hstart := Array.getElem?_eq_getElem hsize
    have := ha.2 a _ hstart
    have := hb.2 a _ hstart
    omega
  exact Nat.le_antisymm (hle hn hm) (hle hm hn)

section Sorted

variable {starts : Array Nat} (hasc : starts.toList.Pairwise (· < ·)) {offset : Nat}

include hasc

theorem getElem?_lt {i j a b : Nat} (ha : starts[i]? = some a) (hb : starts[j]? = some b)
    (hij : i < j) : a < b := by
  obtain ⟨hi, rfl⟩ := Array.getElem?_eq_some_iff.mp ha
  obtain ⟨hj, rfl⟩ := Array.getElem?_eq_some_iff.mp hb
  exact List.pairwise_iff_getElem.mp hasc i j hi hj hij

/-- Whatever entries are looked at, the answer of a search is right. -/
theorem searchFrom_answers (probing : Probing) {lo hi : Nat} (hle : lo ≤ hi)
    (hhi : hi ≤ starts.size)
    (hbefore : ∀ i start, starts[i]? = some start → i < lo → start < offset)
    (hafter : ∀ i start, starts[i]? = some start → hi ≤ i → offset < start) :
    (searchFrom probing starts offset lo hi).Answers starts offset := by
  fun_induction searchFrom probing starts offset lo hi with
  | case1 lo hi hlt hprobe hprobe' hnone =>
    have := Array.getElem?_eq_none_iff.mp hnone
    omega
  | case2 lo hi hlt hprobe hprobe' hsome => exact .present hsome
  | case3 lo hi hlt hprobe hprobe' start hsome hne hsmaller ih =>
    apply ih hprobe' hhi _ hafter
    intro i a ha hi
    rcases Nat.lt_or_eq_of_le (Nat.le_of_lt_succ hi) with hi | rfl
    · exact Nat.lt_trans (getElem?_lt hasc ha hsome hi) hsmaller
    · cases hsome.symm.trans ha
      exact hsmaller
  | case4 lo hi hlt hprobe hprobe' start hsome hne hlarger ih =>
    apply ih hprobe (by omega) hbefore
    intro i a ha hi
    rcases Nat.lt_or_eq_of_le hi with hi | rfl
    · have := getElem?_lt hasc hsome ha hi
      omega
    · cases hsome.symm.trans ha
      omega
  | case5 lo hi hge =>
    refine .absent (by omega) hbefore fun i start hstart hi => hafter i start hstart (by omega)

theorem search_answers (probing : Probing) :
    (search probing starts offset).Answers starts offset := by
  apply searchFrom_answers hasc probing (Nat.zero_le _) (Nat.le_refl _)
  · intro i start _ hi
    omega
  · intro i start h hi
    have := (Array.getElem?_eq_some_iff.mp h).1
    omega

/-- The line that is read off a right answer parts the table. -/
theorem Found.Answers.parts {found : Found} (h : found.Answers starts offset) :
    Parts starts offset found.line := by
  cases h with
  | @present index hindex =>
    have hlt := (Array.getElem?_eq_some_iff.mp hindex).1
    refine ⟨hlt, fun i start hstart => ?_⟩
    rcases Nat.lt_trichotomy i index with hi | rfl | hi
    · have := getElem?_lt hasc hstart hindex hi
      simp only [Found.line]
      omega
    · cases hindex.symm.trans hstart
      simp only [Found.line]
      omega
    · have := getElem?_lt hasc hindex hstart hi
      simp only [Found.line]
      omega
  | @absent index hle hbefore hafter =>
    refine ⟨hle, fun i start hstart => ⟨fun hi => Nat.le_of_lt (hbefore i start hstart hi), ?_⟩⟩
    intro hstart'
    by_contra hi
    have := hafter i start hstart (Nat.le_of_not_lt hi)
    omega

/-- There is one right answer. -/
theorem Found.Answers.unique {a b : Found} (ha : a.Answers starts offset)
    (hb : b.Answers starts offset) : a = b := by
  have hline : a.line = b.line := (ha.parts hasc).unique (hb.parts hasc)
  cases ha with
  | @present i hi =>
    cases hb with
    | @present j hj => exact congrArg Found.present (Nat.succ.inj hline)
    | @absent j _ hbefore _ =>
      have := hbefore i offset hi (Nat.lt_of_lt_of_eq (Nat.lt_succ_self i) hline)
      omega
  | @absent i _ hbefore _ =>
    cases hb with
    | @present j hj =>
      have := hbefore j offset hj (Nat.lt_of_lt_of_eq (Nat.lt_succ_self j) hline.symm)
      omega
    | @absent j _ _ _ => exact congrArg Found.absent hline

end Sorted

/-- The line table is exact. The line of an offset, wherever it lies, is one more than the
number of newline bytes below it, and never zero. The table ascends strictly and holds zero
and the offsets behind the newline bytes; however it is searched, the answer is the same, and
no other answer would be right. The line is read off it: one more than the place of an offset
that is an entry, and else the place where it would have to be put. -/
theorem lineOf_exact (source : String) (offset : Nat) :
    let lines := ofChars source.toList
    let below := source.toByteArray.data.toList.take offset
    lines.lineOf offset = 1 + below.count newline ∧
    lines.lineOf offset ≠ 0 ∧
    lines.starts.toList.Pairwise (· < ·) ∧
    (∀ start, start ∈ lines.starts.toList ↔
      start = 0 ∨ ∃ i, source.toByteArray.data.toList[i]? = some newline ∧ start = i + 1) ∧
    ∃ found : Found, found.Answers lines.starts offset ∧
      found.line = lines.lineOf offset ∧
      (∀ probing, search probing lines.starts offset = found) ∧
      ∀ other : Found, other.Answers lines.starts offset → other = found := by
  intro lines below
  have hasc : lines.starts.toList.Pairwise (· < ·) := starts_ascend source.toList
  have hcount := lineOf_eq_count source offset
  have hfound : (search .inTurn lines.starts offset).Answers lines.starts offset :=
    search_answers hasc .inTurn
  have hne : lines.lineOf offset ≠ 0 := by
    rw [show lines.lineOf offset = _ from hcount]
    omega
  refine ⟨hcount, hne, hasc, mem_starts_iff source, _, hfound, ?_, fun probing => ?_,
    fun other hother => hother.unique hasc hfound⟩
  · exact (hfound.parts hasc).unique (lineOf_parts source.toList offset)
  · exact (search_answers hasc probing).unique hasc hfound

/-- On a newline, behind it, on an empty line, and past the end. -/
example : [0, 6, 7, 14, 15, 99].map (ofChars "int a;\nint b;\n\nint c;".toList).lineOf =
    [1, 1, 2, 3, 4, 4] := by
  decide +kernel

end Decaf.Lines
