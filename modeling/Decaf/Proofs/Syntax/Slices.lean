import Decaf.Syntax.Parser
import Decaf.Proofs.Token.Spelled

/-!
# Literals as slices

The digits of a hexadecimal literal and the content of a string literal are slices of its
text: from one byte offset to another, both in the text and neither inside a character
(`slice?`). What the model drops and takes from the list of characters is that slice for
every token of a text, because of how the token is spelled (`literalOfSlice?_eq`). The
content of a string literal never ends in a backslash that escapes nothing.
-/

namespace Decaf

/-! ## Slices -/

/-- A text without so many bytes at its front, if these are whole characters. -/
def dropBytes? : Nat → List Char → Option (List Char)
  | 0, cs => some cs
  | _ + 1, [] => none
  | n + 1, c :: cs => if c.utf8Size ≤ n + 1 then dropBytes? (n + 1 - c.utf8Size) cs else none

/-- So many bytes from the front of a text, if these are whole characters. -/
def takeBytes? : Nat → List Char → Option (List Char)
  | 0, _ => some []
  | _ + 1, [] => none
  | n + 1, c :: cs =>
    if c.utf8Size ≤ n + 1 then (takeBytes? (n + 1 - c.utf8Size) cs).map (c :: ·) else none

/-- A text between two offsets in bytes. They must come in order, lie in the text and not
inside a character. -/
def slice? (start stop : Nat) (text : List Char) : Option (List Char) :=
  if start ≤ stop then (dropBytes? start text).bind (takeBytes? (stop - start)) else none

/-- A text can be cut after a number of bytes if these are whole characters. -/
theorem dropBytes?_eq_some_iff {n : Nat} {text rest : List Char} :
    dropBytes? n text = some rest ↔ ∃ front, text = front ++ rest ∧ byteLength front = n := by
  fun_induction dropBytes? n text generalizing rest with
  | case1 cs =>
    refine ⟨fun h => ⟨[], Option.some.inj h, rfl⟩, fun ⟨front, htext, hlength⟩ => ?_⟩
    cases front with
    | nil => rw [htext, List.nil_append]
    | cons c front =>
      have hpos := c.utf8Size_pos
      rw [byteLength_cons] at hlength
      omega
  | case2 n =>
    refine ⟨fun h => (by cases h), fun ⟨front, htext, hlength⟩ => ?_⟩
    rw [List.nil_eq, List.append_eq_nil_iff] at htext
    rw [htext.1, byteLength_nil] at hlength
    omega
  | case3 n c cs hle ih =>
    rw [ih]
    constructor
    · intro ⟨front, htext, hlength⟩
      refine ⟨c :: front, by rw [htext, List.cons_append], ?_⟩
      rw [byteLength_cons]
      omega
    · intro ⟨front, htext, hlength⟩
      cases front with
      | nil => cases hlength
      | cons d front =>
        injection htext with hc hcs
        subst hc
        rw [byteLength_cons] at hlength
        exact ⟨front, hcs, by omega⟩
  | case4 n c cs hgt =>
    refine ⟨fun h => (by cases h), fun ⟨front, htext, hlength⟩ => ?_⟩
    cases front with
    | nil => cases hlength
    | cons d front =>
      injection htext with hc hcs
      subst hc
      rw [byteLength_cons] at hlength
      omega

/-- What is cut off is the front with so many bytes. -/
theorem takeBytes?_eq_some_iff {n : Nat} {text front : List Char} :
    takeBytes? n text = some front ↔ (∃ rest, text = front ++ rest) ∧ byteLength front = n := by
  fun_induction takeBytes? n text generalizing front with
  | case1 cs =>
    refine ⟨fun h => Option.some.inj h ▸ ⟨⟨cs, rfl⟩, rfl⟩, fun ⟨_, hlength⟩ => ?_⟩
    cases front with
    | nil => rfl
    | cons c front =>
      have hpos := c.utf8Size_pos
      rw [byteLength_cons] at hlength
      omega
  | case2 n =>
    refine ⟨fun h => (by cases h), fun ⟨⟨rest, htext⟩, hlength⟩ => ?_⟩
    rw [List.nil_eq, List.append_eq_nil_iff] at htext
    rw [htext.1, byteLength_nil] at hlength
    omega
  | case3 n c cs hle ih =>
    rw [Option.map_eq_some_iff]
    constructor
    · intro ⟨more, hmore, hfront⟩
      obtain ⟨⟨rest, htext⟩, hlength⟩ := ih.mp hmore
      subst hfront
      refine ⟨⟨rest, by rw [htext, List.cons_append]⟩, ?_⟩
      rw [byteLength_cons]
      omega
    · intro ⟨⟨rest, htext⟩, hlength⟩
      cases front with
      | nil => cases hlength
      | cons d front =>
        injection htext with hc hcs
        subst hc
        rw [byteLength_cons] at hlength
        exact ⟨front, ih.mpr ⟨⟨rest, hcs⟩, by omega⟩, rfl⟩
  | case4 n c cs hgt =>
    refine ⟨fun h => (by cases h), fun ⟨⟨rest, htext⟩, hlength⟩ => ?_⟩
    cases front with
    | nil => cases hlength
    | cons d front =>
      injection htext with hc hcs
      subst hc
      rw [byteLength_cons] at hlength
      omega

/-- A slice is what stands between the characters before one offset and those behind the
other. -/
theorem slice?_eq_some_iff {start stop : Nat} {text mid : List Char} :
    slice? start stop text = some mid ↔
      ∃ before after, text = before ++ mid ++ after ∧ byteLength before = start ∧
        byteLength (before ++ mid) = stop := by
  unfold slice?
  constructor
  · intro h
    split at h
    next hle =>
      obtain ⟨rest, hrest, hmid⟩ := Option.bind_eq_some_iff.mp h
      obtain ⟨before, htext, hbefore⟩ := dropBytes?_eq_some_iff.mp hrest
      obtain ⟨⟨after, hafter⟩, hlength⟩ := takeBytes?_eq_some_iff.mp hmid
      refine ⟨before, after, by rw [htext, hafter, List.append_assoc], hbefore, ?_⟩
      rw [byteLength_append]
      omega
    next => cases h
  · intro ⟨before, after, htext, hstart, hstop⟩
    rw [byteLength_append] at hstop
    rw [if_pos (by omega)]
    refine Option.bind_eq_some_iff.mpr ⟨mid ++ after, ?_, ?_⟩
    · exact dropBytes?_eq_some_iff.mpr ⟨before, by rw [htext, List.append_assoc], hstart⟩
    · exact takeBytes?_eq_some_iff.mpr ⟨⟨after, rfl⟩, by omega⟩

/-! ## Literals -/

/-- The integer that a hexadecimal literal denotes, from the slice behind the first two
bytes. -/
def intOfHexSlice? (text : String) : Option (Option Nat) := do
  let digits ← slice? 2 (byteLength text.toList) text.toList
  return if digitsValue 16 digits ≤ largestInt then some (digitsValue 16 digits) else none

/-- The value of a string literal, from the slice between the first byte and the last. A
backslash that escapes nothing must not be met. -/
def stringOfSlice? (text : String) : Option (Except EscapeError String) := do
  let content ← slice? 1 (byteLength text.toList - 1) text.toList
  match unescape content with
  | .error .unfinished => none
  | value => some (value.map String.ofList)

/-- The literal that a token denotes, if it is one, from slices of its text. -/
def Parser.literalOfSlice? (t : Token) : Option (Option (Except ParseError Literal)) :=
  match t.kind with
  | .hexLiteral text => do
    match ← intOfHexSlice? text with
    | some value => return some (.ok (.int value))
    | none => return some (.error (.integerTooLarge text t.span))
  | .stringLiteral text => do
    match ← stringOfSlice? text with
    | .ok value => return some (.ok (.str value))
    | .error e => return some (.error (.badEscape e t.span))
  | _ => some (literal? t)

/-- Between the quotes of a string literal every backslash has a character behind it. -/
theorem StringItems.unescape_ne_unfinished {items : List Char} (h : StringItems items) :
    unescape items ≠ .error .unfinished := by
  induction h with
  | nil =>
    intro he
    cases he
  | @plain c cs hquote hback hline _ ih =>
    rw [unescape.eq_4 _ _ (by simp_all) (by simp_all)]
    cases hcs : unescape cs with
    | error e =>
      intro he
      exact ih (hcs.trans (congrArg Except.error (Except.error.inj he)))
    | ok value =>
      intro he
      cases he
  | @escape c cs _ _ ih =>
    rw [unescape]
    cases escaped? c with
    | none =>
      intro he
      cases he
    | some d =>
      cases hcs : unescape cs with
      | error e =>
        intro he
        exact ih (hcs.trans (congrArg Except.error (Except.error.inj he)))
      | ok value =>
        intro he
        cases he

/-- The digits of a hexadecimal literal are its slice from the third byte on. -/
theorem intOfHexSlice?_eq {text : String} (h : (Token.Kind.hexLiteral text).WellSpelled) :
    intOfHexSlice? text = some (intOfHex? text) := by
  obtain ⟨x, d, ds, htext, hx, -⟩ := h
  have hsize : x.utf8Size = 1 := by
    rcases hx with rfl | rfl <;> rfl
  have hslice : slice? 2 (byteLength text.toList) text.toList = some (d :: ds) := by
    refine slice?_eq_some_iff.mpr ⟨['0', x], [], ?_, ?_, ?_⟩
    · rw [htext, List.append_nil]
      rfl
    · rw [byteLength_cons, byteLength_cons, byteLength_nil, hsize]
      rfl
    · rw [htext]
      rfl
  unfold intOfHexSlice? intOfHex?
  rw [hslice, htext]
  rfl

/-- The content of a string literal is its slice without the first and the last byte: both are
quotes, one byte each. -/
theorem stringOfSlice?_eq {text : String} (h : (Token.Kind.stringLiteral text).WellSpelled) :
    stringOfSlice? text = some (stringValue text) := by
  obtain ⟨items, htext, hitems⟩ := h
  have hslice : slice? 1 (byteLength text.toList - 1) text.toList = some items := by
    refine slice?_eq_some_iff.mpr ⟨['"'], ['"'], htext, rfl, ?_⟩
    have hquote : byteLength ['"'] = 1 := rfl
    have hwhole : byteLength text.toList = byteLength (['"'] ++ items) + 1 := by
      rw [htext, ← hquote, ← byteLength_append]
      rfl
    omega
  have hcontent : (text.toList.drop 1).dropLast = items := by
    rw [htext]
    exact List.dropLast_concat
  unfold stringOfSlice? stringValue
  rw [hslice, hcontent]
  show (match unescape items with
    | .error .unfinished => none
    | value => some (value.map String.ofList)) = _
  split
  next he => exact absurd he hitems.unescape_ne_unfinished
  next => rfl

/-- The slices of a well-spelled token are there, and make the literal that it denotes. -/
theorem Parser.literalOfSlice?_eq {t : Token} (h : t.kind.WellSpelled) :
    literalOfSlice? t = some (literal? t) := by
  unfold literalOfSlice? literal?
  split
  next text hk =>
    rw [hk] at h
    simp only [hk, intOfHexSlice?_eq h]
    cases intOfHex? text <;> rfl
  next text hk =>
    rw [hk] at h
    simp only [hk, stringOfSlice?_eq h]
    cases stringValue text <;> rfl
  next => rfl

end Decaf
