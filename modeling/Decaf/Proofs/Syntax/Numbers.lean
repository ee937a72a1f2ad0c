import Mathlib.Data.List.Induction
import Mathlib.Data.Nat.Digits.Defs
import Decaf.Proofs.Syntax.LiteralTokens
import Decaf.Proofs.Syntax.Literals

/-!
# Number literals

The digits of a number literal have a value in positional notation (`positional`), however
many they are and whatever zeros they begin with. This is what they denote, as long as it fits
(`digitsValue_eq_positional`). The value can also be accumulated digit by digit without ever
going past a limit: the first step that does would never be made up for, since a value only
grows with further digits (`accumulate?_eq`).

A number literal is read up to its last digit (`fronts_numeral`): it is the longest one that
stands at the front of the text (`Longest`).
-/

namespace Decaf

open Scan

/-! ## Values -/

/-- The digits to base sixteen, in the order of their values. -/
def digitChars : List Char :=
  "0123456789abcdef".toList

/-- The value of digits in positional notation, the first one worth most. Letters count the
same in both cases. -/
def positional (base : Nat) (digits : List Char) : Nat :=
  Nat.ofDigits base (digits.reverse.map fun c => digitChars.idxOf c.toLower)

/-- Digits are among the first 128 characters, so a statement about a digit can be checked one by
one. -/
theorem toNat_lt_of_isHexDigit {c : Char} (h : isHexDigit c) : c.toNat < 128 := by
  have hle : ∀ {a b : Char}, a ≤ b → a.toNat ≤ b.toNat := fun h => UInt32.le_iff_toNat_le.mp h
  unfold isHexDigit at h
  rw [Bool.or_eq_true, Bool.or_eq_true, Bool.and_eq_true, Bool.and_eq_true, decide_eq_true_iff,
    decide_eq_true_iff, decide_eq_true_iff, decide_eq_true_iff] at h
  rcases h with (h | ⟨-, h⟩) | ⟨-, h⟩
  · simp only [Char.isDigit, Bool.and_eq_true, decide_eq_true_eq] at h
    have : c.toNat ≤ 57 := UInt32.le_iff_toNat_le.mp h.2
    omega
  · have : c.toNat ≤ 102 := hle h
    omega
  · have : c.toNat ≤ 70 := hle h
    omega

/-- The value of a digit is where it stands among the digits, in either case. -/
theorem digitValue_eq_idxOf {c : Char} (h : isHexDigit c) :
    digitValue c = digitChars.idxOf c.toLower := by
  have hall : ∀ n : Fin 128, isHexDigit (Char.ofNat n) →
      digitValue (Char.ofNat n) = digitChars.idxOf (Char.ofNat n).toLower := by
    decide +kernel
  have hc := hall ⟨c.toNat, toNat_lt_of_isHexDigit h⟩
  rw [Char.ofNat_toNat] at hc
  exact hc h

theorem isHexDigit_of_isDigit {c : Char} (h : c.isDigit) : isHexDigit c := by
  unfold isHexDigit
  rw [h]
  rfl

/-- One more digit at the end. -/
theorem digitsValue_concat (base : Nat) (digits : List Char) (c : Char) :
    digitsValue base (digits ++ [c]) = base * digitsValue base digits + digitValue c := by
  rw [digitsValue, List.foldl_append]
  rfl

/-- Digits denote their value in positional notation. -/
theorem digitsValue_eq_positional (base : Nat) {digits : List Char}
    (h : ∀ c ∈ digits, isHexDigit c) : digitsValue base digits = positional base digits := by
  induction digits using List.reverseRecOn with
  | nil => rfl
  | append_singleton digits c ih =>
    obtain ⟨hdigits, hc⟩ := List.forall_mem_append.mp h
    rw [digitsValue_concat, ih hdigits, positional, positional, List.reverse_append,
      List.reverse_singleton, List.singleton_append, List.map_cons, Nat.ofDigits_cons,
      digitValue_eq_idxOf (hc c List.mem_cons_self), Nat.add_comm]

/-! ## Accumulating values -/

/-- A number that does not go past a limit. -/
def within? (limit n : Nat) : Option Nat :=
  if n ≤ limit then some n else none

/-- Appends a digit to a value, unless the product or the sum goes past the limit. -/
def appendDigit? (limit base value : Nat) (c : Char) : Option Nat := do
  let product ← within? limit (base * value)
  within? limit (product + digitValue c)

/-- Accumulates the value of digits, and gives up where it goes past the limit. -/
def accumulate? (limit base : Nat) (digits : List Char) : Option Nat :=
  digits.foldlM (appendDigit? limit base) 0

/-- A step that checks before it adds gives what a step that adds and then checks would give. -/
theorem appendDigit?_eq (limit base value : Nat) (c : Char) :
    appendDigit? limit base value c = within? limit (base * value + digitValue c) := by
  unfold appendDigit? within?
  by_cases hproduct : base * value ≤ limit
  · rw [if_pos hproduct]
    rfl
  · rw [if_neg hproduct, if_neg (by omega)]
    rfl

/-- Giving up early loses nothing. -/
theorem accumulate?_eq (limit : Nat) {base : Nat} (hbase : 0 < base) (digits : List Char) :
    accumulate? limit base digits = within? limit (digitsValue base digits) := by
  induction digits using List.reverseRecOn with
  | nil => exact (if_pos (Nat.zero_le limit)).symm
  | append_singleton digits c ih =>
    have hstep : accumulate? limit base (digits ++ [c]) =
        (accumulate? limit base digits).bind fun value => appendDigit? limit base value c := by
      rw [accumulate?, List.foldlM_append]
      simp only [List.foldlM_cons, List.foldlM_nil, bind_pure]
      rfl
    rw [hstep, ih, digitsValue_concat]
    unfold within?
    by_cases hfits : digitsValue base digits ≤ limit
    · rw [if_pos hfits, Option.bind_some, appendDigit?_eq]
      rfl
    · have hgrows : digitsValue base digits ≤ base * digitsValue base digits :=
        Nat.le_mul_of_pos_left _ hbase
      rw [if_neg hfits, if_neg (by omega), Option.bind_none]

/-- A decimal literal is accumulated up to the largest integer. -/
theorem intOfDecimal?_eq (text : String) :
    intOfDecimal? text = accumulate? largestInt 10 text.toList :=
  (accumulate?_eq _ (by decide) _).symm

theorem intOfHex?_eq (text : String) :
    intOfHex? text = accumulate? largestInt 16 (text.toList.drop 2) :=
  (accumulate?_eq _ (by decide) _).symm

/-- The length of an array is accumulated in the same way, up to a larger limit. -/
theorem lengthOfDecimal?_eq (text : String) :
    lengthOfDecimal? text = accumulate? largestLength 10 text.toList :=
  (accumulate?_eq _ (by decide) _).symm

/-! ## Numerals in a text -/

/-- The number literals, with their bases and digits. -/
inductive Numeral : String → Nat → List Char → Prop
  | decimal {text : String} :
    text.toList ≠ [] → (∀ c ∈ text.toList, c.isDigit) → Numeral text 10 text.toList
  | hex {text : String} {x : Char} {digits : List Char} :
    text.toList = '0' :: x :: digits → x = 'x' ∨ x = 'X' → digits ≠ [] →
    (∀ c ∈ digits, isHexDigit c) → Numeral text 16 digits

/-- The token of a number literal. -/
def numeralKind (base : Nat) (text : String) : Token.Kind :=
  if base = 10 then .decLiteral text else .hexLiteral text

/-- A numeral is spelled as it stands in the text. -/
theorem Numeral.spelling {text : String} {base : Nat} {digits : List Char}
    (h : Numeral text base digits) : (numeralKind base text).spelling = text := by
  cases h with
  | decimal => rfl
  | hex => rfl

/-- A number literal does not go on with what comes behind it. -/
def Longest (text : String) (rest : List Char) : Prop :=
  ∀ more, more ≠ [] → more <+: rest →
    ∀ base digits, ¬ Numeral (String.ofList (text.toList ++ more)) base digits

/-- The digits of a numeral are digits to base sixteen, whatever its base. -/
theorem Numeral.isHexDigit {text : String} {base : Nat} {digits : List Char}
    (h : Numeral text base digits) : ∀ c ∈ digits, isHexDigit c := by
  cases h with
  | decimal _ hdigits => exact fun c hc => isHexDigit_of_isDigit (hdigits c hc)
  | hex _ _ _ hdigits => exact hdigits

/-- No digit follows the longest numeral. -/
theorem decimal_stops {text : String} {rest : List Char} (hne : text.toList ≠ [])
    (hdigits : ∀ c ∈ text.toList, c.isDigit) (h : Longest text rest) :
    Stops Char.isDigit rest := by
  intro d hd
  by_contra hdigit
  rw [Bool.not_eq_false] at hdigit
  obtain ⟨rest, rfl⟩ := List.head?_eq_some_iff.mp hd
  refine h [d] (List.cons_ne_nil _ _) ⟨rest, rfl⟩ 10 _ (.decimal ?_ ?_)
  · rw [String.toList_ofList]
    exact List.append_ne_nil_of_left_ne_nil hne _
  · rw [String.toList_ofList]
    exact List.forall_mem_append.mpr ⟨hdigits, List.forall_mem_singleton.mpr hdigit⟩

/-- Behind a decimal number there is no `x` that would make it a hexadecimal one. -/
theorem number_decimal {text : String} {c : Char} {cs rest : List Char} (ht : text.toList = c :: cs)
    (hcs : ∀ d ∈ cs, d.isDigit) (h : Longest text rest) :
    number c (cs ++ rest) = decimal c (cs ++ rest) := by
  cases cs with
  | cons d ds =>
    refine number_eq_decimal ?_
    rintro _ ⟨⟩
    have hdigit := hcs d List.mem_cons_self
    have hx : d ≠ 'x' ∧ d ≠ 'X' := by
      constructor <;> rintro rfl <;> cases hdigit
    show (d == 'x' || d == 'X') = false
    rw [beq_false_of_ne hx.1, beq_false_of_ne hx.2]
    rfl
  | nil =>
    rw [List.nil_append]
    unfold number
    split
    · next x d ds =>
      rw [if_neg]
      rintro ⟨rfl, hx, hd⟩
      refine h [x, d] (List.cons_ne_nil _ _) ⟨ds, rfl⟩ 16 [d] (.hex ?_ hx (List.cons_ne_nil _ _)
        (List.forall_mem_singleton.mpr hd))
      rw [String.toList_ofList, ht]
      rfl
    · rfl

/-- A decimal numeral is read as far as it goes. -/
theorem fronts_decimalNumeral {text : String} {rest : List Char} (hne : text.toList ≠ [])
    (hdigits : ∀ c ∈ text.toList, c.isDigit) (h : Longest text rest) :
    Fronts (.decLiteral text) (text.toList ++ rest) rest := by
  have hstops := decimal_stops hne hdigits h
  obtain ⟨c, cs, ht⟩ := List.exists_cons_of_ne_nil hne
  rw [ht] at hdigits ⊢
  have hc : c.isDigit := hdigits c List.mem_cons_self
  have hcs : ∀ d ∈ cs, d.isDigit := fun d hd => hdigits d (List.mem_cons_of_mem c hd)
  refine ⟨splitGap_front hc (by decide) (by decide), c, cs ++ rest, rfl, ?_⟩
  rw [lexeme, if_neg (by rw [isWordStart_of_isDigit hc]; exact Bool.false_ne_true), if_pos hc,
    number_decimal ht hcs h, decimal_eq ht hcs hstops, Token.Kind.spelling, ht]

/-- So is a hexadecimal one, behind its two characters. -/
theorem fronts_hexNumeral {text : String} {x : Char} {digits rest : List Char}
    (ht : text.toList = '0' :: x :: digits) (hx : x = 'x' ∨ x = 'X') (hne : digits ≠ [])
    (hdigits : ∀ c ∈ digits, Scan.isHexDigit c) (h : Longest text rest) :
    Fronts (.hexLiteral text) (text.toList ++ rest) rest := by
  have hstops : Stops Scan.isHexDigit rest := by
    intro d hd
    by_contra hdigit
    rw [Bool.not_eq_false] at hdigit
    obtain ⟨rest, rfl⟩ := List.head?_eq_some_iff.mp hd
    refine h [d] (List.cons_ne_nil _ _) ⟨rest, rfl⟩ 16 (digits ++ [d]) (.hex (x := x) ?_ hx ?_ ?_)
    · rw [String.toList_ofList, ht]
      rfl
    · exact List.append_ne_nil_of_left_ne_nil hne _
    · exact List.forall_mem_append.mpr ⟨hdigits, List.forall_mem_singleton.mpr hdigit⟩
  obtain ⟨d, ds, rfl⟩ := List.exists_cons_of_ne_nil hne
  rw [ht]
  refine ⟨splitGap_front (p := Char.isDigit) rfl (by decide) (by decide), '0', _, rfl, ?_⟩
  rw [lexeme, if_neg (by decide), if_pos (by decide), Token.Kind.spelling, ht]
  exact number_eq_hex ht hx hdigits hstops

/-- A number literal is read whole, and no further. -/
theorem fronts_numeral {text : String} {base : Nat} {digits rest : List Char}
    (hnumeral : Numeral text base digits) (h : Longest text rest) :
    Fronts (numeralKind base text) (text.toList ++ rest) rest := by
  cases hnumeral with
  | decimal hne hdigits => exact fronts_decimalNumeral hne hdigits h
  | hex ht hx hne hdigits => exact fronts_hexNumeral ht hx hne hdigits h

/-! ## Numerals in a program -/

namespace Parser

variable {text : String} {base : Nat} {digits : List Char} {t : Token}

/-- The literal that a number denotes is its value, if that is not too large. -/
theorem literal?_numeral (hnumeral : Numeral text base digits)
    (ht : t.kind = numeralKind base text) :
    literal? t = some (if positional base digits ≤ largestInt then
      .ok (.int (positional base digits)) else .error (.integerTooLarge text t.span)) := by
  rw [← digitsValue_eq_positional base hnumeral.isHexDigit]
  cases hnumeral with
  | decimal hne hdigits =>
    have hkind : t.kind = .decLiteral text := ht
    unfold literal? intOfDecimal?
    by_cases hle : digitsValue 10 text.toList ≤ largestInt
    · simp only [hkind, if_pos hle]
    · simp only [hkind, if_neg hle]
  | hex htext hx hne hdigits =>
    have hkind : t.kind = .hexLiteral text := ht
    have hdrop : text.toList.drop 2 = digits := by rw [htext]; rfl
    unfold literal? intOfHex?
    by_cases hle : digitsValue 16 digits ≤ largestInt
    · simp only [hkind, hdrop, if_pos hle]
    · simp only [hkind, hdrop, if_neg hle]

/-! ## Lengths of arrays -/

variable {r : Reading} {bracket : Token} {tokens : List Token} {name : String} {ty : Ty}
  {start : Span}

/-- The length of an array is the value of its digits, if that is not too large. The token
behind it is reached first. -/
theorem arrayLength_numeral (hnumeral : Numeral text 10 digits) (ht : t.kind = .decLiteral text) :
    arrayLength r (t :: tokens) = r.reach tokens >>= fun _ =>
      if positional 10 digits ≤ largestLength then
        .ok ⟨positional 10 digits, tokens, Parsed.tail_lt t tokens⟩
      else .error (.lengthTooLarge text t.span) := by
  rw [← digitsValue_eq_positional 10 hnumeral.isHexDigit]
  cases hnumeral with
  | decimal hne hdigits =>
    by_cases hle : digitsValue 10 text.toList ≤ largestLength
    · simp only [arrayLength, ht, lengthOfDecimal?, if_pos hle]
      rfl
    · simp only [arrayLength, ht, lengthOfDecimal?, if_neg hle]
      rfl

/-- An array is declared with the value of its digits, be it zero. -/
theorem varRest_numeral (hnumeral : Numeral text 10 digits) (ht : t.kind = .decLiteral text)
    (hle : positional 10 digits ≤ largestLength) (hb : bracket.kind = .sign .openBracket)
    {close last : Token} {rest : List Token} (hclose : close.kind = .sign .closeBracket)
    (hlast : last.kind = .sign .semicolon) (hreach : r.reach rest = .ok ()) :
    Gives (varRest r name ty start (bracket :: t :: close :: last :: rest))
      ⟨name, ty, some (positional 10 digits), r.place (start.merge last.span)⟩ rest := by
  refine varRest_gives.mpr (.inl ⟨bracket, _, _, close :: last :: rest, close, last :: rest, last,
    ⟨rfl, hb, rfl⟩, ?_, ⟨rfl, hclose, rfl⟩, ⟨rfl, hlast, hreach⟩, rfl⟩)
  rw [arrayLength_numeral hnumeral ht, if_pos hle]
  exact Gives.ok_iff.mpr ⟨rfl, rfl⟩

/-- A length that is too large is complained about, unless what is behind it is unreadable. -/
theorem varRest_numeral_error (hnumeral : Numeral text 10 digits) (ht : t.kind = .decLiteral text)
    (hlt : largestLength < positional 10 digits) (hb : bracket.kind = .sign .openBracket) :
    varRest r name ty start (bracket :: t :: tokens) =
      r.reach tokens >>= fun _ => .error (.lengthTooLarge text t.span) := by
  simp only [varRest, optional, if_pos hb]
  show (arrayLength r (t :: tokens) >>= _) = _
  rw [arrayLength_numeral hnumeral ht, if_neg (Nat.not_le_of_lt hlt)]
  cases r.reach tokens <;> rfl

end Parser

end Decaf
