import Decaf.Proofs.Syntax.Grammar

/-!
# What literals mean

Reading a literal agrees with the grammar's account of it: an escape means what
`Escape` says, a string is read exactly if `Spells` gives it a value
(`unescape_eq_ok_iff`), and a token is a literal with a value exactly if `Denotes`
says so (`literal?_eq_ok_iff`).
-/

namespace Decaf.Grammar

/-- The decoder and the grammar know the same escape sequences. -/
theorem escaped?_eq_some_iff {c d : Char} : escaped? c = some d ↔ Escape c d := by
  constructor
  · intro h
    unfold escaped? at h
    split at h <;> cases h <;> constructor
  · rintro (_ | _ | _ | _) <;> rfl

/-- What the grammar spells out is decoded to it. -/
theorem Spells.unescape_eq {cs value : List Char} (h : Spells cs value) :
    unescape cs = .ok value := by
  induction h with
  | nil => rfl
  | plain hc _ ih =>
    rw [unescape.eq_4 _ _ (by simp_all) (by simp_all), ih]
    rfl
  | escape he _ ih =>
    rw [unescape, escaped?_eq_some_iff.mpr he]
    dsimp only
    rw [ih]
    rfl

/-- What is decoded was spelled so, by induction along the decoder. -/
theorem spells_of_unescape {cs value : List Char} (h : unescape cs = .ok value) :
    Spells cs value := by
  fun_induction unescape cs generalizing value with
  | case1 =>
    cases h
    exact .nil
  | case2 => cases h
  | case3 c cs d hd ih =>
    cases hu : unescape cs with
    | error e =>
      rw [hu] at h
      cases h
    | ok more =>
      rw [hu] at h
      cases h
      exact .escape (escaped?_eq_some_iff.mp hd) (ih hu)
  | case4 => cases h
  | case5 c cs h₁ h₂ ih =>
    have hc : c ≠ '\\' := by
      rintro rfl
      cases cs with
      | nil => exact h₁ rfl rfl
      | cons d ds => exact h₂ d ds rfl rfl
    cases hu : unescape cs with
    | error e =>
      rw [hu] at h
      cases h
    | ok more =>
      rw [hu] at h
      cases h
      exact .plain hc (ih hu)

/-- Decoding is exactly the grammar of spellings, read backwards. -/
theorem unescape_eq_ok_iff {cs value : List Char} : unescape cs = .ok value ↔ Spells cs value :=
  ⟨spells_of_unescape, Spells.unescape_eq⟩

/-- A token is read as a literal exactly if the grammar says that it denotes one, with the same
value. Numbers that are out of range denote nothing. -/
theorem literal?_eq_ok_iff {t : Token} {v : Literal} :
    Parser.literal? t = some (.ok v) ↔ Denotes t.kind v := by
  constructor
  · intro h
    unfold Parser.literal? at h
    split at h
    · next text hk =>
      rw [hk]
      unfold intOfDecimal? at h
      by_cases hle : digitsValue 10 text.toList ≤ largestInt
      · simp only [if_pos hle] at h
        cases h
        exact .dec hle
      · simp only [if_neg hle] at h
        cases h
    · next text hk =>
      rw [hk]
      unfold intOfHex? at h
      by_cases hle : digitsValue 16 (text.toList.drop 2) ≤ largestInt
      · simp only [if_pos hle] at h
        cases h
        exact .hex hle
      · simp only [if_neg hle] at h
        cases h
    · next text hk =>
      rw [hk]
      unfold stringValue at h
      cases hu : unescape (text.toList.drop 1).dropLast with
      | error e =>
        rw [hu] at h
        cases h
      | ok value =>
        rw [hu] at h
        cases h
        exact .str (unescape_eq_ok_iff.mp hu)
    · next hk =>
      cases h
      rw [hk]
      exact .true
    · next hk =>
      cases h
      rw [hk]
      exact .false
    · cases h
  · intro h
    unfold Parser.literal?
    generalize hk : t.kind = k at h
    cases h with
    | dec hle =>
      have hle' : digitsValue 10 _ ≤ largestInt := hle
      simp only [intOfDecimal?, if_pos hle']
    | hex hle =>
      have hle' : digitsValue 16 _ ≤ largestInt := hle
      simp only [intOfHex?, if_pos hle']
    | str hs =>
      have hu := unescape_eq_ok_iff.mpr hs
      unfold content at hu
      simp only [stringValue, hu]
      rfl
    | true => rfl
    | false => rfl

/-- The length of an array is what its digits say, as long as that fits into 64 bits. -/
theorem lengthOfDecimal?_eq_some_iff {text : String} {n : Nat} :
    lengthOfDecimal? text = some n ↔
      digitsValue 10 text.toList ≤ 18446744073709551615 ∧ n = digitsValue 10 text.toList := by
  have hl : largestLength = 18446744073709551615 := rfl
  rw [lengthOfDecimal?, hl]
  constructor
  · intro h
    split at h
    · next hle =>
      cases h
      exact ⟨hle, rfl⟩
    · cases h
  · rintro ⟨hle, rfl⟩
    rw [if_pos hle]

end Decaf.Grammar
