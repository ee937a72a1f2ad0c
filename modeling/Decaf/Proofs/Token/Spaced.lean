import Decaf.Proofs.Token.Spelled

/-!
# Writing tokens out and reading them back

A row of well spelled kinds is written out as their spellings, with blanks between
neighbours (`Spaced`). However many blanks there are and of whatever sort, the text divides
into these kinds again: no token is split, and none runs on into the next. Since every token
that is read is well spelled, the tokens of any text can be written out and read back
(`tokenize_spaced`).
-/

namespace Decaf

open Scan

/-- A text is made of the spellings of a row of well spelled kinds, in order, with blanks
behind each of them, at least one if another kind comes next. -/
inductive Spaced : List Token.Kind → List Char → Prop
  | nil : Spaced [] []
  | cons {k : Token.Kind} {ks : List Token.Kind} {gap text : List Char} :
    k.WellSpelled → (∀ c ∈ gap, isBlank c) → (ks ≠ [] → gap ≠ []) → Spaced ks text →
    Spaced (k :: ks) (k.spelling.toList ++ (gap ++ text))

/-- One blank behind each kind is enough. -/
theorem spaced_flatMap {ks : List Token.Kind} (h : ∀ k ∈ ks, k.WellSpelled) :
    Spaced ks (ks.flatMap fun k => k.spelling.toList ++ [' ']) := by
  induction ks with
  | nil => exact .nil
  | cons k ks ih =>
    obtain ⟨hk, hks⟩ := List.forall_mem_cons.mp h
    rw [List.flatMap_cons, List.append_assoc]
    exact .cons hk (List.forall_mem_singleton.mpr rfl) (fun _ => List.cons_ne_nil _ _) (ih hks)

/-- Behind a kind the text ends or goes on with a blank. -/
theorem Spaced.separated {ks : List Token.Kind} {gap text : List Char} (h : Spaced ks text)
    (hgap : ∀ c ∈ gap, isBlank c) (hne : ks ≠ [] → gap ≠ []) : Separated (gap ++ text) := by
  cases gap with
  | cons c gap =>
    intro d hd
    cases hd
    exact hgap c List.mem_cons_self
  | nil =>
    cases h with
    | nil => exact fun d hd => by cases hd
    | cons _ _ _ _ => exact absurd rfl (hne (List.cons_ne_nil _ _))

/-- The kinds are read back, whatever blanks stand before the first. -/
theorem Spaced.scan {ks : List Token.Kind} {text : List Char} (h : Spaced ks text)
    (lead : List Char) (hlead : ∀ c ∈ lead, isBlank c) (offset : Nat) :
    (Stream.scan offset (lead ++ text)).tokens.map (·.kind) = ks ∧
      (Stream.scan offset (lead ++ text)).fault = none := by
  induction h generalizing lead offset with
  | nil =>
    rw [Stream.scan_nil (Stream.splitGap_blanks hlead rfl)]
    exact ⟨rfl, rfl⟩
  | @cons k ks gap text hk hgap hne hrest ih =>
    have hfront : Fronts k (k.spelling.toList ++ (gap ++ text)) (gap ++ text) :=
      fronts_spelling hk (hrest.separated hgap hne)
    obtain ⟨span, after, hscan⟩ := Stream.scan_fronts offset hlead hfront
    -- the blanks behind this kind stand before the next
    obtain ⟨hkinds, hfault⟩ := ih gap hgap after
    rw [hscan]
    exact ⟨congrArg (k :: ·) hkinds, hfault⟩

theorem Spaced.tokenize {ks : List Token.Kind} {text : List Char} (h : Spaced ks text) :
    ∃ tokens, Decaf.tokenize (String.ofList text) = .ok tokens ∧
      tokens.map (·.kind) = ks ++ [.endOfFile] := by
  obtain ⟨hkinds, hfault⟩ := h.scan [] (fun _ hc => absurd hc List.not_mem_nil) 0
  have hsource : Stream.ofSource (String.ofList text) = Stream.scan 0 ([] ++ text) := by
    unfold Stream.ofSource
    rw [String.toList_ofList, List.nil_append]
  rw [← hsource] at hkinds hfault
  refine ⟨_, tokenize_of_readable hfault, ?_⟩
  rw [List.map_append, hkinds]
  rfl

/-- Reading undoes writing tokens out. A row of well spelled kinds, written with any blanks
between neighbours, divides into exactly these kinds and the end of the file. And the kinds
of any text that divides into tokens are well spelled, so they can be written out, and in
whatever way that is done, what is read is the same again. -/
theorem tokenize_spaced :
    (∀ (ks : List Token.Kind) (text : List Char), Spaced ks text →
      ∃ tokens, tokenize (String.ofList text) = .ok tokens ∧
        tokens.map (·.kind) = ks ++ [.endOfFile]) ∧
    ∀ (source : String) (tokens : List Token), tokenize source = .ok tokens →
      ∃ ks, tokens.map (·.kind) = ks ++ [.endOfFile] ∧ (∀ k ∈ ks, k.WellSpelled) ∧
        (∃ text, Spaced ks text) ∧
        ∀ text, Spaced ks text → ∃ tokens', tokenize (String.ofList text) = .ok tokens' ∧
          tokens'.map (·.kind) = tokens.map (·.kind) := by
  refine ⟨fun ks text h => h.tokenize, fun source tokens htokens => ?_⟩
  obtain ⟨_, rfl⟩ := tokenize_eq_ok htokens
  have hspelled : ∀ k ∈ (Stream.ofSource source).tokens.map (·.kind), k.WellSpelled := by
    intro k hk
    obtain ⟨t, ht, rfl⟩ := List.mem_map.mp hk
    exact Stream.scan_wellSpelled 0 source.toList t ht
  refine ⟨_, List.map_append, hspelled, ⟨_, spaced_flatMap hspelled⟩, fun text h => ?_⟩
  rw [List.map_append]
  exact h.tokenize

/-- Without the blanks this would be a hexadecimal number and a comment; with them it is a
zero, a name, two slashes and a string that holds a quote and slashes of its own. -/
theorem zero_name_slashes_spaced :
    ∃ text tokens,
      Spaced [.decLiteral "0", .identifier "x1", .sign .slash, .sign .slash,
        .stringLiteral "\"\\\"//\""] text ∧
      String.ofList text = "0 x1\t\n/ /\r\"\\\"//\"" ∧
      tokenize (String.ofList text) = .ok tokens ∧
      tokens.map (·.kind) = [.decLiteral "0", .identifier "x1", .sign .slash, .sign .slash,
        .stringLiteral "\"\\\"//\"", .endOfFile] ∧
      ∃ ks text', tokens.map (·.kind) = ks ++ [.endOfFile] ∧ Spaced ks text' := by
  have hstring : (Token.Kind.stringLiteral "\"\\\"//\"").WellSpelled :=
    ⟨['\\', '"', '/', '/'], by decide, .escape (by decide) (.plain (by decide) (by decide)
      (by decide) (.plain (by decide) (by decide) (by decide) .nil))⟩
  have hlast : Spaced [.stringLiteral "\"\\\"//\""] _ :=
    .cons hstring (fun _ hc => absurd hc List.not_mem_nil) (fun h => absurd rfl h) .nil
  have hslashes : Spaced (.sign .slash :: .sign .slash :: _) _ :=
    .cons trivial (List.forall_mem_singleton.mpr (rfl : isBlank ' '))
      (fun _ => List.cons_ne_nil _ _)
      (.cons trivial (List.forall_mem_singleton.mpr (rfl : isBlank '\r'))
        (fun _ => List.cons_ne_nil _ _) hlast)
  have hname : Spaced (.identifier "x1" :: _) _ :=
    .cons (by decide : IsName "x1")
      (List.forall_mem_cons.mpr ⟨(rfl : isBlank '\t'),
        List.forall_mem_singleton.mpr (rfl : isBlank '\n')⟩)
      (fun _ => List.cons_ne_nil _ _) hslashes
  have hzero : Spaced (.decLiteral "0" :: _) _ :=
    .cons ⟨by decide, List.forall_mem_singleton.mpr rfl⟩
      (List.forall_mem_singleton.mpr (rfl : isBlank ' ')) (fun _ => List.cons_ne_nil _ _) hname
  obtain ⟨tokens, htokens, hkinds⟩ := tokenize_spaced.1 _ _ hzero
  obtain ⟨ks, hks, _, ⟨text', htext'⟩, _⟩ := tokenize_spaced.2 _ tokens htokens
  exact ⟨_, tokens, hzero, by decide, htokens, hkinds, ks, text', hks, htext'⟩

end Decaf
