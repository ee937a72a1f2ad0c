import Decaf.Proofs.Token.Spelled
import Decaf.Proofs.Syntax.Soundness
import Decaf.Proofs.Syntax.Completeness

/-!
# The parser accepts exactly its grammar

A text is read as a program exactly if all of it divides into tokens and the
grammar derives their kinds. What is read is what was derived, declarations in
order: `parse_derives` and `Grammar.Derives.parse` are the two directions, and the
rest of the theory of the parser needs only them.
-/

namespace Decaf

namespace Grammar

/-- The tokens of a text, up to the end of the file, are derived as a row of items. -/
def Derives (source : String) (items : List Parser.TopLevel) : Prop :=
  ∃ tokens last, tokenize source = .ok (tokens ++ [last]) ∧ last.kind = .endOfFile ∧
    Items (kinds tokens) items

/-- The program that a row of items makes up, with no labels. -/
def program (items : List Parser.TopLevel) : Program :=
  ⟨items.filterMap Parser.TopLevel.global?, items.filterMap Parser.TopLevel.function?,
    .nowhere, none⟩

end Grammar

open Grammar

namespace Parser

/-- A thing at the top level, relabelled. -/
def TopLevel.relabel (f : Relabel) : TopLevel → TopLevel
  | .global d => .global (d.relabel f)
  | .function g => .function (g.relabel f)

/-- Relabelling the items and sorting them apart may be exchanged. -/
theorem relabel_items (f : Relabel) (items : List TopLevel) (place : Place) :
    Program.relabel f
      ⟨items.filterMap TopLevel.global?, items.filterMap TopLevel.function?, place, none⟩ =
      ⟨(items.map (·.relabel f)).filterMap TopLevel.global?,
        (items.map (·.relabel f)).filterMap TopLevel.function?, f.place place, f.scope none⟩ := by
  have hglobal : ∀ item : TopLevel, (item.relabel f).global? = item.global?.map (·.relabel f) := by
    intro item
    cases item <;> rfl
  have hfunction : ∀ item : TopLevel,
      (item.relabel f).function? = item.function?.map (·.relabel f) := by
    intro item
    cases item <;> rfl
  simp only [Program.relabel, List.map_filterMap, List.filterMap_map, Function.comp_def, hglobal,
    hfunction]

theorem relabel_program (items : List TopLevel) (place : Place) :
    Program.relabel .unplaced
      ⟨items.filterMap TopLevel.global?, items.filterMap TopLevel.function?, place, none⟩ =
      Grammar.program (items.map (·.unplaced)) := by
  have hunplaced : ∀ item : TopLevel, item.relabel .unplaced = item.unplaced := by
    intro item
    cases item <;> rfl
  rw [relabel_items, List.map_congr_left fun item _ => hunplaced item]
  rfl

end Parser

/-- The end of the file is not among the tokens of a text. -/
theorem kinds_no_ending (source : String) :
    Token.Kind.endOfFile ∉ kinds (Stream.ofSource source).tokens := by
  intro hm
  obtain ⟨t, ht, hk⟩ := List.mem_map.mp hm
  have hspelled := Stream.scan_wellSpelled 0 source.toList t ht
  rw [hk] at hspelled
  exact hspelled

/-- To divide into tokens is to have no unreadable spot; the last token is the end of the file. -/
theorem tokenize_eq_ok_iff {source : String} {tokens : List Token} {last : Token} :
    tokenize source = .ok (tokens ++ [last]) ↔
      (Stream.ofSource source).fault = none ∧ tokens = (Stream.ofSource source).tokens ∧
        last = (Stream.ofSource source).ending := by
  rw [tokenize, Stream.toExcept]
  constructor
  · intro h
    split at h
    · cases h
    · next hf =>
      obtain ⟨htokens, hlast⟩ := List.append_inj' (Except.ok.inj h) rfl
      exact ⟨hf, htokens.symm, (List.cons.inj hlast).1.symm⟩
  · rintro ⟨hf, rfl, rfl⟩
    rw [hf]

/-- What is read from a text is derived from its tokens. -/
theorem parse_derives {source : String} {p : Program} (h : parse source = .ok p) :
    ∃ items, Derives source items ∧ p.relabel .unplaced = Grammar.program items := by
  obtain ⟨hr, items, hitems, rfl⟩ := Parser.program_eq_ok_iff.mp h
  obtain ⟨hderived, hf⟩ := Parser.topLevels_sound rfl (kinds_no_ending source) hr hitems
  refine ⟨_, ⟨_, _, tokenize_eq_ok_iff.mpr ⟨hf, rfl, rfl⟩, rfl, hderived⟩, ?_⟩
  exact Parser.relabel_program items _

/-- What is derived from the tokens of a text is read from it. -/
theorem Grammar.Derives.parse {source : String} {items : List Parser.TopLevel}
    (h : Derives source items) :
    ∃ p, parse source = .ok p ∧ p.relabel .unplaced = Grammar.program items := by
  obtain ⟨tokens, last, ht, _, hitems⟩ := h
  obtain ⟨hf, rfl, rfl⟩ := tokenize_eq_ok_iff.mp ht
  have hr : (Reading.ofSource source).Whole := ⟨rfl, hf⟩
  obtain ⟨read, hread, rfl⟩ := Parser.topLevels_complete hr hitems
  exact ⟨_, Parser.program_eq_ok_iff.mpr ⟨hr.reach_eq _, read, hread, rfl⟩,
    Parser.relabel_program read _⟩

/-- A text is read as a program exactly if it divides into tokens from which the
grammar derives a row of items, and the variables and functions of the program are
the ones of the row, in order. -/
theorem parse_ok_iff_derivable (source : String) :
    ((∃ p, parse source = .ok p) ↔ ∃ items, Derives source items) ∧
    ∀ (globals : List VarDecl) (functions : List Function),
      (∃ p, parse source = .ok p ∧ p.globals.map (·.relabel .unplaced) = globals ∧
        p.functions.map (·.relabel .unplaced) = functions) ↔
      ∃ items, Derives source items ∧ items.filterMap Parser.TopLevel.global? = globals ∧
        items.filterMap Parser.TopLevel.function? = functions := by
  refine ⟨⟨?_, ?_⟩, fun globals functions => ⟨?_, ?_⟩⟩
  · rintro ⟨p, hp⟩
    obtain ⟨items, hitems, _⟩ := parse_derives hp
    exact ⟨items, hitems⟩
  · rintro ⟨items, hitems⟩
    obtain ⟨p, hp, _⟩ := hitems.parse
    exact ⟨p, hp⟩
  · rintro ⟨p, hp, rfl, rfl⟩
    obtain ⟨items, hitems, htree⟩ := parse_derives hp
    obtain ⟨hglobals, hfunctions, _⟩ := Program.mk.inj htree
    exact ⟨items, hitems, hglobals.symm, hfunctions.symm⟩
  · rintro ⟨items, hitems, rfl, rfl⟩
    obtain ⟨p, hp, htree⟩ := hitems.parse
    obtain ⟨hglobals, hfunctions, _⟩ := Program.mk.inj htree
    exact ⟨p, hp, hglobals, hfunctions⟩

end Decaf
