import Decaf.Proofs.Syntax.Printed
import Decaf.Proofs.Check.Positions

/-!
# Messages are single lines

A message is put together from fixed wordings, types, numbers and at most one name. The name
is that of a node of the program (`Node.Blamed.name`), and the names that a text can hold have
no line breaks in them, so that no message has one (`checkProgram_oneLine`).
-/

namespace Decaf

/-! ## Texts without line breaks -/

/-- A text without line breaks. -/
def OneLine (text : String) : Prop :=
  '\n' ∉ text.toList

instance (text : String) : Decidable (OneLine text) :=
  inferInstanceAs (Decidable ('\n' ∉ text.toList))

/-- A text put together of two has no line break if neither part has one. -/
theorem oneLine_append {a b : String} : OneLine (a ++ b) ↔ OneLine a ∧ OneLine b := by
  unfold OneLine
  rw [String.toList_append, List.mem_append, not_or]

theorem oneLine_toString (n : Nat) : OneLine (toString n) := by
  intro h
  rw [toList_toString] at h
  have hdigit : '\n'.isDigit := Nat.isDigit_of_mem_toDigits (by omega) (by omega) h
  exact absurd hdigit (by decide)

theorem oneLine_spelling (ty : Ty) : OneLine ty.spelling := by
  cases ty <;> decide +kernel

/-- A name consists of letters, digits and underscores, and none of these is a line break. -/
theorem IsName.oneLine {x : String} (h : IsName x) : OneLine x := by
  intro hmem
  have hword := h.1
  cases hx : x.toList with
  | nil =>
    rw [hx] at hmem
    cases hmem
  | cons c cs =>
    rw [hx] at hmem hword
    obtain ⟨hc, hcs⟩ := Bool.and_eq_true_iff.mp hword
    rcases List.mem_cons.mp hmem with rfl | hmem
    · exact absurd hc (by decide)
    · exact absurd (List.all_eq_true.mp hcs _ hmem) (by decide)

/-- The name that a mistake speaks of. -/
def Mistake.name? : Mistake → Option String
  | duplicate name _ | voidParameter name | voidVariable name | emptyArray name => some name
  | assignment name | undefined name | indexedScalar name | bareArray name => some name
  | functionAsVariable name | notAFunction name | argument _ name _ _ => some name
  | noMain | badMain | condition | returnType | outsideLoop => none
  | indexType | operand _ _ | voidOperand | argumentCount => none

/-- A wording has no line breaks, so a message has none if its name has none. -/
theorem Mistake.message_oneLine (mistake : Mistake) (line : Nat)
    (h : ∀ x, mistake.name? = some x → OneLine x) : OneLine (mistake.message line) := by
  cases mistake <;> dsimp only [Mistake.message] <;>
    simp only [oneLine_append, oneLine_toString, oneLine_spelling, and_true]
  case duplicate name _ | voidParameter name | voidVariable name | emptyArray name
      | assignment name | undefined name | indexedScalar name | bareArray name
      | functionAsVariable name | notAFunction name | argument _ name _ _ =>
    have hname : OneLine name := h name rfl
    simp only [hname, and_true]
    decide +kernel
  all_goals decide +kernel

/-! ## Names in a program -/

namespace Node

/-- Nodes that can be written down. -/
def WellShaped : Node → Prop
  | program p => p.WellShaped
  | function f => f.WellShaped
  | param x => x.WellShaped
  | varDecl d => d.WellShaped
  | block b => b.WellShaped
  | stmt s => s.WellShaped
  | expr e => e.WellShaped

variable {n c : Node}

theorem WellShaped.child (h : n.WellShaped) (hc : c ∈ n.children) : c.WellShaped := by
  cases n with
  | program p =>
    rcases List.mem_append.mp hc with hc | hc
    · obtain ⟨d, hd, rfl⟩ := List.mem_map.mp hc
      exact Program.WellShaped.globals h d hd
    · obtain ⟨f, hf, rfl⟩ := List.mem_map.mp hc
      exact Program.WellShaped.functions h f hf
  | function f =>
    rcases List.mem_append.mp hc with hc | hc
    · obtain ⟨x, hx, rfl⟩ := List.mem_map.mp hc
      exact Function.WellShaped.params h x hx
    · cases List.mem_singleton.mp hc
      exact Function.WellShaped.body h
  | param x => cases hc
  | varDecl d => cases hc
  | block b =>
    cases h with
    | mk hlocals hstatements =>
      rcases List.mem_append.mp hc with hc | hc
      · obtain ⟨d, hd, rfl⟩ := List.mem_map.mp hc
        exact hlocals d hd
      · obtain ⟨s, hs, rfl⟩ := List.mem_map.mp hc
        exact hstatements s hs
  | stmt s =>
    cases h with
    | assign _ htarget hvalue =>
      rcases List.mem_cons.mp hc with rfl | hc
      · exact htarget
      · cases List.mem_singleton.mp hc
        exact hvalue
    | call _ he =>
      cases List.mem_singleton.mp hc
      exact he
    | ifThen htest hb | loop htest hb =>
      rcases List.mem_cons.mp hc with rfl | hc
      · exact htest
      · cases List.mem_singleton.mp hc
        exact hb
    | ifElse htest hb helse =>
      rcases List.mem_cons.mp hc with rfl | hc
      · exact htest
      · rcases List.mem_cons.mp hc with rfl | hc
        · exact hb
        · cases List.mem_singleton.mp hc
          exact helse
    | ret hvalue =>
      obtain ⟨e, he, rfl⟩ := List.mem_map.mp hc
      exact hvalue e (Option.mem_toList.mp he)
    | brk => cases hc
    | cont => cases hc
    | inner hb =>
      cases List.mem_singleton.mp hc
      exact hb
  | expr e =>
    cases h with
    | literal _ => cases hc
    | scalar _ => cases hc
    | element _ hi =>
      cases List.mem_singleton.mp hc
      exact hi
    | binary hl hr =>
      rcases List.mem_cons.mp hc with rfl | hc
      · exact hl
      · cases List.mem_singleton.mp hc
        exact hr
    | unary he =>
      cases List.mem_singleton.mp hc
      exact he
    | call _ hargs =>
      obtain ⟨a, ha, rfl⟩ := List.mem_map.mp hc
      exact hargs a ha

/-- Every node below a well-shaped one is well-shaped. -/
theorem WellShaped.has (h : n.WellShaped) (hc : n.Has c) : c.WellShaped := by
  induction hc with
  | self => exact h
  | child _ hc ih => exact ih.child hc

/-- The name that a well-shaped location refers to is one that can be written. -/
theorem location_isName {p : Place} {t : Option Ty} {x : String} {i : Option Expr}
    (h : (expr (.location p t x i)).WellShaped) : IsName x := by
  cases h with
  | scalar hx => exact hx
  | element hx _ => exact hx

/-- The name that a well-shaped call refers to is one that can be written. -/
theorem call_isName {p : Place} {t : Option Ty} {f : String} {args : List Expr}
    (h : (expr (.call p t f args)).WellShaped) : IsName f := by
  cases h with
  | call hf _ => exact hf

/-- The target of a well-shaped assignment is a location, so that the name a mistake would quote
is one that can be written. -/
theorem assign_isName {p : Place} {target value : Expr}
    (h : (stmt (.assign p target value)).WellShaped) :
    IsName (target.locationName?.getD "") := by
  cases h with
  | assign hlocation htarget _ =>
    cases target with
    | location p t x i => exact location_isName htarget
    | _ => cases hlocation

/-- The name that is spoken of in a complaint is one that can be written down. -/
theorem Blamed.name {mistake : Mistake} {span : Span} (h : n.Blamed mistake span)
    (hn : n.WellShaped) : ∀ x, mistake.name? = some x → IsName x := by
  intro x hx
  cases h <;> cases hx
  case repeatedFunction => exact Function.WellShaped.name hn
  case repeatedParam | voidParameter => exact Param.WellShaped.name hn
  case repeatedVariable | voidVariable | emptyArray => exact VarDecl.WellShaped.name hn
  case assignment => exact assign_isName hn
  case undefinedVariable | indexedScalar | bareArray | functionAsVariable =>
    exact location_isName hn
  case undefinedFunction | notAFunction | argument => exact call_isName hn

end Node

/-- The messages about a program that was read are single lines. -/
theorem checkProgram_oneLine {source : String} {p : Program} (h : parse source = .ok p) :
    ∀ m ∈ (checkProgram p).errors.messages, OneLine m := by
  intro m hm
  obtain ⟨d, hd, rfl⟩ := List.mem_map.mp hm
  obtain ⟨n, mistake, hn, hblamed, hmistake⟩ := checkProgram_about h d hd
  have hprogram : (Node.program p).WellShaped := parse_wellShaped h
  have hshaped := hprogram.has hn
  rw [hmistake]
  exact mistake.message_oneLine n.place.line fun x hx => (hblamed.name hshaped x hx).oneLine

end Decaf
