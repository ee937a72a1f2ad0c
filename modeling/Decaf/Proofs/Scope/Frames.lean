import Decaf.Syntax.Basic

/-!
# Names as lists of frames

What the names of a program stand for, said without tables. Every construct that
declares names is a frame: the list of its bindings, in order. At a node of the program
the frames of the constructs around it are in force, innermost first. A name stands for
what the innermost frame that has it says, and in that frame the first binding counts
(`firsts`); later ones are only repetitions (`repeated`).
-/

namespace Decaf

/-! ## Frames -/

/-- What a name stands for. -/
inductive Meaning where
  | scalar (type : Ty)
  | array (type : Ty)
  | function (params : List Ty) (result : Ty)
deriving DecidableEq

/-- A name with what it stands for, and where it is declared. -/
structure Binding where
  name : String
  meaning : Meaning
  line : Nat
  span : Span
deriving DecidableEq

/-- What a construct declares, in order. -/
abbrev Frame : Type := List Binding

/-- The frames around a node, innermost first. -/
abbrev Frames : Type := List Frame

/-- What a name stands for in a frame: its first declaration counts. -/
def meaningIn (frame : Frame) (x : String) : Option Meaning :=
  (frame.find? (·.name == x)).map (·.meaning)

/-- What a name stands for: the innermost frame that declares it counts. -/
def meaningOf (frames : Frames) (x : String) : Option Meaning :=
  frames.findSome? (meaningIn · x)

/-- The frame in front is asked first, and the others only if it does not have the name. -/
theorem meaningOf_cons (frame : Frame) (frames : Frames) (x : String) :
    meaningOf (frame :: frames) x = (meaningIn frame x).or (meaningOf frames x) := by
  rw [meaningOf, List.findSome?_cons]
  cases meaningIn frame x <;> rfl

/-- A variable as a binding. -/
def VarDecl.binding (d : VarDecl) : Binding :=
  ⟨d.name, if d.length.isSome then .array d.type else .scalar d.type, d.place.line, d.place.span⟩

/-- A parameter as a binding. -/
def Param.binding (p : Param) : Binding :=
  ⟨p.name, .scalar p.type, p.place.line, p.place.span⟩

/-- A function as a binding. -/
def Function.binding (f : Function) : Binding :=
  ⟨f.name, .function (f.params.map (·.type)) f.returnType, f.place.line, f.place.span⟩

/-- The functions that every program can call. -/
def builtinFrame : Frame :=
  [⟨"print_int", .function [.int] .void, 0, .point 0⟩,
    ⟨"print_bool", .function [.bool] .void, 0, .point 0⟩,
    ⟨"print_str", .function [.str] .void, 0, .point 0⟩]

/-- What a program declares. -/
def Program.frame (p : Program) : Frame :=
  builtinFrame ++ p.globals.map (·.binding) ++ p.functions.map (·.binding)

/-- What a function declares inside itself. -/
def Function.frame (f : Function) : Frame :=
  f.params.map (·.binding)

/-! ## Repetitions -/

/-- The members of a list whose name has been there before. -/
def repeated {α : Type} (name : α → String) : List String → List α → List α
  | _, [] => []
  | seen, a :: rest =>
    if name a ∈ seen then a :: repeated name seen rest
    else repeated name (name a :: seen) rest

section Seen

variable {α : Type} {name : α → String} {seen : List String} {as : List α} {a b : α}

theorem seen_or_mem_cons_of_seen (h : name a ∈ seen) :
    (name b ∈ seen ∨ name b ∈ (a :: as).map name) ↔ (name b ∈ seen ∨ name b ∈ as.map name) := by
  rw [List.map_cons, List.mem_cons]
  grind

theorem cons_seen_or_mem :
    (name b ∈ name a :: seen ∨ name b ∈ as.map name) ↔
      (name b ∈ seen ∨ name b ∈ (a :: as).map name) := by
  rw [List.map_cons, List.mem_cons, List.mem_cons]
  grind

end Seen

section Repeated

variable {α : Type} {name : α → String} {seen seen' : List String} {as bs : List α}

/-- It does not matter how the names that were seen are listed. -/
theorem repeated_congr (h : ∀ x, x ∈ seen ↔ x ∈ seen') :
    repeated name seen as = repeated name seen' as := by
  induction as generalizing seen seen' with
  | nil => rfl
  | cons a as ih =>
    have hcons : ∀ x, x ∈ name a :: seen ↔ x ∈ name a :: seen' := by
      intro x
      rw [List.mem_cons, List.mem_cons, h x]
    rw [repeated, repeated, ih h, ih hcons]
    simp only [h (name a)]

/-- What is repeated behind some items is repeated of them or of what was seen before. -/
theorem repeated_append_eq :
    repeated name seen (as ++ bs) =
      repeated name seen as ++ repeated name (as.map name ++ seen) bs := by
  induction as generalizing seen with
  | nil => rfl
  | cons a as ih =>
    rw [List.cons_append, repeated, repeated, ih, ih]
    by_cases h : name a ∈ seen
    · rw [if_pos h, if_pos h, List.cons_append]
      refine congrArg (a :: _ ++ ·) (repeated_congr fun x => ?_)
      rw [List.map_cons, List.cons_append, List.mem_cons, List.mem_append]
      grind
    · rw [if_neg h, if_neg h]
      refine congrArg (_ ++ ·) (repeated_congr fun x => ?_)
      rw [List.map_cons, List.cons_append, List.mem_append, List.mem_cons, List.mem_cons,
        List.mem_append]
      grind

/-- The repetitions are some of the items, in order. -/
theorem repeated_sublist : (repeated name seen as).Sublist as := by
  induction as generalizing seen with
  | nil => exact .slnil
  | cons a as ih =>
    rw [repeated]
    split
    · exact ih.cons_cons a
    · exact ih.cons a

end Repeated

/-- One more item is a repetition exactly if its name has been there. -/
theorem repeated_append {α : Type} (name : α → String) (seen : List String) (as : List α) (b : α) :
    repeated name seen (as ++ [b]) =
      repeated name seen as ++ if name b ∈ seen ∨ name b ∈ as.map name then [b] else [] := by
  rw [repeated_append_eq, repeated, repeated, repeated]
  simp only [List.mem_append, or_comm]

/-- Repetitions depend on the names alone. -/
theorem repeated_map {α β : Type} (name : β → String) (f : α → β) (seen : List String)
    (as : List α) :
    repeated name seen (as.map f) = (repeated (fun a => name (f a)) seen as).map f := by
  induction as generalizing seen with
  | nil => rfl
  | cons a as ih =>
    rw [List.map_cons, repeated, repeated]
    split
    · rw [ih, List.map_cons]
    · rw [ih]

/-- The members of a list whose name has not been there before. -/
def firsts {α : Type} (name : α → String) : List String → List α → List α
  | _, [] => []
  | seen, a :: rest =>
    if name a ∈ seen then firsts name seen rest
    else a :: firsts name (name a :: seen) rest

/-- One more item is the first of its name exactly if the name has not been there. -/
theorem firsts_append {α : Type} (name : α → String) (seen : List String) (as : List α) (b : α) :
    firsts name seen (as ++ [b]) =
      firsts name seen as ++ if name b ∈ seen ∨ name b ∈ as.map name then [] else [b] := by
  induction as generalizing seen with
  | nil => by_cases h : name b ∈ seen <;> simp [firsts, h]
  | cons a as ih =>
    rw [List.cons_append, firsts, firsts]
    by_cases h : name a ∈ seen
    · rw [if_pos h, if_pos h, ih]
      simp only [seen_or_mem_cons_of_seen h]
    · rw [if_neg h, if_neg h, ih, List.cons_append]
      simp only [cons_seen_or_mem]

/-- First occurrences depend on the names alone. -/
theorem firsts_map {α β : Type} (name : β → String) (f : α → β) (seen : List String)
    (as : List α) :
    firsts name seen (as.map f) = (firsts (fun a => name (f a)) seen as).map f := by
  induction as generalizing seen with
  | nil => rfl
  | cons a as ih =>
    rw [List.map_cons, firsts, firsts]
    split
    · rw [ih]
    · rw [ih, List.map_cons]

/-- Nothing is repeated exactly if no name comes twice, and none of those seen before
comes again. -/
theorem repeated_eq_nil_iff {α : Type} (name : α → String) (seen : List String) (as : List α) :
    repeated name seen as = [] ↔ (as.map name).Nodup ∧ ∀ a ∈ as, name a ∉ seen := by
  induction as generalizing seen with
  | nil => simp [repeated]
  | cons a as ih =>
    rw [repeated]
    split
    next h => simp [h]
    next h =>
      rw [ih, List.map_cons, List.nodup_cons]
      constructor
      · rintro ⟨hnodup, hfresh⟩
        refine ⟨⟨?_, hnodup⟩, ?_⟩
        · intro hmem
          obtain ⟨b, hb, heq⟩ := List.mem_map.mp hmem
          exact hfresh b hb (heq ▸ List.mem_cons_self)
        · intro b hb
          rcases List.mem_cons.mp hb with rfl | hb
          · exact h
          · exact fun hs => hfresh b hb (List.mem_cons_of_mem _ hs)
      · rintro ⟨⟨hnot, hnodup⟩, hfresh⟩
        refine ⟨hnodup, fun b hb hs => ?_⟩
        rcases List.mem_cons.mp hs with heq | hs
        · exact hnot (heq ▸ List.mem_map_of_mem hb)
        · exact hfresh b (List.mem_cons_of_mem a hb) hs

end Decaf
