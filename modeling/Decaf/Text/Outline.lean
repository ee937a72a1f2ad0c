/-!
# Outlines of structured values

Dumps show a value by its structure: words, records with named fields, tuples
and lists. An outline is that structure, and it is written in one of two ways:
`compact` on a single line, or `pretty` with one line for each part, four spaces
deeper than the whole, and a comma after each.
-/

namespace Decaf.Text

mutual

/-- The structure of a value. -/
inductive Outline where
  | word (text : String)
  | record (name : String) (fields : List Field)
  | tuple (name : String) (items : List Outline)
  | list (items : List Outline)

/-- A part of a record. -/
inductive Field where
  | mk (label : String) (value : Outline)

end

namespace Outline

/-- A value that may be absent. -/
def option : Option Outline → Outline
  | none => word "None"
  | some value => tuple "Some" [value]

/-- A number. -/
def number (n : Nat) : Outline :=
  word (toString n)

/-- Spaces. -/
def spaces (n : Nat) : String :=
  "".pushn ' ' n

mutual

/-- The outline on a single line. -/
def compact : Outline → String
  | word text => text
  | record name fields => name ++ " \x7b " ++ ", ".intercalate (compactFields fields) ++ " \x7d"
  | tuple name items => name ++ "(" ++ ", ".intercalate (compactItems items) ++ ")"
  | list items => "[" ++ ", ".intercalate (compactItems items) ++ "]"

/-- The parts of a record, each on a single line. -/
def compactFields : List Field → List String
  | [] => []
  | .mk label value :: rest => (label ++ ": " ++ compact value) :: compactFields rest

/-- Items, each on a single line. -/
def compactItems : List Outline → List String
  | [] => []
  | item :: rest => compact item :: compactItems rest

end

mutual

/-- The outline with a line for each part. Its first line continues the current
one; the others are indented by at least `indent`. -/
def pretty (indent : Nat) : Outline → String
  | word text => text
  | record name fields =>
    name ++ " \x7b\n" ++ prettyFields (indent + 4) fields ++ spaces indent ++ "\x7d"
  | tuple name items =>
    name ++ "(\n" ++ prettyItems (indent + 4) items ++ spaces indent ++ ")"
  | list [] => "[]"
  | list (item :: rest) =>
    "[\n" ++ (spaces (indent + 4) ++ pretty (indent + 4) item ++ ",\n" ++
      prettyItems (indent + 4) rest) ++ spaces indent ++ "]"

/-- The parts of a record, a line or more for each. -/
def prettyFields (indent : Nat) : List Field → String
  | [] => ""
  | .mk label value :: rest =>
    spaces indent ++ label ++ ": " ++ pretty indent value ++ ",\n" ++ prettyFields indent rest

/-- Items, a line or more for each. -/
def prettyItems (indent : Nat) : List Outline → String
  | [] => ""
  | item :: rest => spaces indent ++ pretty indent item ++ ",\n" ++ prettyItems indent rest

end

end Outline

end Decaf.Text
