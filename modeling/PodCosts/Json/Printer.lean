import PodCosts.Json.Basic
import PodCosts.Text.Joined

/-!
# Writing documents

`Json.compact` writes a document without any blanks, which is the form in which a store answers.
`Json.pretty` writes every item and every field on a line of its own, indented by two spaces a
level, which is the form shown to the user. Both write the fields of an object in their order.
-/

namespace PodCosts.Json

open Text (joined)

mutual

/-- The text of a document without blanks. -/
def compact : Json → String
  | .null => "null"
  | .bool true => "true"
  | .bool false => "false"
  | .number value => value.text
  | .string value => Text.quote value
  | .array items => "[" ++ joined "," (compactItems items) ++ "]"
  | .object fields => "\x7b" ++ joined "," (compactFields fields) ++ "\x7d"

/-- The texts of the items of an array. -/
def compactItems : List Json → List String
  | [] => []
  | item :: items => item.compact :: compactItems items

/-- The texts of the fields of an object. -/
def compactFields : List (String × Json) → List String
  | [] => []
  | (name, value) :: fields => (Text.quote name ++ ":" ++ value.compact) :: compactFields fields

end

/-- A new line at a depth. -/
def newLine (depth : Nat) : String :=
  String.ofList ('\n' :: List.replicate (2 * depth) ' ')

mutual

/-- The text of a document with one item or field a line, starting at a depth. -/
def prettyAt (depth : Nat) : Json → String
  | .array (item :: items) =>
    "[" ++ newLine (depth + 1) ++
      joined ("," ++ newLine (depth + 1)) (prettyItems (depth + 1) (item :: items)) ++
      newLine depth ++ "]"
  | .object (field :: fields) =>
    "\x7b" ++ newLine (depth + 1) ++
      joined ("," ++ newLine (depth + 1)) (prettyFields (depth + 1) (field :: fields)) ++
      newLine depth ++ "\x7d"
  | .array [] => "[]"
  | .object [] => "\x7b\x7d"
  | .null => "null"
  | .bool true => "true"
  | .bool false => "false"
  | .number value => value.text
  | .string value => Text.quote value

/-- The texts of the items of an array at a depth. -/
def prettyItems (depth : Nat) : List Json → List String
  | [] => []
  | item :: items => prettyAt depth item :: prettyItems depth items

/-- The texts of the fields of an object at a depth. -/
def prettyFields (depth : Nat) : List (String × Json) → List String
  | [] => []
  | (name, value) :: fields =>
    (Text.quote name ++ ": " ++ prettyAt depth value) :: prettyFields depth fields

end

/-- The text of a document with one item or field a line. -/
def pretty (document : Json) : String :=
  prettyAt 0 document

example : compact (.object [("a", .array [.null, .number (.int 3)])]) =
    "\x7b\"a\":[null,3]\x7d" := by
  decide +kernel
example : pretty (.array [.object [], .bool true]) = "[\n  \x7b\x7d,\n  true\n]" := by
  decide +kernel

end PodCosts.Json
