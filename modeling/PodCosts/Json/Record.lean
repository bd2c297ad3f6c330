import PodCosts.Json.Node

/-!
# Reading records

A record is written as an object with named fields, or as an array of its fields in their order, of
which the last ones may be missing. A field that is not given has its default value, a field that is
given twice is an error, and fields that a record does not have are passed over, whatever they hold.

Each reader takes the number of arrays and objects that may still lie inside one another.
-/

namespace PodCosts.Node

/-- Whether no name stands twice in a list. -/
def distinct : List String → Bool
  | [] => true
  | name :: names => !names.contains name && distinct names

/-- The given fields of a record with the given field names. -/
def fields? (names : List String) : Node → Option (List (String × Node))
  | .object members => do
    let named ← members.mapM fun member => member.1.map fun name => (name, member.2)
    let known := named.filter fun member => names.contains member.1
    if distinct (known.map Prod.fst) then some known else none
  | .array items => if items.length ≤ names.length then some (names.zip items) else none
  | _ => none

/-- A record whose fields lie one level deeper. -/
def record? {α : Type} (names : List String)
    (read : Nat → List (String × Node) → Option α) : Nat → Node → Option α
  | 0, _ => none
  | depth + 1, node => do
    let fields ← node.fields? names
    read depth fields

/-- The value of a field, or its default. -/
def field? {α : Type} (fields : List (String × Node)) (name : String) (absent : α)
    (read : Node → Option α) : Option α :=
  match Fields.get? name fields with
  | none => some absent
  | some node => read node

/-- A string. -/
def text? : Node → Option String
  | .string text => text
  | _ => none

/-- A number, as a double. -/
def float? : Node → Option Float
  | .number value => value.value?.map Number.toFloat
  | _ => none

/-- A list whose items lie one level deeper. -/
def list? {α : Type} (read : Nat → Node → Option α) : Nat → Node → Option (List α)
  | depth + 1, .array items => items.mapM (read depth)
  | _, _ => none

/-- A value that may be left out with `null`. -/
def optional? {α : Type} (read : Node → Option α) : Node → Option (Option α)
  | .null => some none
  | node => (read node).map some

end PodCosts.Node
