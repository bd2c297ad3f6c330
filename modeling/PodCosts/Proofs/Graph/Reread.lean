import PodCosts.Proofs.Graph.Pods
import PodCosts.Proofs.Json.Records

/-!
# What of an answer is read again

A reader of an answer gets the strings that a node records, and a record for each node in a row. A
field that is missing stands for its default. Only a number may be printed in such a way that it is
not read again.
-/

namespace PodCosts

namespace Node

/-- A field that is not there is read as its default. -/
theorem field?_absent {α : Type} {known : List (String × Node)} {name : String}
    (hknown : Fields.get? name known = none) (absent : α) (read : Node → Option α) :
    field? known name absent read = some absent := by
  rw [field?, hknown]

/-- The records of a row of answers are read wherever each of the answers is. -/
theorem field?_row {α : Type} {read : Nat → Node → Option α} {depth : Nat}
    {answers : List (List (String × Json))} {records : List α}
    (hanswers : answers.mapM (fun answer => read depth (Json.object answer).toNode) = some records)
    {known : List (String × Node)} {key : String}
    (hknown : Fields.get? key known = (Selection.row answers).map Json.toNode) :
    field? known key [] (list? read (depth + 1)) = some records := by
  rw [field?, hknown, Selection.row]
  cases answers with
  | nil => exact hanswers
  | cons answer answers =>
    refine (list?_toNode read depth _).trans ?_
    rw [List.mapM_map]
    exact hanswers

end Node

/-- A field that holds a string or nothing is read as that string. -/
theorem Vertex.field?_text {vertex : Vertex} {predicate : String}
    (htext : vertex.TextOrNothing predicate) {known : List (String × Node)}
    (hknown : Fields.get? predicate known = (vertex.scalar? predicate).map Json.toNode) :
    Node.field? known predicate "" Node.text? = some ((vertex.text? predicate).getD "") := by
  rw [Node.field?, hknown, text?]
  cases hvalue : vertex.scalar? predicate with
  | none => rfl
  | some value =>
      obtain ⟨text, rfl⟩ := scalar?_of_text htext hvalue
      rfl

/-! ## Numbers -/

/-- Whether a value is a number of a document. -/
def Json.IsNumber : Json → Prop
  | .number value => value.Finite
  | _ => False

instance : DecidablePred Json.IsNumber
  | .number value => inferInstanceAs (Decidable value.Finite)
  | .null | .bool _ | .string _ | .array _ | .object _ => isFalse id

/-- A number of a document can be written. -/
theorem Json.finite_of_isNumber {value : Json} (hnumber : value.IsNumber) : value.Finite := by
  cases value with
  | number value => exact hnumber
  | _ => exact hnumber.elim

namespace Json

mutual

/-- Whether every number of a document is read back as a number once it has been printed. -/
def readable : Json → Bool
  | .number value => value.numeral.value?.isSome
  | .array items => itemsReadable items
  | .object fields => fieldsReadable fields
  | _ => true

/-- Whether every number in the items of an array is read back. -/
def itemsReadable : List Json → Bool
  | [] => true
  | item :: items => item.readable && itemsReadable items

/-- Whether every number in the fields of an object is read back. -/
def fieldsReadable : List (String × Json) → Bool
  | [] => true
  | (_, value) :: fields => value.readable && fieldsReadable fields

end

/-- Every item of an array that is read back is read back. -/
theorem readable_of_mem_items {items : List Json} (h : itemsReadable items = true) :
    ∀ item ∈ items, item.readable = true := by
  induction items with
  | nil => exact fun _ hitem => absurd hitem List.not_mem_nil
  | cons item items ih =>
      rw [itemsReadable, Bool.and_eq_true] at h
      exact List.forall_mem_cons.mpr ⟨h.1, ih h.2⟩

/-- Every field of an object that is read back is read back. -/
theorem readable_of_mem_fields {fields : List (String × Json)} (h : fieldsReadable fields = true) :
    ∀ field ∈ fields, field.2.readable = true := by
  induction fields with
  | nil => exact fun _ hfield => absurd hfield List.not_mem_nil
  | cons field fields ih =>
      rw [fieldsReadable, Bool.and_eq_true] at h
      exact List.forall_mem_cons.mpr ⟨h.1, ih h.2⟩

/-- With a row of answers each of them can be read back. -/
theorem readable_of_mem_row {fields : List (String × Json)}
    (h : (object fields).readable = true) {key : String}
    {answers : List (List (String × Json))}
    (hrow : Fields.get? key fields = Selection.row answers) {answer : List (String × Json)}
    (hanswer : answer ∈ answers) : (object answer).readable = true := by
  rw [Selection.row, if_neg (by simpa using List.ne_nil_of_mem hanswer)] at hrow
  have harray := readable_of_mem_fields h _ (Fields.mem_of_get? hrow)
  exact readable_of_mem_items harray _ (List.mem_map_of_mem hanswer)

/-- A number that is read back is read as a double. -/
theorem float?_of_readable {value : Json} (hnumber : value.IsNumber)
    (hreadable : value.readable = true) : (Node.float? value.toNode).isSome := by
  cases value with
  | number number =>
      rw [toNode, Node.float?, Option.isSome_map]
      exact hreadable
  | _ => exact hnumber.elim

end Json

/-- Whether every number that is printed in the answer to a query is read back as a number. -/
def Graph.PrintsReadable (graph : Graph) (query : Query) : Prop :=
  ∀ document, graph.evaluate query = .ok document → document.readable = true

instance (graph : Graph) (query : Query) : Decidable (graph.PrintsReadable query) :=
  decidable_of_iff ((graph.evaluate query).toOption.all Json.readable = true) <| by
    rw [Graph.PrintsReadable]
    cases graph.evaluate query <;> simp [Except.toOption]

end PodCosts
