import PodCosts.Number.Layout
import PodCosts.Text.Quoted

/-!
# Documents

A document is a JSON value. Objects are lists of fields in the order in which they are written:
records write their fields in a fixed order, and free values keep theirs sorted by key, which
`Fields.insert` maintains.
-/

namespace PodCosts

/-- A number of a document: a whole number of up to 64 bits, or a double. -/
inductive Number where
  | int (value : Int)
  | float (value : Float)

namespace Number

/-- The double nearest to a number. -/
def toFloat : Number → Float
  | .int value => Float.ofInt value
  | .float value => value

/-- Whole numbers are written as such and doubles with their shortest digits. -/
def text : Number → String
  | .int value => toString value
  | .float value => Layout.document.text value

end Number

/-- A JSON value. -/
inductive Json where
  | null
  | bool (value : Bool)
  | number (value : Number)
  | string (value : String)
  | array (items : List Json)
  | object (fields : List (String × Json))

/-! ## Lists of named values -/

namespace Fields

/-- Sets a name to a value. The names of a sorted list stay sorted, and a name that is there already
gets the new value. -/
def insert {α : Type} (name : String) (value : α) : List (String × α) → List (String × α)
  | [] => [(name, value)]
  | (other, held) :: rest =>
    if name < other then (name, value) :: (other, held) :: rest
    else if name = other then (name, value) :: rest
    else (other, held) :: insert name value rest

/-- The value of a name. -/
def get? {α : Type} (name : String) (fields : List (String × α)) : Option α :=
  (fields.find? fun field => field.1 == name).map Prod.snd

/-- A name that has been set holds its new value. -/
theorem get?_insert {α : Type} (name : String) (value : α) (fields : List (String × α)) :
    get? name (insert name value fields) = some value := by
  induction fields with
  | nil => simp [insert, get?]
  | cons field rest ih =>
    obtain ⟨other, held⟩ := field
    unfold insert
    split
    · simp [get?]
    · split
      · simp [get?]
      · rename_i different
        simp only [get?, List.find?_cons] at ih ⊢
        rw [beq_false_of_ne (Ne.symm different)]
        exact ih

end Fields

end PodCosts
