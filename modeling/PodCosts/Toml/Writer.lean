import PodCosts.Number.Layout
import PodCosts.Text.Quoted
import PodCosts.Toml.Basic

/-!
# Writing settings files

A settings file that is written is a row of tables with a header each, one field to a line, and an
empty line between two tables.
-/

namespace PodCosts.Toml

/-- A value that can be written. -/
inductive Scalar where
  | text (value : String)
  | number (value : Float)
  | count (value : Nat)

/-- A table that can be written: its header, and its fields in order. -/
abbrev Table := String × List (String × Scalar)

/-- Numbers in settings files: `0.024`, `3.0`, never an exponent. -/
def doubleLayout : Number.Layout :=
  ⟨none, ['.', '0'], .up⟩

/-- The text of a double. -/
def doubleText (value : Float) : String :=
  if value.isNaN then "nan" else doubleLayout.text value

/-- How one character stands inside a string: as in a document, but the delete character is escaped
as well. -/
def escapeChar (c : Char) : List Char :=
  if c = '\x7f' then ['\\', 'u', '0', '0', '7', 'f'] else Text.escapeChar c

namespace Scalar

/-- What a value is read back as. -/
def item : Scalar → Item
  | text value => .string value
  | number value => .float value
  | count value => .int value

/-- The text of a value. -/
def chars : Scalar → List Char
  | text value => '"' :: value.toList.flatMap escapeChar ++ ['"']
  | number value => (doubleText value).toList
  | count value => Number.digitChars value

end Scalar

/-- The line of a field. -/
def fieldChars (field : String × Scalar) : List Char :=
  field.1.toList ++ ' ' :: '=' :: ' ' :: field.2.chars ++ ['\n']

/-- The lines of a table. -/
def tableChars (table : Table) : List Char :=
  '[' :: table.1.toList ++ ']' :: '\n' :: table.2.flatMap fieldChars

/-- The text of tables. -/
def fileText (tables : List Table) : String :=
  String.ofList (['\n'].intercalate (tables.map tableChars))

example :
    fileText [("a", [("b", .text "\x7f\""), ("c", .number 1e16)]), ("d", [("e", .count 5)])] =
      "[a]\nb = \"\\u007f\\\"\"\nc = 10000000000000000.0\n\n[d]\ne = 5\n" := by
  decide +kernel

end PodCosts.Toml
