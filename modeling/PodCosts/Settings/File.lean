import PodCosts.Number.Arithmetic
import PodCosts.Settings.Basic
import PodCosts.Text.Utf8
import PodCosts.Toml.Reader
import PodCosts.Toml.Writer

/-!
# Settings files

What a file says about prices and about the store. Both parts may be left out, and so may each of
their fields; names that mean nothing here are passed over. Settings are written with all of them.
-/

namespace PodCosts

namespace Toml

/-- The fields of a record with the given field names. A table has them by name and an array by
order. A date or a time is a record that has none of them. -/
def Item.fields? (names : List String) : Item → Option Entries
  | .table _ entries | .inline entries => some entries
  | .array items => some (names.zip items)
  | .tables items => some (names.zip (items.map (.table .header)))
  | .moment => some []
  | _ => none

/-- A number, as a double. -/
def Item.float? : Item → Option Float
  | .float value => some value
  | .int value => some (Arithmetic.ofInt value)
  | _ => none

/-- A whole number that is not negative. -/
def Item.count? : Item → Option Nat
  | .int value => if 0 ≤ value then some value.toNat else none
  | _ => none

/-- A string. -/
def Item.text? : Item → Option String
  | .string value => some value
  | _ => none

/-- The value of a field, or what stands for it where it is not given. -/
def Entries.field? {α : Type} (entries : Entries) (name : String) (absent : α)
    (read : Item → Option α) : Option α :=
  match Entries.get? name entries with
  | none => some absent
  | some item => read item

end Toml

namespace Pricing

/-- Reads the part of a file about prices. -/
def ofItem? (item : Toml.Item) : Option Pricing := do
  let fields ← item.fields? ["cpu_per_core_hour", "memory_per_gb_hour", "storage_per_gb_hour"]
  let cpu ← Toml.Entries.field? fields "cpu_per_core_hour" standard.cpuPerCoreHour
    Toml.Item.float?
  let memory ← Toml.Entries.field? fields "memory_per_gb_hour" standard.memoryPerGbHour
    Toml.Item.float?
  let storage ← Toml.Entries.field? fields "storage_per_gb_hour" standard.storagePerGbHour
    Toml.Item.float?
  some ⟨cpu, memory, storage⟩

end Pricing

namespace StoreSettings

/-- Reads the part of a file about the store. -/
def ofItem? (item : Toml.Item) : Option StoreSettings := do
  let fields ← item.fields? ["endpoint", "timeout_secs"]
  let endpoint ← Toml.Entries.field? fields "endpoint" standard.endpoint Toml.Item.text?
  let timeoutSecs ← Toml.Entries.field? fields "timeout_secs" standard.timeoutSecs
    Toml.Item.count?
  some ⟨endpoint, timeoutSecs⟩

end StoreSettings

/-- Why there are no settings. -/
inductive SettingsError where
  /-- The file cannot be read as text, or cannot be written. -/
  | io
  /-- The text is not a settings file. -/
  | parse
deriving DecidableEq

namespace Settings

/-- The settings that a text makes. -/
def ofText? (text : String) : Option Settings := do
  let entries ← Toml.read? text
  let pricing ← Toml.Entries.field? entries "pricing" Pricing.standard Pricing.ofItem?
  let store ← Toml.Entries.field? entries "store" StoreSettings.standard StoreSettings.ofItem?
  some (normalized ⟨pricing, store⟩)

/-- The settings that a file of the given bytes makes. -/
def ofBytes (bytes : List UInt8) : Except SettingsError Settings :=
  match Text.decodeStrict? bytes with
  | none => .error .io
  | some cs =>
    match ofText? (String.ofList cs) with
    | none => .error .parse
    | some settings => .ok settings

/-- Settings by table and field. -/
def tables (settings : Settings) : List Toml.Table :=
  [("pricing",
      [("cpu_per_core_hour", .number settings.pricing.cpuPerCoreHour),
        ("memory_per_gb_hour", .number settings.pricing.memoryPerGbHour),
        ("storage_per_gb_hour", .number settings.pricing.storagePerGbHour)]),
    ("store",
      [("endpoint", .text settings.store.endpoint),
        ("timeout_secs", .count settings.store.timeoutSecs)])]

/-- The file that settings are written as. -/
def text (settings : Settings) : String :=
  Toml.fileText settings.tables

/-- The file that makes the usual settings. -/
def standardText : String :=
  standard.text

example : standardText =
    "[pricing]\n" ++
    "cpu_per_core_hour = 0.024\n" ++
    "memory_per_gb_hour = 0.01\n" ++
    "storage_per_gb_hour = 0.00013888888\n" ++
    "\n" ++
    "[store]\n" ++
    "endpoint = \"http://127.0.0.1:8080\"\n" ++
    "timeout_secs = 30\n" := by
  decide +kernel

end Settings

end PodCosts
