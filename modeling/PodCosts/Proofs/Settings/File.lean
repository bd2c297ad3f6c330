import PodCosts.Proofs.Text.Utf8
import PodCosts.Proofs.Toml.Tables
import PodCosts.Settings.File

/-!
# Settings files

A file that was written from settings makes these settings again, with their endpoint normalised. It
asks of the prices only what every price that is written in a few digits fulfils: its text reads
back to it.
-/

namespace PodCosts

deriving instance DecidableEq for Pricing

deriving instance DecidableEq for Settings

namespace Settings

/-- Whether the numbers of settings are read back from their texts as they were. -/
def ReadsBack (settings : Settings) : Prop :=
  (∀ price ∈ namedPrices settings.pricing, (Toml.Scalar.number price.2).ReadsBack) ∧
    (Toml.Scalar.count settings.store.timeoutSecs).ReadsBack

instance : DecidablePred ReadsBack := fun _ => inferInstanceAs (Decidable (_ ∧ _))

/-- The tables of settings are read back if their numbers are. -/
theorem readsBack_of_mem_tables {settings : Settings} (h : settings.ReadsBack) :
    ∀ table ∈ settings.tables, table.ReadsBack := by
  obtain ⟨hprices, htimeout⟩ := h
  simp only [namedPrices, List.forall_mem_cons] at hprices
  obtain ⟨hcpu, hmemory, hstorage, -⟩ := hprices
  simp only [tables, Toml.Table.ReadsBack, List.forall_mem_cons]
  refine ⟨⟨by decide, by simp, ?_⟩, ⟨by decide, by simp, ?_⟩, List.forall_mem_nil _⟩
  · exact ⟨⟨by decide, hcpu⟩, ⟨by decide, hmemory⟩, ⟨by decide, hstorage⟩, List.forall_mem_nil _⟩
  · exact ⟨⟨by decide, trivial⟩, ⟨by decide, htimeout⟩, List.forall_mem_nil _⟩

/-- Settings that were written are read back, with their endpoint normalised. -/
theorem ofText?_text {settings : Settings} (h : settings.ReadsBack) :
    ofText? settings.text = some settings.normalized := by
  have hread := Toml.read?_fileText (readsBack_of_mem_tables h) (by simp [tables])
  have hcount : Toml.Item.count? (.int settings.store.timeoutSecs) =
      some settings.store.timeoutSecs := by
    simp [Toml.Item.count?]
  rw [ofText?, text, hread]
  simp [tables, Toml.tableEntries, Toml.fieldEntries, Toml.Entries.field?, Toml.Entries.get?,
    Pricing.ofItem?, StoreSettings.ofItem?, Toml.Item.fields?, Toml.Scalar.item, Toml.Item.float?,
    Toml.Item.text?, hcount]

/-- A file with a text makes the settings that the text makes. -/
theorem ofBytes_encode {text : String} {settings : Settings} (h : ofText? text = some settings) :
    ofBytes (Text.encode text) = .ok settings := by
  rw [ofBytes, Text.decodeStrict?_encode]
  simp only [String.ofList_toList, h]

/-- The file of the usual settings reads back as them, to the last digit of every price. -/
theorem ofText?_standardText : ofText? standardText = some standard := by
  have hback : standard.ReadsBack := by decide +kernel
  have hnormalized : standard.normalized = standard := by decide +kernel
  rw [standardText, ofText?_text hback, hnormalized]

end Settings

end PodCosts
