import PodCosts.Pod
import PodCosts.Proofs.Json.Records

/-!
# Codecs of records

A record is written with the fields that differ from their defaults. What a reader has accepted is
read again, field by field, after it has been written: a field that was left out stands for its
default, and every other field holds what it was written from. Of numbers and times it is required
that their own texts are read as they were.
-/

namespace PodCosts

/-! ## Numbers and times -/

namespace Number

/-- Whether the text of a double is read as that double. -/
def ReadsBack (x : Float) : Prop :=
  Node.decode? (fun _ => Node.float?) (Text.encode (Json.float x).compact) = some x

instance : DecidablePred ReadsBack := fun _ => inferInstanceAs (Decidable (_ = _))

/-- The texts of doubles that are not finite are no documents. -/
theorem ReadsBack.finite {x : Float} (h : ReadsBack x) : (Json.float x).Finite := by
  have hnan : Node.decode? (fun _ => Node.float?) (Text.encode "NaN") = none := by decide +kernel
  have hinfinity (negative : Bool) :
      Node.decode? (fun _ => Node.float?) (Text.encode (infinityText negative)) = none := by
    cases negative <;> decide +kernel
  cases hvalue : Binary64.ofFloat x with
  | nan =>
    have htext : (Json.float x).compact = "NaN" := by
      simp only [Json.float, Json.compact, text, Layout.text, hvalue]
    rw [ReadsBack, htext, hnan] at h
    cases h
  | infinity negative =>
    have htext : (Json.float x).compact = infinityText negative := by
      simp only [Json.float, Json.compact, text, Layout.text, hvalue]
    rw [ReadsBack, htext, hinfinity] at h
    cases h
  | finite negative significand exponent => exact isFinite_of_ofFloat_eq_finite hvalue

/-- A double whose text is read as itself comes back from its document. -/
theorem ReadsBack.float? {x : Float} (h : ReadsBack x) :
    Node.float? (Json.float x).toNode = some x := by
  have hread := h
  rw [ReadsBack, Node.decode?, Json.read?_compact h.finite] at hread
  exact hread

end Number

/-- Whether the text of an instant is read as that instant. -/
def Instant.ReadsBack (moment : Instant) : Prop :=
  Timestamp.readLenient? (Timestamp.text moment) = some moment

instance : DecidablePred Instant.ReadsBack := fun _ => inferInstanceAs (Decidable (_ = _))

/-! ## Written fields -/

namespace Fields

/-- The fields that are given, in their order. -/
def present (slots : List (String × Option Json)) : List (String × Json) :=
  slots.filterMap fun slot => slot.2.map fun value => (slot.1, value)

/-- The given fields of two lists of slots stand one behind the other. -/
theorem present_append (slots others : List (String × Option Json)) :
    present (slots ++ others) = present slots ++ present others :=
  List.filterMap_append ..

/-- The names of the given fields are some of those of the slots, in their order. -/
theorem names_present_sublist (slots : List (String × Option Json)) :
    ((present slots).map Prod.fst).Sublist (slots.map Prod.fst) := by
  induction slots with
  | nil => exact List.Sublist.refl _
  | cons slot slots ih =>
    obtain ⟨name, value?⟩ := slot
    cases value? with
    | none => exact ih.cons name
    | some value => exact ih.cons_cons name

/-- A name holds what its slot has. -/
theorem get?_present {slots : List (String × Option Json)} (hnodup : (slots.map Prod.fst).Nodup) :
    ∀ slot ∈ slots, get? slot.1 (present slots) = slot.2 := by
  induction slots with
  | nil => exact fun _ hslot => absurd hslot List.not_mem_nil
  | cons first slots ih =>
    obtain ⟨hfirst, hrest⟩ := List.nodup_cons.mp hnodup
    obtain ⟨name, value?⟩ := first
    have hsublist := names_present_sublist slots
    refine List.forall_mem_cons.mpr ⟨?_, fun slot hslot => ?_⟩
    · cases value? with
      | none =>
        have habsent : name ∉ (present slots).map Prod.fst := fun hname =>
          hfirst (hsublist.subset hname)
        exact get?_eq_none habsent
      | some value => exact get?_cons_self _ _ _
    · have hne : name ≠ slot.1 := fun heq => hfirst (List.mem_map.mpr ⟨slot, hslot, heq.symm⟩)
      cases value? with
      | none => exact ih hrest slot hslot
      | some value => exact (get?_cons_of_ne hne value _).trans (ih hrest slot hslot)

end Fields

namespace Node

/-- The fields of a written record hold what their slots have. -/
theorem fields?_present (slots : List (String × Option Json)) (names : List String)
    (hnames : slots.map Prod.fst = names) (hnodup : names.Nodup) :
    ∃ known, fields? names (Json.object (Fields.present slots)).toNode = some known ∧
      ∀ slot ∈ slots, Fields.get? slot.1 known = slot.2.map Json.toNode := by
  subst hnames
  obtain ⟨known, hknown, hget⟩ := fields?_toNode_of_nodup
    (hnodup.sublist (Fields.names_present_sublist slots)) (slots.map Prod.fst)
  refine ⟨known, hknown, fun slot hslot => ?_⟩
  rw [hget slot.1 (List.mem_map_of_mem hslot), Fields.get?_present hnodup slot hslot]

/-- A record that was accepted had fields that were accepted one level deeper. -/
theorem exists_of_record? {α : Type} {names : List String}
    {read : Nat → List (String × Node) → Option α} {depth : Nat} {node : Node} {value : α}
    (h : record? names read depth node = some value) :
    ∃ inner fields, depth = inner + 1 ∧ read inner fields = some value := by
  cases depth with
  | zero => cases h
  | succ depth =>
    obtain ⟨fields, -, hread⟩ := Option.bind_eq_some_iff.mp h
    exact ⟨depth, fields, rfl, hread⟩

/-- A field comes back if it is left out only where it has its default, and if it is read as its
value where it is written. -/
theorem field?_of_slot {α : Type} {known : List (String × Node)} {name : String} {absent value : α}
    {read : Node → Option α} {slot? : Option Json}
    (hslot : Fields.get? name known = slot?.map Json.toNode) (hnone : slot? = none → value = absent)
    (hsome : ∀ written ∈ slot?, read written.toNode = some value) :
    field? known name absent read = some value := by
  rw [field?, hslot]
  cases slot? with
  | none => rw [hnone rfl]; rfl
  | some written => exact hsome written rfl

end Node

/-! ## Codecs -/

/-- How records are read and written, what numbers and times they hold, and what they are with zero
in place of minus zero wherever zero is the default. -/
structure Codec (α : Type) where
  read : Nat → Node → Option α
  write : α → Json
  numbers : α → List Float
  times : α → List Instant
  unsigned : α → α

namespace Codec

variable {α : Type}

/-- Whether the texts of all numbers and times of a record are read as they were. -/
def ReadsBack (codec : Codec α) (value : α) : Prop :=
  (∀ x ∈ codec.numbers value, Number.ReadsBack x) ∧ ∀ moment ∈ codec.times value, moment.ReadsBack

instance (codec : Codec α) : DecidablePred codec.ReadsBack :=
  fun _ => inferInstanceAs (Decidable (_ ∧ _))

/-- Whether records that were accepted can be written and read again, and come back as they were. -/
def Survives (codec : Codec α) : Prop :=
  ∀ bytes value, Node.decode? codec.read bytes = some value → codec.ReadsBack value →
    Node.decode? codec.read (Text.encode (codec.write value).compact) = some (codec.unsigned value)

/-- Whether records that were accepted at a depth come back at that depth. -/
def LawfulAt (codec : Codec α) (depth : Nat) : Prop :=
  ∀ node value, codec.read depth node = some value → codec.ReadsBack value →
    codec.read depth (codec.write value).toNode = some (codec.unsigned value)

/-- Whether the documents of records hold only finite numbers. -/
def WritesFinite (codec : Codec α) : Prop :=
  ∀ value, codec.ReadsBack value → (codec.write value).Finite

/-- Records come back from their texts if they come back at the depth of whole documents and hold
only finite numbers. -/
theorem survives_of_lawfulAt {codec : Codec α} (hlawful : codec.LawfulAt Node.depthLimit)
    (hfinite : codec.WritesFinite) : codec.Survives := by
  intro bytes value hdecode hback
  obtain ⟨node, -, hread⟩ := Option.bind_eq_some_iff.mp hdecode
  rw [Node.decode?, Json.read?_compact (hfinite value hback)]
  exact hlawful node value hread hback

/-! ## Lists of records -/

/-- Lists of records. -/
def list (codec : Codec α) : Codec (List α) where
  read := Node.list? codec.read
  write values := .array (values.map codec.write)
  numbers values := values.flatMap codec.numbers
  times values := values.flatMap codec.times
  unsigned values := values.map codec.unsigned

variable {codec : Codec α}

/-- The texts of a list of records are read as they were only if those of each record are. -/
theorem ReadsBack.of_mem_list {values : List α} (h : codec.list.ReadsBack values) :
    ∀ value ∈ values, codec.ReadsBack value := fun _ hvalue =>
  ⟨fun x hx => h.1 x (List.mem_flatMap.mpr ⟨_, hvalue, hx⟩),
    fun moment hmoment => h.2 moment (List.mem_flatMap.mpr ⟨_, hvalue, hmoment⟩)⟩

/-- Lists of records come back where records one level deeper do. -/
theorem list_lawfulAt {depth : Nat} (h : ∀ inner < depth, codec.LawfulAt inner) :
    codec.list.LawfulAt depth := by
  intro node values hread hback
  change Node.list? codec.read depth node = some values at hread
  cases depth with
  | zero => cases node <;> cases hread
  | succ depth =>
    cases node with
    | array items =>
      have hitems := forall₂_of_mapM_eq_some hread
      have hstep : ∀ value ∈ values,
          codec.read depth (codec.write value).toNode = some (codec.unsigned value) := by
        intro value hvalue
        obtain ⟨item, -, hitem⟩ := exists_of_mem_forall₂ hitems hvalue
        exact h depth (Nat.lt_succ_self depth) item value hitem (hback.of_mem_list value hvalue)
      change Node.list? codec.read (depth + 1) (Json.array (values.map codec.write)).toNode = _
      rw [Node.list?_toNode, List.mapM_map]
      exact mapM_eq_some_map hstep
    | _ => cases hread

/-- A list of records holds only finite numbers if each record does. -/
theorem list_writesFinite (h : codec.WritesFinite) : codec.list.WritesFinite := by
  intro values hback
  refine Json.itemsFinite_iff.mpr fun item hitem => ?_
  obtain ⟨value, hvalue, rfl⟩ := List.mem_map.mp hitem
  exact h value (hback.of_mem_list value hvalue)

end Codec

/-! ## Slots of fields -/

namespace Json

/-- A string that is left out where it is empty. -/
def textSlot (text : String) : Option Json :=
  if text = "" then none else some (.string text)

/-- A list that is left out where it is empty. -/
def listSlot {α : Type} (write : α → Json) (items : List α) : Option Json :=
  if items.isEmpty then none else some (.array (items.map write))

end Json

/-- A record holds only finite numbers if each given field does. -/
theorem Json.finite_present {slots : List (String × Option Json)}
    (h : ∀ slot ∈ slots, ∀ written ∈ slot.2, written.Finite) :
    (Json.object (Fields.present slots)).Finite := by
  refine Json.fieldsFinite_iff.mpr fun field hfield => ?_
  obtain ⟨slot, hslot, hpresent⟩ := List.mem_filterMap.mp hfield
  obtain ⟨written, hwritten, rfl⟩ := Option.map_eq_some_iff.mp hpresent
  exact h slot hslot written hwritten

/-- There are no numbers in a string that may be left out. -/
theorem Json.finite_textSlot {text : String} : ∀ written ∈ textSlot text, written.Finite := by
  unfold textSlot
  split_ifs
  · exact nofun
  · rintro written ⟨⟩
    trivial

/-- What may be left out holds only finite numbers if its document does. -/
theorem Json.finite_optional {α : Type} {write : α → Json} {value? : Option α}
    (h : ∀ value ∈ value?, (write value).Finite) :
    ∀ written ∈ value?.map write, written.Finite := by
  intro written hwritten
  obtain ⟨value, hvalue, rfl⟩ := Option.map_eq_some_iff.mp hwritten
  exact h value hvalue

/-- A list in a record has finite numbers if the list itself has. -/
theorem Codec.finite_listSlot {α : Type} {codec : Codec α} (h : codec.WritesFinite)
    {values : List α} (hback : codec.list.ReadsBack values) :
    ∀ written ∈ Json.listSlot codec.write values, written.Finite := by
  unfold Json.listSlot
  split_ifs
  · exact nofun
  · rintro written ⟨⟩
    exact Codec.list_writesFinite h values hback

section

variable {known fields : List (String × Node)} {name : String}

/-- A string that is left out where it is empty comes back. -/
theorem Node.field?_textSlot {text : String}
    (hslot : Fields.get? name known = (Json.textSlot text).map Json.toNode) :
    Node.field? known name "" Node.text? = some text := by
  by_cases hempty : text = ""
  · rw [Json.textSlot, if_pos hempty] at hslot
    exact Node.field?_of_slot hslot (fun _ => hempty) nofun
  · rw [Json.textSlot, if_neg hempty] at hslot
    refine Node.field?_of_slot hslot nofun ?_
    rintro written ⟨⟩
    rfl

/-- A field that is always written is read as what it was written from. -/
theorem Node.field?_written {α : Type} {absent value : α} {read : Node → Option α} {written : Json}
    (hread : read written.toNode = some value)
    (hslot : Fields.get? name known = (some written).map Json.toNode) :
    Node.field? known name absent read = some value := by
  refine Node.field?_of_slot hslot nofun ?_
  rintro _ ⟨⟩
  exact hread

/-- What may be left out comes back if its document is read, which then is not null. -/
theorem Node.field?_optional {α : Type} {read : Node → Option α} {write : α → Json}
    {value? : Option α} (hnull : read .null = none)
    (hread : ∀ value ∈ value?, read (write value).toNode = some value)
    (hslot : Fields.get? name known = (value?.map write).map Json.toNode) :
    Node.field? known name none (Node.optional? read) = some value? := by
  refine Node.field?_of_slot hslot ?_ ?_
  · exact Option.map_eq_none_iff.mp
  · intro written hwritten
    obtain ⟨value, rfl, rfl⟩ := Option.map_eq_some_iff.mp hwritten
    have hvalue := hread value rfl
    unfold Node.optional?
    split
    · rename_i heq
      rw [heq, hnull] at hvalue
      cases hvalue
    · rw [hvalue]
      rfl

/-- A list in a record comes back: where it was accepted and is not empty, it was a field. -/
theorem Codec.field?_listSlot {α : Type} {codec : Codec α} {depth : Nat} {values : List α}
    (hlawful : codec.list.LawfulAt depth) (hback : codec.list.ReadsBack values)
    (hread : Node.field? fields name [] (Node.list? codec.read depth) = some values)
    (hslot : Fields.get? name known = (Json.listSlot codec.write values).map Json.toNode) :
    Node.field? known name [] (Node.list? codec.read depth) =
      some (values.map codec.unsigned) := by
  cases values with
  | nil =>
    exact Node.field?_of_slot hslot (fun _ => rfl) nofun
  | cons value values =>
    refine Node.field?_of_slot hslot nofun ?_
    rintro written ⟨⟩
    rw [Node.field?] at hread
    cases hget : Fields.get? name fields with
    | none =>
      rw [hget] at hread
      cases hread
    | some node =>
      rw [hget] at hread
      exact hlawful node _ hread hback

end

end PodCosts
