import PodCosts.Proofs.Records.Codec

/-!
# Pods come back

Pods, the pods they talk to and the services that select them come back from their own documents,
alone and in lists.
-/

namespace PodCosts

/-! ## Fields that may be left out -/

/-- A string is written by its slot. -/
theorem textField_eq (name text : String) :
    textField name text = Fields.present [(name, Json.textSlot text)] := by
  unfold textField Json.textSlot
  split_ifs <;> rfl

/-- What may be left out is written by its slot. -/
theorem optionalField_eq {α : Type} (name : String) (write : α → Json) (value? : Option α) :
    optionalField name write value? = Fields.present [(name, value?.map write)] := by
  cases value? <;> rfl

/-- A list is written by its slot. -/
theorem listField_eq {α : Type} (name : String) (write : α → Json) (items : List α) :
    listField name write items = Fields.present [(name, Json.listSlot write items)] := by
  unfold listField Json.listSlot
  split_ifs <;> rfl

/-- An instant whose text is read as itself comes back from its document. -/
theorem Node.time?_toNode {moment : Instant} (h : moment.ReadsBack) :
    Node.time? (Json.time moment).toNode = some moment := by
  have htext : (Json.time moment).toNode.text? = some (Timestamp.text moment) := rfl
  rw [Node.time?, htext, Option.bind_eq_bind, Option.bind_some, h]

namespace Interaction

/-- How interactions are read and written. -/
def codec : Codec Interaction where
  read := ofNode?
  write := toJson
  numbers interaction := [interaction.count]
  times _ := []
  unsigned := id

/-- An interaction is read from the fields of its record. -/
theorem ofNode?_of_fields? {node : Node} {known : List (String × Node)}
    {interaction : Interaction} (hknown : Node.fields? ["name", "count"] node = some known)
    (hname : Node.field? known "name" "" Node.text? = some interaction.name)
    (hcount : Node.field? known "count" 0 Node.float? = some interaction.count) (depth : Nat) :
    ofNode? (depth + 1) node = some interaction := by
  rw [ofNode?]
  refine (Node.record?_of_fields? hknown _ depth).trans ?_
  rw [hname, hcount]
  rfl

/-- An interaction that is accepted comes back from its document. -/
theorem lawfulAt (depth : Nat) : codec.LawfulAt depth := by
  intro node interaction hread hback
  obtain ⟨depth, _, rfl, -⟩ := Node.exists_of_record? hread
  obtain ⟨known, hknown, hslots⟩ := Node.fields?_present
    [("name", some (.string interaction.name)), ("count", some (.float interaction.count))]
    ["name", "count"] rfl (by decide)
  simp only [List.forall_mem_cons] at hslots
  have hname : Node.field? known "name" "" Node.text? = some interaction.name :=
    Node.field?_written rfl hslots.1
  have hcount : Node.field? known "count" 0 Node.float? = some interaction.count :=
    Node.field?_written (hback.1 interaction.count List.mem_cons_self).float? hslots.2.1
  exact ofNode?_of_fields? hknown hname hcount depth

/-- An interaction is written with a finite number. -/
theorem writesFinite : codec.WritesFinite := fun interaction hback =>
  ⟨trivial, (hback.1 interaction.count List.mem_cons_self).finite, trivial⟩

end Interaction

namespace ServiceRef

/-- How services are read and written. -/
def codec : Codec ServiceRef where
  read := ofNode?
  write := toJson
  numbers _ := []
  times _ := []
  unsigned := id

/-- A service is read from the one field of its record. -/
theorem ofNode?_of_fields? {node : Node} {known : List (String × Node)} {service : ServiceRef}
    (hknown : Node.fields? ["name"] node = some known)
    (hname : Node.field? known "name" "" Node.text? = some service.name) (depth : Nat) :
    ofNode? (depth + 1) node = some service := by
  rw [ofNode?]
  refine (Node.record?_of_fields? hknown _ depth).trans ?_
  rw [hname]
  rfl

/-- A service that is accepted comes back from its document. -/
theorem lawfulAt (depth : Nat) : codec.LawfulAt depth := by
  intro node service hread _
  obtain ⟨depth, _, rfl, -⟩ := Node.exists_of_record? hread
  obtain ⟨known, hknown, hslots⟩ := Node.fields?_present
    [("name", some (.string service.name))] ["name"] rfl (by decide)
  simp only [List.forall_mem_cons] at hslots
  have hname : Node.field? known "name" "" Node.text? = some service.name :=
    Node.field?_written rfl hslots.1
  exact ofNode?_of_fields? hknown hname depth

/-- There are no numbers in a service. -/
theorem writesFinite : codec.WritesFinite := fun _ _ => ⟨trivial, trivial⟩

end ServiceRef

namespace Pod

/-- The fields of the document of a pod, and which of them are left out. -/
def slots (pod : Pod) : List (String × Option Json) :=
  [("uid", Json.textSlot pod.uid), ("name", some (.string pod.name)),
    ("startTime", pod.startTime.map Json.time), ("endTime", pod.endTime.map Json.time),
    ("cpuPrice", pod.cpuPrice.map Json.float), ("memoryPrice", pod.memoryPrice.map Json.float),
    ("pod", Json.listSlot Interaction.toJson pod.interactions),
    ("cid", Json.listSlot ServiceRef.toJson pod.services)]

/-- A pod is written by its slots. -/
theorem toJson_eq (pod : Pod) : pod.toJson = .object (Fields.present pod.slots) := by
  have hname : [("name", Json.string pod.name)] =
      Fields.present [("name", some (.string pod.name))] := rfl
  rw [toJson, textField_eq, hname, optionalField_eq, optionalField_eq, optionalField_eq,
    optionalField_eq, listField_eq, listField_eq]
  simp only [← Fields.present_append]
  rfl

/-- How pods are read and written. -/
def codec : Codec Pod where
  read := ofNode?
  write := toJson
  numbers pod :=
    pod.cpuPrice.toList ++ pod.memoryPrice.toList ++ pod.interactions.map Interaction.count
  times pod := pod.startTime.toList ++ pod.endTime.toList
  unsigned := id

/-- The texts of all numbers and times of a pod are read as they were if those of each field are. -/
theorem readsBack_iff {pod : Pod} : codec.ReadsBack pod ↔
    ((∀ x ∈ pod.cpuPrice, Number.ReadsBack x) ∧ (∀ x ∈ pod.memoryPrice, Number.ReadsBack x) ∧
      ∀ interaction ∈ pod.interactions, Number.ReadsBack interaction.count) ∧
      (∀ moment ∈ pod.startTime, moment.ReadsBack) ∧ ∀ moment ∈ pod.endTime, moment.ReadsBack := by
  simp only [Codec.ReadsBack, codec, List.forall_mem_append, Option.mem_toList, Option.mem_def,
    List.forall_mem_map, and_assoc]

/-- The texts of the interactions of a pod are read as they were if those of the pod are. -/
theorem readsBack_interactions {pod : Pod} (hback : codec.ReadsBack pod) :
    Interaction.codec.list.ReadsBack pod.interactions := by
  refine ⟨?_, fun _ hmoment => ?_⟩
  · intro x hx
    obtain ⟨interaction, hinteraction, hx⟩ := List.mem_flatMap.mp hx
    rw [List.mem_singleton.mp hx]
    exact (readsBack_iff.mp hback).1.2.2 interaction hinteraction
  · obtain ⟨_, -, hmoment⟩ := List.mem_flatMap.mp hmoment
    cases hmoment

/-- There is nothing in services that could be read differently. -/
theorem readsBack_services (services : List ServiceRef) :
    ServiceRef.codec.list.ReadsBack services := by
  refine ⟨fun _ hx => ?_, fun _ hmoment => ?_⟩
  · obtain ⟨_, -, hx⟩ := List.mem_flatMap.mp hx
    cases hx
  · obtain ⟨_, -, hmoment⟩ := List.mem_flatMap.mp hmoment
    cases hmoment

/-- The lists of an accepted pod were accepted, as far as they were given. -/
theorem exists_of_ofNode? {depth : Nat} {node : Node} {pod : Pod}
    (h : ofNode? depth node = some pod) : ∃ inner fields, depth = inner + 1 ∧
      Node.field? fields "pod" [] (Node.list? Interaction.ofNode? inner) = some pod.interactions ∧
      Node.field? fields "cid" [] (Node.list? ServiceRef.ofNode? inner) = some pod.services := by
  obtain ⟨inner, fields, rfl, hfields⟩ := Node.exists_of_record? h
  simp only [Option.bind_eq_bind, Option.bind_eq_some_iff, Option.some.injEq] at hfields
  obtain ⟨uid, -, name, -, startTime, -, endTime, -, cpuPrice, -, memoryPrice, -, interactions,
    hinteractions, services, hservices, rfl⟩ := hfields
  exact ⟨inner, fields, rfl, hinteractions, hservices⟩

/-- A pod is read from the fields of its record. -/
theorem ofNode?_of_fields? {depth : Nat} {node : Node} {known : List (String × Node)} {pod : Pod}
    (hknown : Node.fields? fieldNames node = some known)
    (huid : Node.field? known "uid" "" Node.text? = some pod.uid)
    (hname : Node.field? known "name" "" Node.text? = some pod.name)
    (hstartTime : Node.field? known "startTime" none (Node.optional? Node.time?) =
      some pod.startTime)
    (hendTime : Node.field? known "endTime" none (Node.optional? Node.time?) = some pod.endTime)
    (hcpuPrice : Node.field? known "cpuPrice" none (Node.optional? Node.float?) =
      some pod.cpuPrice)
    (hmemoryPrice : Node.field? known "memoryPrice" none (Node.optional? Node.float?) =
      some pod.memoryPrice)
    (hpod : Node.field? known "pod" [] (Node.list? Interaction.ofNode? depth) =
      some pod.interactions)
    (hcid : Node.field? known "cid" [] (Node.list? ServiceRef.ofNode? depth) =
      some pod.services) : ofNode? (depth + 1) node = some pod := by
  rw [ofNode?]
  refine (Node.record?_of_fields? hknown _ depth).trans ?_
  rw [huid, hname, hstartTime, hendTime, hcpuPrice, hmemoryPrice, hpod, hcid]
  rfl

/-- A pod that is accepted comes back from its document. -/
theorem lawfulAt (depth : Nat) : codec.LawfulAt depth := by
  intro node pod hread hback
  obtain ⟨⟨hcpu, hmemory, -⟩, hstart, hend⟩ := readsBack_iff.mp hback
  obtain ⟨depth, fields, rfl, hinteractions, hservices⟩ := exists_of_ofNode? hread
  obtain ⟨known, hknown, hslots⟩ := Node.fields?_present pod.slots fieldNames rfl (by decide)
  simp only [slots, List.forall_mem_cons] at hslots
  obtain ⟨huid, hname, hstartTime, hendTime, hcpuPrice, hmemoryPrice, hpod, hcid, -⟩ := hslots
  have hpodRead : Node.field? known "pod" [] (Node.list? Interaction.ofNode? depth) =
      some (pod.interactions.map id) :=
    Codec.field?_listSlot (Codec.list_lawfulAt fun _ _ => Interaction.lawfulAt _)
      (readsBack_interactions hback) hinteractions hpod
  have hcidRead : Node.field? known "cid" [] (Node.list? ServiceRef.ofNode? depth) =
      some (pod.services.map id) :=
    Codec.field?_listSlot (Codec.list_lawfulAt fun _ _ => ServiceRef.lawfulAt _)
      (readsBack_services pod.services) hservices hcid
  rw [List.map_id] at hpodRead hcidRead
  change ofNode? (depth + 1) pod.toJson.toNode = some pod
  rw [toJson_eq]
  exact ofNode?_of_fields? hknown (Node.field?_textSlot huid) (Node.field?_written rfl hname)
    (Node.field?_optional rfl (fun moment h => Node.time?_toNode (hstart moment h)) hstartTime)
    (Node.field?_optional rfl (fun moment h => Node.time?_toNode (hend moment h)) hendTime)
    (Node.field?_optional rfl (fun x hx => (hcpu x hx).float?) hcpuPrice)
    (Node.field?_optional rfl (fun x hx => (hmemory x hx).float?) hmemoryPrice) hpodRead hcidRead

/-- Pods are written with finite numbers. -/
theorem writesFinite : codec.WritesFinite := by
  intro pod hback
  obtain ⟨⟨hcpu, hmemory, -⟩, -, -⟩ := readsBack_iff.mp hback
  have hpod := Codec.finite_listSlot Interaction.writesFinite (readsBack_interactions hback)
  have hcid := Codec.finite_listSlot ServiceRef.writesFinite (readsBack_services pod.services)
  change pod.toJson.Finite
  rw [toJson_eq]
  refine Json.finite_present ?_
  simp only [slots, List.forall_mem_cons]
  refine ⟨Json.finite_textSlot, ?_, Json.finite_optional fun _ _ => trivial,
    Json.finite_optional fun _ _ => trivial, Json.finite_optional fun x hx => (hcpu x hx).finite,
    Json.finite_optional fun x hx => (hmemory x hx).finite, hpod, hcid, nofun⟩
  rintro written ⟨⟩
  trivial

end Pod

end PodCosts
