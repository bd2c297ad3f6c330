import PodCosts.Hierarchy
import PodCosts.Proofs.Records.Pods

/-!
# Hierarchies come back

A node of a hierarchy leaves out every number that is zero, and its children hold nodes again. What
was accepted at some depth is written no deeper, so it is accepted there once more, with zero in
place of minus zero.
-/

namespace PodCosts

/-- A double, with zero in place of minus zero. -/
def Number.unsigned (x : Float) : Float :=
  if x == 0 then 0 else x

namespace Hierarchy

mutual

/-- The numbers of a node and of its children. -/
def numbers : Hierarchy → List Float
  | .mk _ _ children cpu memory storage cpuCost memoryCost storageCost =>
    numbersAll children ++ [cpu, memory, storage, cpuCost, memoryCost, storageCost]

/-- The numbers of nodes. -/
def numbersAll : List Hierarchy → List Float
  | [] => []
  | node :: nodes => node.numbers ++ numbersAll nodes

end

mutual

/-- A node with zero in place of every minus zero. -/
def unsigned : Hierarchy → Hierarchy
  | .mk name type children cpu memory storage cpuCost memoryCost storageCost =>
    .mk name type (unsignedAll children) (Number.unsigned cpu) (Number.unsigned memory)
      (Number.unsigned storage) (Number.unsigned cpuCost) (Number.unsigned memoryCost)
      (Number.unsigned storageCost)

/-- Nodes with zero in place of every minus zero. -/
def unsignedAll : List Hierarchy → List Hierarchy
  | [] => []
  | node :: nodes => node.unsigned :: unsignedAll nodes

end

/-- The numbers of nodes are those of each of them. -/
theorem numbersAll_eq_flatMap (nodes : List Hierarchy) :
    numbersAll nodes = nodes.flatMap numbers := by
  induction nodes with
  | nil => rfl
  | cons node nodes ih => rw [numbersAll, ih, List.flatMap_cons]

/-- Nodes have zero in place of minus zero where each of them has. -/
theorem unsignedAll_eq_map (nodes : List Hierarchy) : unsignedAll nodes = nodes.map unsigned := by
  induction nodes with
  | nil => rfl
  | cons node nodes ih => rw [unsignedAll, ih, List.map_cons]

/-- The documents of nodes are those of each of them. -/
theorem toJsonAll_eq_map (nodes : List Hierarchy) : toJsonAll nodes = nodes.map toJson := by
  induction nodes with
  | nil => rfl
  | cons node nodes ih => rw [toJsonAll, ih, List.map_cons]

/-- Reads a node from the fields of its record. -/
def ofFields? (depth : Nat) (fields : List (String × Node)) : Option Hierarchy := do
  let name ← Node.field? fields "name" "" Node.text?
  let type ← Node.field? fields "type" "" Node.text?
  let children ← Node.field? fields "children" [] (Node.list? ofNode? depth)
  let cpu ← Node.field? fields "cpu" 0 Node.float?
  let memory ← Node.field? fields "memory" 0 Node.float?
  let storage ← Node.field? fields "storage" 0 Node.float?
  let cpuCost ← Node.field? fields "cpuCost" 0 Node.float?
  let memoryCost ← Node.field? fields "memoryCost" 0 Node.float?
  let storageCost ← Node.field? fields "storageCost" 0 Node.float?
  some (.mk name type children cpu memory storage cpuCost memoryCost storageCost)

/-- A node is read like any other record. -/
theorem ofNode?_eq_record? (depth : Nat) (node : Node) :
    ofNode? depth node = Node.record? fieldNames ofFields? depth node := by
  cases depth with
  | zero => rfl
  | succ depth =>
    -- The recursion is under a binder, so it has no equation of its own to rewrite with.
    delta ofNode? ofFields?
    dsimp only
    rw [Node.record?]
    refine congrArg (Option.bind _) (funext fun fields => ?_)
    refine congrArg (Option.bind _) (funext fun name => ?_)
    refine congrArg (Option.bind _) (funext fun type => ?_)
    refine congrArg (fun children? => Option.bind children? _) ?_
    refine congrArg (Node.field? fields "children" []) ?_
    funext list
    cases depth with
    | zero => cases list <;> rfl
    | succ inner => cases list <;> rfl

/-! ## Written nodes -/

/-- A number that is left out where it is zero. -/
def numberSlot (x : Float) : Option Json :=
  if x == 0 then none else some (.float x)

/-- A number is written by its slot. -/
theorem numberField_eq (name : String) (x : Float) :
    numberField name x = Fields.present [(name, numberSlot x)] := by
  unfold numberField numberSlot
  split_ifs <;> rfl

/-- A number comes back, and a zero that was left out loses its sign. -/
theorem field?_numberSlot {known : List (String × Node)} {name : String} {x : Float}
    (hx : Number.ReadsBack x)
    (hslot : Fields.get? name known = (numberSlot x).map Json.toNode) :
    Node.field? known name 0 Node.float? = some (Number.unsigned x) := by
  by_cases hzero : x == 0
  · rw [numberSlot, if_pos hzero] at hslot
    rw [Number.unsigned, if_pos hzero]
    exact Node.field?_of_slot hslot (fun _ => rfl) nofun
  · rw [numberSlot, if_neg hzero] at hslot
    rw [Number.unsigned, if_neg hzero]
    exact Node.field?_written hx.float? hslot

/-- A number whose text is read as itself is written as a finite number. -/
theorem finite_numberSlot {x : Float} (hx : Number.ReadsBack x) :
    ∀ written ∈ numberSlot x, written.Finite := by
  unfold numberSlot
  split_ifs
  · exact nofun
  · rintro written ⟨⟩
    exact hx.finite

/-- The fields of the document of a node, and which of them are left out. -/
def slots : Hierarchy → List (String × Option Json)
  | .mk name type children cpu memory storage cpuCost memoryCost storageCost =>
    [("name", Json.textSlot name), ("type", Json.textSlot type),
      ("children", Json.listSlot toJson children), ("cpu", numberSlot cpu),
      ("memory", numberSlot memory), ("storage", numberSlot storage),
      ("cpuCost", numberSlot cpuCost), ("memoryCost", numberSlot memoryCost),
      ("storageCost", numberSlot storageCost)]

/-- A node is written by its slots. -/
theorem toJson_eq (node : Hierarchy) : node.toJson = .object (Fields.present node.slots) := by
  obtain ⟨name, type, children, cpu, memory, storage, cpuCost, memoryCost, storageCost⟩ := node
  have hchildren : (if children.isEmpty then [] else
      [("children", Json.array (toJsonAll children))]) =
        Fields.present [("children", Json.listSlot toJson children)] := by
    rw [toJsonAll_eq_map, Json.listSlot]
    split_ifs <;> rfl
  rw [toJson, textField_eq, textField_eq, hchildren]
  simp only [numberField_eq, ← Fields.present_append]
  rfl

/-- How nodes of hierarchies are read and written. -/
def codec : Codec Hierarchy where
  read := ofNode?
  write := toJson
  numbers := numbers
  times _ := []
  unsigned := unsigned

/-- The texts of the numbers of a node and of its children are read as they were if those of the
whole tree are. -/
theorem readsBack_children {name type : String} {children : List Hierarchy}
    {cpu memory storage cpuCost memoryCost storageCost : Float}
    (hback : codec.ReadsBack
      (.mk name type children cpu memory storage cpuCost memoryCost storageCost)) :
    codec.list.ReadsBack children ∧ ∀ x ∈ [cpu, memory, storage, cpuCost, memoryCost, storageCost],
      Number.ReadsBack x := by
  have hnumbers := hback.1
  change ∀ x ∈ numbersAll children ++ _, Number.ReadsBack x at hnumbers
  rw [numbersAll_eq_flatMap] at hnumbers
  obtain ⟨hchildren, hown⟩ := List.forall_mem_append.mp hnumbers
  refine ⟨⟨hchildren, fun moment hmoment => ?_⟩, hown⟩
  obtain ⟨_, -, hmoment⟩ := List.mem_flatMap.mp hmoment
  cases hmoment

/-- The children of an accepted node were accepted one level deeper, as far as they were given. -/
theorem exists_of_ofNode? {depth : Nat} {node : Node} {hierarchy : Hierarchy}
    (h : ofNode? depth node = some hierarchy) : ∃ inner fields, depth = inner + 1 ∧
      Node.field? fields "children" [] (Node.list? ofNode? inner) = some hierarchy.children := by
  rw [ofNode?_eq_record?] at h
  obtain ⟨inner, fields, rfl, hfields⟩ := Node.exists_of_record? h
  simp only [ofFields?, Option.bind_eq_bind, Option.bind_eq_some_iff, Option.some.injEq] at hfields
  obtain ⟨name, -, type, -, children, hchildren, cpu, -, memory, -, storage, -, cpuCost, -,
    memoryCost, -, storageCost, -, rfl⟩ := hfields
  exact ⟨inner, fields, rfl, hchildren⟩

/-- Nodes come back at the depth at which they were accepted: their children, which lie deeper, do
so by induction. -/
theorem lawfulAt (depth : Nat) : codec.LawfulAt depth := by
  induction depth using Nat.strongRecOn with
  | ind depth ih =>
    intro node hierarchy hread hback
    obtain ⟨depth, fields, rfl, hchildren⟩ := exists_of_ofNode? hread
    obtain ⟨name, type, children, cpu, memory, storage, cpuCost, memoryCost, storageCost⟩ :=
      hierarchy
    obtain ⟨hbackChildren, hbackNumbers⟩ := readsBack_children hback
    simp only [List.forall_mem_cons] at hbackNumbers
    obtain ⟨hcpu, hmemory, hstorage, hcpuCost, hmemoryCost, hstorageCost, -⟩ := hbackNumbers
    obtain ⟨known, hknown, hslots⟩ := Node.fields?_present
      (slots (.mk name type children cpu memory storage cpuCost memoryCost storageCost)) fieldNames
      rfl (by decide)
    simp only [slots, List.forall_mem_cons] at hslots
    obtain ⟨hname, htype, hlist, hcpuSlot, hmemorySlot, hstorageSlot, hcpuCostSlot,
      hmemoryCostSlot, hstorageCostSlot, -⟩ := hslots
    have hlist : Node.field? known "children" [] (Node.list? ofNode? depth) =
        some (children.map unsigned) :=
      Codec.field?_listSlot (Codec.list_lawfulAt fun inner hinner => ih inner (by omega))
        hbackChildren hchildren hlist
    change ofNode? (depth + 1) (toJson _).toNode = some _
    rw [ofNode?_eq_record?, toJson_eq]
    refine (Node.record?_of_fields? hknown _ depth).trans ?_
    rw [ofFields?, Node.field?_textSlot hname, Node.field?_textSlot htype, hlist,
      field?_numberSlot hcpu hcpuSlot, field?_numberSlot hmemory hmemorySlot,
      field?_numberSlot hstorage hstorageSlot, field?_numberSlot hcpuCost hcpuCostSlot,
      field?_numberSlot hmemoryCost hmemoryCostSlot,
      field?_numberSlot hstorageCost hstorageCostSlot, ← unsignedAll_eq_map]
    rfl

mutual

/-- A tree is written with finite numbers if the texts of its numbers are read as they were. -/
theorem finite_toJson (node : Hierarchy) (h : ∀ x ∈ node.numbers, Number.ReadsBack x) :
    node.toJson.Finite := by
  match node with
  | .mk name type children cpu memory storage cpuCost memoryCost storageCost =>
    obtain ⟨hchildren, hown⟩ := List.forall_mem_append.mp h
    have hitems := finite_toJsonAll children hchildren
    rw [toJsonAll_eq_map] at hitems
    have hlist : ∀ written ∈ Json.listSlot toJson children, written.Finite := by
      unfold Json.listSlot
      split_ifs
      · exact nofun
      · rintro written ⟨⟩
        exact Json.itemsFinite_iff.mpr hitems
    simp only [List.forall_mem_cons] at hown
    obtain ⟨hcpu, hmemory, hstorage, hcpuCost, hmemoryCost, hstorageCost, -⟩ := hown
    rw [toJson_eq]
    refine Json.finite_present ?_
    simp only [slots, List.forall_mem_cons]
    exact ⟨Json.finite_textSlot, Json.finite_textSlot, hlist, finite_numberSlot hcpu,
      finite_numberSlot hmemory, finite_numberSlot hstorage, finite_numberSlot hcpuCost,
      finite_numberSlot hmemoryCost, finite_numberSlot hstorageCost, nofun⟩

/-- Trees are written with finite numbers if the texts of their numbers are read as they were. -/
theorem finite_toJsonAll (nodes : List Hierarchy)
    (h : ∀ x ∈ numbersAll nodes, Number.ReadsBack x) :
    ∀ item ∈ toJsonAll nodes, item.Finite := by
  match nodes with
  | [] => exact nofun
  | node :: nodes =>
    obtain ⟨hnode, hnodes⟩ := List.forall_mem_append.mp h
    exact List.forall_mem_cons.mpr ⟨finite_toJson node hnode, finite_toJsonAll nodes hnodes⟩

end

/-- Nodes of hierarchies are written with finite numbers. -/
theorem writesFinite : codec.WritesFinite := fun node hback =>
  finite_toJson node hback.1

end Hierarchy

namespace HierarchyView

/-- How views of hierarchies are read and written. -/
def codec : Codec HierarchyView where
  read := ofNode?
  write := toJson
  numbers view := view.data.numbers
  times _ := []
  unsigned view := ⟨view.data.unsigned⟩

/-- A view that is accepted comes back from its document. -/
theorem lawfulAt (depth : Nat) : codec.LawfulAt depth := by
  intro node view hread hback
  obtain ⟨depth, fields, rfl, hfields⟩ := Node.exists_of_record? hread
  simp only [Option.bind_eq_bind, Option.bind_eq_some_iff, Option.some.injEq] at hfields
  obtain ⟨inner, -, data, hdata, rfl⟩ := hfields
  have hagain : Hierarchy.ofNode? depth data.toJson.toNode = some data.unsigned :=
    Hierarchy.lawfulAt depth inner data hdata hback
  obtain ⟨known, hknown, hslots⟩ := Node.fields?_present [("data", some data.toJson)] ["data"] rfl
    (by decide)
  have hslot : Fields.get? "data" known = some data.toJson.toNode := by simpa using hslots
  change ofNode? (depth + 1) _ = some _
  rw [ofNode?]
  refine (Node.record?_of_fields? hknown _ depth).trans ?_
  rw [hslot, Option.bind_eq_bind, Option.bind_some, hagain]
  rfl

/-- Views of hierarchies are written with finite numbers. -/
theorem writesFinite : codec.WritesFinite := fun view hback =>
  ⟨Hierarchy.finite_toJson view.data hback.1, trivial⟩

end HierarchyView

/-- Pods, lists of pods, interactions, services, hierarchies and their views survive being written
and read again, whatever the bytes from which they were accepted. -/
theorem Codec.records_survive :
    Pod.codec.Survives ∧ Pod.codec.list.Survives ∧ Interaction.codec.Survives ∧
      ServiceRef.codec.Survives ∧ Hierarchy.codec.Survives ∧ HierarchyView.codec.Survives :=
  ⟨survives_of_lawfulAt (Pod.lawfulAt _) Pod.writesFinite,
    survives_of_lawfulAt (list_lawfulAt fun _ _ => Pod.lawfulAt _)
      (list_writesFinite Pod.writesFinite),
    survives_of_lawfulAt (Interaction.lawfulAt _) Interaction.writesFinite,
    survives_of_lawfulAt (ServiceRef.lawfulAt _) ServiceRef.writesFinite,
    survives_of_lawfulAt (Hierarchy.lawfulAt _) Hierarchy.writesFinite,
    survives_of_lawfulAt (HierarchyView.lawfulAt _) HierarchyView.writesFinite⟩

deriving instance DecidableEq for Interaction

deriving instance DecidableEq for Pod

/-- A pod with blank and null fields that talks to an array-shaped interaction, and a view of an
array-shaped node with two children, one of which costs minus zero. -/
theorem Codec.records_survive_sparse :
    let podBytes := Text.encode <|
      "\x7b\"uid\":\"\",\"pod\":[[\"db\",3],\x7b\"count\":-0.0,\"x\":[null]\x7d]," ++
        "\"endTime\":null,\"startTime\":\"2026-10-19T09:00:00+02:00\"\x7d"
    let pod : Pod := ⟨"", "", some ⟨20745, 25200, 0, by decide, by decide, by decide⟩, none, none,
      none, [⟨"db", 3⟩, ⟨"", -0.0⟩], []⟩
    let viewBytes := Text.encode
      "\x7b\"data\":[\"web\",\"\",[\x7b\"cpu\":-0.0,\"x\":[null]\x7d,[\"init\"]],1.5]\x7d"
    let viewText := "\x7b\"data\":\x7b\"name\":\"web\"," ++
      "\"children\":[\x7b\x7d,\x7b\"name\":\"init\"\x7d],\"cpu\":1.5\x7d\x7d"
    Node.decode? Pod.ofNode? podBytes = some pod ∧ Pod.codec.ReadsBack pod ∧
      Node.decode? Pod.ofNode? (Text.encode pod.toJson.compact) = some pod ∧
      ∃ view, Node.decode? HierarchyView.ofNode? viewBytes = some view ∧
        HierarchyView.codec.ReadsBack view ∧ view.toJson.compact = viewText ∧
        Node.decode? HierarchyView.ofNode? (Text.encode viewText) = some ⟨view.data.unsigned⟩ := by
  intro podBytes pod viewBytes viewText
  obtain ⟨hpods, -, -, -, -, hviews⟩ := records_survive
  have hpod : Node.decode? Pod.ofNode? podBytes = some pod := by decide +kernel
  have hpodBack : Pod.codec.ReadsBack pod := by decide +kernel
  have hview : (Node.decode? HierarchyView.ofNode? viewBytes).any (fun view =>
      decide (HierarchyView.codec.ReadsBack view ∧ view.toJson.compact = viewText)) = true := by
    decide +kernel
  obtain ⟨view, hview, hwritten⟩ := (Option.any_eq_true _ _).mp hview
  obtain ⟨hviewBack, htext⟩ := of_decide_eq_true hwritten
  have hagain := hviews viewBytes view hview hviewBack
  exact ⟨hpod, hpodBack, hpods podBytes pod hpod hpodBack, view, hview, hviewBack, htext,
    htext ▸ hagain⟩

end PodCosts
