import PodCosts.Proofs.Graph.Interactions
import Mathlib.Data.List.Sort

/-!
# Pods that talk to others and pods that do not

The request for the interactions of all pods asks for one of two kinds of pods. Where every pod has
a name no pod is left out of its answer, so the two answers together have one item for every pod.
Who talks to a pod is listed in its item whichever answer that is in.
-/

namespace PodCosts

namespace Graph

/-- The pods, ascending. -/
def pods (graph : Graph) : List (Uid × Vertex) :=
  graph.nodes.filter fun node => node.2.has Kind.pod.marker

/-- Every pod has a name. -/
def PodsNamed (graph : Graph) : Prop :=
  ∀ pod ∈ graph.pods, pod.2.isNamed = true

instance (graph : Graph) : Decidable graph.PodsNamed :=
  inferInstanceAs (Decidable (∀ pod ∈ graph.pods, pod.2.isNamed = true))

/-- Whether an edge between pods leads from a node to a named node. -/
def Talks (graph : Graph) (node : Uid × Vertex) : Prop :=
  ∃ target ∈ node.2.targets Predicate.podEdge, ∃ vertex ∈ graph.vertex? target, vertex.isNamed

/-- The item of a pod in an answer about interactions. It names the pods that are linked to this
one, ascending and each once. -/
structure Interacting (graph : Graph) (pod : Uid × Vertex) (fields : List (String × Json)) :
    Prop where
  name : ∃ name, pod.2.scalar? Predicate.name = some name ∧
    Fields.get? Predicate.name fields = some name
  inbound : ∃ sources names, sources.Pairwise (fun first second => first.1 < second.1) ∧
    (∀ source, source ∈ sources ↔
      source ∈ graph.pods ∧ pod.1 ∈ source.2.targets Predicate.podEdge) ∧
    List.Forall₂ (fun source name => source.2.scalar? Predicate.name = some name) sources names ∧
    Fields.get? "inbound" fields = Selection.row (names.map fun name => [(Predicate.name, name)])
  outbound : (Fields.get? "outbound" fields).isSome ↔ graph.Talks pod

/-- The document that answers a request about interactions with items for some pods. -/
def interactionDocument (items : List ((Uid × Vertex) × List (String × Json))) : Json :=
  .object [(Request.podsBlock, .array (items.map fun item => .object item.2))]

/-- Items for all pods in two lists. Merged by the numbers of the pods they have one item for every
pod, and each pod is in exactly one of them. The first one has no pod that talks to another. -/
structure Partitioned (graph : Graph)
    (orphans others : List ((Uid × Vertex) × List (String × Json))) : Prop where
  merged : (orphans.merge others fun first second => first.1.1 ≤ second.1.1).map Prod.fst =
    graph.pods
  apart : ∀ pod ∈ graph.pods, pod ∈ orphans.map Prod.fst ↔ pod ∉ others.map Prod.fst
  interacting : ∀ item ∈ orphans ++ others, graph.Interacting item.1 item.2
  silent : ∀ item ∈ orphans, Fields.get? "outbound" item.2 = none
  talking : ∀ pod ∈ graph.pods, graph.Talks pod → pod ∈ others.map Prod.fst

section

variable {graph : Graph}

/-- The pods are the nodes with the mark of a pod. -/
theorem mem_pods {pod : Uid × Vertex} :
    pod ∈ graph.pods ↔ pod ∈ graph.nodes ∧ pod.2.has Kind.pod.marker = true :=
  List.mem_filter

/-- The numbers of the pods ascend. -/
theorem pairwise_pods (graph : Graph) :
    graph.pods.Pairwise fun first second => first.1 < second.1 :=
  graph.pairwise_nodes.sublist List.filter_sublist

/-! ## One item -/

/-- Named nodes are answered with their names. -/
theorem exists_names {found : List (Uid × Vertex)} (hfound : ∀ node ∈ found, node.2.isNamed) :
    ∃ names, List.Forall₂ (fun node name => node.2.scalar? Predicate.name = some name)
        found names ∧
      found.map (fun node => node.2.nameFields) =
        names.map fun name => [(Predicate.name, name)] := by
  induction found with
  | nil => exact ⟨[], .nil, rfl⟩
  | cons node found ih =>
    obtain ⟨hnode, hrest⟩ := List.forall_mem_cons.mp hfound
    obtain ⟨name, hname⟩ := Option.isSome_iff_exists.mp hnode
    obtain ⟨names, hall, hnames⟩ := ih hrest
    have hfields : node.2.nameFields = [(Predicate.name, name)] := by
      rw [Vertex.nameFields, hname]
      rfl
    refine ⟨name :: names, .cons hname hall, ?_⟩
    rw [List.map_cons, List.map_cons, hfields, hnames]

/-- A row of names is answered exactly where there are nodes to name. -/
theorem isSome_nameRow {found : List (Uid × Vertex)} :
    (nameRow found).isSome ↔ ∃ node, node ∈ found := by
  cases found <;> simp [nameRow, Selection.row]

/-- The named pods that point at a node are the pods that are linked to it. -/
theorem PodsNamed.mem_inbound (hnamed : graph.PodsNamed) {uid : Uid} {source : Uid × Vertex} :
    source ∈ graph.inbound uid ↔
      source ∈ graph.pods ∧ uid ∈ source.2.targets Predicate.podEdge := by
  rw [inbound, pointingAt, List.mem_filter, List.mem_filter, mem_pods, Bool.and_eq_true,
    List.contains_iff_mem]
  constructor
  · rintro ⟨⟨hnode, htarget, hpod⟩, -⟩
    exact ⟨⟨hnode, hpod⟩, htarget⟩
  · rintro ⟨⟨hnode, hpod⟩, htarget⟩
    exact ⟨⟨hnode, htarget, hpod⟩, hnamed source (mem_pods.mpr ⟨hnode, hpod⟩)⟩

/-- A node has pods it talks to exactly where an edge leads to a named one. -/
theorem exists_mem_outbound {node : Uid × Vertex} (hnode : node ∈ graph.nodes) :
    (∃ target, target ∈ graph.outbound node.1) ↔ graph.Talks node := by
  simp only [outbound, adjacent_forward hnode, List.mem_filter, mem_located]
  constructor
  · rintro ⟨target, ⟨htarget, hvertex⟩, hnamed⟩
    exact ⟨target.1, htarget, target.2, hvertex, hnamed⟩
  · rintro ⟨target, htarget, vertex, hvertex, hnamed⟩
    exact ⟨(target, vertex), ⟨htarget, hvertex⟩, hnamed⟩

/-- The item of a pod has its name and the rows of the pods on either side of it. -/
theorem get?_interactionFields (graph : Graph) (pod : Uid × Vertex) :
    ∀ slot ∈ [("inbound", nameRow (graph.inbound pod.1)),
      (Predicate.name, pod.2.scalar? Predicate.name),
      ("outbound", nameRow (graph.outbound pod.1))],
      Fields.get? slot.1 (graph.interactionFields pod) = slot.2 :=
  Fields.get?_present (show ["inbound", Predicate.name, "outbound"].Nodup by decide)

/-- Whatever answer a pod is in, its item tells whom it talks to and who talks to it. -/
theorem PodsNamed.interacting (hnamed : graph.PodsNamed) {pod : Uid × Vertex}
    (hpod : pod ∈ graph.pods) : graph.Interacting pod (graph.interactionFields pod) := by
  obtain ⟨hin, hname, hout⟩ : _ ∧ _ ∧ _ := by
    simpa using graph.get?_interactionFields pod
  refine ⟨?_, ?_, ?_⟩
  · obtain ⟨name, hvalue⟩ := Option.isSome_iff_exists.mp (hnamed pod hpod)
    exact ⟨name, hvalue, hname.trans hvalue⟩
  · have hsources : ∀ source ∈ graph.inbound pod.1, source.2.isNamed := fun source hsource =>
      hnamed source (hnamed.mem_inbound.mp hsource).1
    obtain ⟨names, hall, hnames⟩ := exists_names hsources
    refine ⟨graph.inbound pod.1, names, ?_, fun _ => hnamed.mem_inbound, hall, ?_⟩
    · exact graph.pairwise_nodes.sublist (List.filter_sublist.trans List.filter_sublist)
    · rw [hin, nameRow, hnames]
  · rw [hout, isSome_nameRow, exists_mem_outbound (mem_pods.mp hpod).1]

/-! ## Both answers -/

/-- Ascending nodes that have been told apart by a test can be merged again. -/
theorem merge_filter {nodes : List (Uid × Vertex)} (test : Uid × Vertex → Bool)
    (hnodes : nodes.Pairwise fun first second => first.1 < second.1) :
    (nodes.filter fun node => !test node).merge (nodes.filter test)
      (fun first second => first.1 ≤ second.1) = nodes := by
  have hascending (kept : Uid × Vertex → Bool) :
      (nodes.filter kept).Pairwise fun first second => decide (first.1 ≤ second.1) = true :=
    (hnodes.sublist List.filter_sublist).imp fun hlt => decide_eq_true (le_of_lt hlt)
  have hmerged := List.pairwise_merge (fun _ _ _ => by simpa using Nat.le_trans)
    (fun first second => by simpa using Nat.le_total first.1 second.1) _ _
    (hascending fun node => !test node) (hascending test)
  have hperm : ((nodes.filter fun node => !test node).merge (nodes.filter test)
      fun first second => first.1 ≤ second.1).Perm nodes :=
    (List.merge_perm_append _).trans
      (List.perm_append_comm.trans (List.filter_append_perm test nodes))
  -- Two nodes of one number would stand in no order.
  have hunique : ∀ first ∈ nodes, ∀ second ∈ nodes, first.1 = second.1 → first = second :=
    List.inj_on_of_nodup_map (List.pairwise_map.mpr (hnodes.imp ne_of_lt))
  refine hperm.eq_of_pairwise (fun first second hfirst hsecond hle hge => ?_) hmerged
    (hnodes.imp fun hlt => decide_eq_true (le_of_lt hlt))
  exact hunique first (hperm.subset hfirst) second hsecond
    (Nat.le_antisymm (of_decide_eq_true hle) (of_decide_eq_true hge))

/-- A pod that talks to another one has an edge. -/
theorem Talks.has {pod : Uid × Vertex} (htalks : graph.Talks pod) :
    pod.2.has Predicate.podEdge = true := by
  obtain ⟨target, htarget, -⟩ := htalks
  have hsome : pod.2.targets Predicate.podEdge ≠ [] := List.ne_nil_of_mem htarget
  simp [Vertex.has, hsome]

/-- The pods without an edge to another node, or those with one. -/
theorem asked_all (graph : Graph) (orphansOnly : Bool) :
    graph.asked .all orphansOnly =
      graph.pods.filter fun pod => pod.2.has Predicate.podEdge ^^ orphansOnly := by
  rw [asked, pods, List.filter_filter]
  cases orphansOnly <;> simp [Request.interactionFilter, Filter.accepts, Bool.and_comm]

/-- The pods that are asked for, each with its item. -/
def interactionItems (graph : Graph) (orphansOnly : Bool) :
    List ((Uid × Vertex) × List (String × Json)) :=
  (graph.asked .all orphansOnly).map fun pod => (pod, graph.interactionFields pod)

/-- The items belong to the pods that are asked for. -/
theorem map_fst_interactionItems (graph : Graph) (orphansOnly : Bool) :
    (graph.interactionItems orphansOnly).map Prod.fst = graph.asked .all orphansOnly := by
  rw [interactionItems, List.map_map]
  exact List.map_id _

/-- Where every pod is named, each item is the item of its pod. -/
theorem PodsNamed.interacting_of_mem (hnamed : graph.PodsNamed) {orphansOnly : Bool}
    {item : (Uid × Vertex) × List (String × Json)}
    (hitem : item ∈ graph.interactionItems orphansOnly) : graph.Interacting item.1 item.2 := by
  obtain ⟨pod, hpod, rfl⟩ := List.mem_map.mp hitem
  rw [asked_all] at hpod
  exact hnamed.interacting (List.mem_filter.mp hpod).1

/-- Where every pod has a name, each pod that is asked for has an item. -/
theorem PodsNamed.evaluate_interactions_all (hnamed : graph.PodsNamed) (orphansOnly : Bool) :
    graph.evaluate (Request.interactions .all orphansOnly) =
      .ok (interactionDocument (graph.interactionItems orphansOnly)) := by
  have hanswered : ∀ fields ∈ (graph.asked .all orphansOnly).map graph.interactionFields,
      (!fields.isEmpty) = true := by
    intro fields hfields
    obtain ⟨pod, hpod, rfl⟩ := List.mem_map.mp hfields
    have hitem := hnamed.interacting_of_mem (List.mem_map_of_mem hpod)
    obtain ⟨name, -, hname⟩ := hitem.name
    cases hempty : graph.interactionFields pod with
    | nil =>
      rw [hempty] at hname
      cases hname
    | cons field rest => rfl
  rw [evaluate_interactions, List.filter_eq_self.mpr hanswered, interactionDocument,
    interactionItems, List.map_map, List.map_map]
  rfl

/-- The pods that are asked for with and without the flag are all pods, and none of them twice. -/
theorem PodsNamed.partitioned (hnamed : graph.PodsNamed) :
    graph.Partitioned (graph.interactionItems true) (graph.interactionItems false) where
  merged := by
    have hmap : ((graph.interactionItems true).merge (graph.interactionItems false)
        fun first second => first.1.1 ≤ second.1.1).map Prod.fst =
        (graph.asked .all true).merge (graph.asked .all false)
          fun first second => first.1 ≤ second.1 := by
      rw [← map_fst_interactionItems, ← map_fst_interactionItems]
      exact List.map_merge fun _ _ _ _ => rfl
    rw [hmap, asked_all, asked_all]
    simp only [Bool.xor_true, Bool.xor_false]
    exact merge_filter _ graph.pairwise_pods
  apart pod hpod := by
    rw [map_fst_interactionItems, map_fst_interactionItems, asked_all, asked_all]
    simp [hpod]
  interacting item hitem :=
    (List.mem_append.mp hitem).elim hnamed.interacting_of_mem hnamed.interacting_of_mem
  silent item hitem := by
    have hquiet : ¬graph.Talks item.1 := by
      intro htalks
      have hasked := List.mem_map_of_mem (f := Prod.fst) hitem
      rw [map_fst_interactionItems, asked_all, List.mem_filter, htalks.has] at hasked
      exact absurd hasked.2 (by decide)
    rw [← (hnamed.interacting_of_mem hitem).outbound] at hquiet
    exact Option.not_isSome_iff_eq_none.mp hquiet
  talking pod hpod htalks := by
    rw [map_fst_interactionItems, asked_all, List.mem_filter, htalks.has]
    exact ⟨hpod, rfl⟩

end

/-- Where every pod has a name, the requests for the interactions of all pods with and without the
flag for orphans are both answered, and their items make up one item for every pod. -/
theorem interactions_partition (graph : Graph) (hnamed : graph.PodsNamed) :
    ∃ orphans others,
      graph.evaluate (Request.interactions .all true) = .ok (interactionDocument orphans) ∧
      graph.evaluate (Request.interactions .all false) = .ok (interactionDocument others) ∧
      graph.Partitioned orphans others :=
  ⟨_, _, hnamed.evaluate_interactions_all true, hnamed.evaluate_interactions_all false,
    hnamed.partitioned⟩

/-- A pod that is linked twice to another one and once to itself, a pod that is linked to nothing,
one that is linked to a number that no node has, and one with a value in place of the edge. A
service is no pod and is not listed. -/
theorem interactions_partition_dangling :
    let pod name := Json.object [("isPod", .bool true), ("name", .string name)]
    let graph := (empty ⟨20745, 43200, 0, by decide, by decide, by decide⟩).after
      [.insert (pod "web"), .insert (pod "db"), .insert (pod "lost"),
        .insert (.object [("isPod", .bool true), ("name", .string "odd"), ("pod", .string "db")]),
        .insert (.object [("isService", .bool true), ("name", .string "front")]),
        .link 1 "pod" 2, .link 1 "pod" 2, .link 1 "pod" 1, .link 3 "pod" 9, .link 5 "pod" 2]
    let row names := Json.array (names.map fun name => .object [("name", .string name)])
    graph.PodsNamed ∧
      graph.evaluate (Request.interactions .all true) = .ok (.object [("pods", .array
        [.object [("inbound", row ["web"]), ("name", .string "db")]])]) ∧
      graph.evaluate (Request.interactions .all false) = .ok (.object [("pods", .array
        [.object [("inbound", row ["web"]), ("name", .string "web"),
          ("outbound", row ["db", "db", "web"])],
        .object [("name", .string "lost")], .object [("name", .string "odd")]])]) ∧
      ∃ orphans others,
        graph.evaluate (Request.interactions .all true) = .ok (interactionDocument orphans) ∧
        graph.evaluate (Request.interactions .all false) = .ok (interactionDocument others) ∧
        graph.Partitioned orphans others := by
  intro pod graph row
  have hnamed : graph.PodsNamed := by decide +kernel
  refine ⟨hnamed, ?_, ?_, interactions_partition graph hnamed⟩
  · rw [hnamed.evaluate_interactions_all]
    rfl
  · rw [hnamed.evaluate_interactions_all]
    rfl

end Graph

end PodCosts
