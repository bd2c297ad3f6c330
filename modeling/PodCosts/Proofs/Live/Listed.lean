import PodCosts.Proofs.Graph.Readings
import PodCosts.Proofs.Graph.Reread
import PodCosts.Proofs.Live.Answered
import PodCosts.Proofs.Lookup
import PodCosts.Proofs.Records.Pods
import Mathlib.Data.Option.Basic

/-!
# The pods that have not ended

The answer about the pods that have not ended is read back as one record for each of them, in
ascending order. A record has the name of its pod, the names of the nodes that the pod talks to in
the order of its edges, and the names of the services that select it.
-/

namespace PodCosts

namespace Graph

/-- Whether a list has exactly the nodes with a property, each of them once and in ascending
order. -/
def Enumerates (graph : Graph) (nodes : List (Uid × Vertex)) (property : Uid × Vertex → Prop) :
    Prop :=
  nodes.Pairwise (fun node other => node.1 < other.1) ∧
    ∀ node, node ∈ nodes ↔ graph.vertex? node.1 = some node.2 ∧ property node

/-- The nodes that pass a test are enumerated by filtering all nodes. -/
theorem enumerates_filter (graph : Graph) (test : Uid × Vertex → Bool) :
    graph.Enumerates (graph.nodes.filter test) fun node => test node = true := by
  refine ⟨graph.pairwise_nodes.filter test, fun node => ?_⟩
  rw [List.mem_filter, mem_nodes]

/-- A record of a pod has its name, the names of the existing targets of its edges in the order of
the edges, the names of the services that select it, ascending, and nothing else. -/
structure ListsPod (graph : Graph) (pod : Uid × Vertex) (record : Pod) : Prop where
  name : pod.2.text? Predicate.name = some record.name
  interactions : (graph.located (pod.2.targets Predicate.podEdge)).map
      (fun target => target.2.text? Predicate.name) =
    record.interactions.map fun interaction => some interaction.name
  services : (graph.pointingAt .service pod.1).map (fun service => service.2.text? Predicate.name) =
    record.services.map fun service => some service.name
  blank : { record with name := "", interactions := [], services := [] } = Pod.blank

end Graph

namespace Vertex

variable {vertex : Vertex} {fields : List (String × Json)}

/-- The name of a node is read back. -/
theorem exists_field?_name (hname : (vertex.text? Predicate.name).isSome)
    {known : List (String × Node)}
    (hknown : Fields.get? "name" known = (vertex.scalar? Predicate.name).map Json.toNode) :
    ∃ name, vertex.text? Predicate.name = some name ∧
      Node.field? known "name" "" Node.text? = some name := by
  obtain ⟨name, htext⟩ := Option.isSome_iff_exists.mp hname
  have hread := field?_text (fun _ => hname) hknown
  rw [htext] at hread
  exact ⟨name, htext, hread⟩

/-- A node that is answered with its name is read as a service of that name. -/
theorem exists_ofNode?_named (hname : (vertex.text? Predicate.name).isSome)
    (h : Fields.Hold fields vertex.named) (depth : Nat) :
    ∃ service, ServiceRef.ofNode? (depth + 1) (Json.object fields).toNode = some service ∧
      vertex.text? Predicate.name = some service.name := by
  obtain ⟨known, hknown, hfields⟩ := Node.fields?_toNode h.sorted ["name"]
  have hheld : Fields.get? "name" known = (vertex.scalar? Predicate.name).map Json.toNode := by
    rw [hfields "name" (by decide), h.get?_eq]
    rfl
  obtain ⟨name, htext, hread⟩ := exists_field?_name hname hheld
  exact ⟨⟨name⟩, ServiceRef.ofNode?_of_fields? hknown hread depth, htext⟩

/-- A node that is answered with its name and a number that can be read back is read as an
interaction of that name. -/
theorem exists_ofNode?_counted (hname : (vertex.text? Predicate.name).isSome)
    (hcount : ∀ value ∈ vertex.scalar? Predicate.interactionCount,
      (Node.float? value.toNode).isSome)
    (h : Fields.Hold fields vertex.counted) (depth : Nat) :
    ∃ interaction, Interaction.ofNode? (depth + 1) (Json.object fields).toNode = some interaction ∧
      vertex.text? Predicate.name = some interaction.name := by
  obtain ⟨known, hknown, hfields⟩ := Node.fields?_toNode h.sorted ["name", "count"]
  have hheldName : Fields.get? "name" known = (vertex.scalar? Predicate.name).map Json.toNode := by
    rw [hfields "name" (by decide), h.get?_eq]
    rfl
  have hheldCount : Fields.get? "count" known =
      (vertex.scalar? Predicate.interactionCount).map Json.toNode := by
    rw [hfields "count" (by decide), h.get?_eq]
    rfl
  obtain ⟨name, htext, hreadName⟩ := exists_field?_name hname hheldName
  have hreadCount : ∃ count, Node.field? known "count" 0 Node.float? = some count := by
    rw [Node.field?, hheldCount]
    cases hvalue : vertex.scalar? Predicate.interactionCount with
    | none => exact ⟨0, rfl⟩
    | some value => exact Option.isSome_iff_exists.mp (hcount value hvalue)
  obtain ⟨count, hreadCount⟩ := hreadCount
  exact ⟨⟨name, count⟩, Interaction.ofNode?_of_fields? hknown hreadName hreadCount depth, htext⟩

end Vertex

namespace Graph

variable {graph : Graph}

/-- The number of interactions of a node is read back from an answer whose numbers are. -/
theorem isSome_float?_of_counted (hdocumented : graph.Documented) {node : Uid × Vertex}
    (hnode : graph.vertex? node.1 = some node.2)
    (hcount : node.2.NumberOrNothing Predicate.interactionCount) {answer : List (String × Json)}
    (h : Fields.Hold answer node.2.counted) (hreadable : (Json.object answer).readable = true) :
    ∀ value ∈ node.2.scalar? Predicate.interactionCount, (Node.float? value.toNode).isSome := by
  intro value hvalue
  have hfinite : value.Finite := hdocumented.finite_scalar hnode hvalue
  have hisNumber : value.IsNumber := by
    obtain ⟨amount, hamount⟩ := Option.isSome_iff_exists.mp (hcount (by rw [hvalue]; rfl))
    obtain ⟨number, hnumber, -⟩ := Vertex.number?_eq_some hamount
    cases hvalue.symm.trans hnumber
    exact hfinite
  have hheld : Fields.get? Predicate.interactionCount answer = some value := by
    rw [h.get?_eq, Vertex.counted, Function.update_self]
    exact hvalue
  exact Json.float?_of_readable hisNumber
    (Json.readable_of_mem_fields hreadable _ (Fields.mem_of_get? hheld))

/-- The answer for a pod is read as its record. -/
theorem PodListed.exists_ofNode? (hdocumented : graph.Documented) (hnamed : graph.Named)
    (hcounts : ∀ node ∈ graph.nodes, node.2.NumberOrNothing Predicate.interactionCount)
    {pod : Uid × Vertex} (hpod : pod ∈ graph.nodes) {fields : List (String × Json)}
    (h : graph.PodListed pod fields) (hreadable : (Json.object fields).readable = true)
    (depth : Nat) :
    ∃ record, Pod.ofNode? (depth + 3) (Json.object fields).toNode = some record ∧
      graph.ListsPod pod record := by
  obtain ⟨talked, serving, hheld, htargets, hselecting⟩ := h
  have hrow : Fields.get? "pod" fields = Selection.row talked := hheld.get?_eq "pod"
  have hinteraction : ∀ target ∈ graph.located (pod.2.targets Predicate.podEdge),
      ∀ answer ∈ talked, Fields.Hold answer target.2.counted →
        ∃ interaction, Interaction.ofNode? (depth + 1) (Json.object answer).toNode =
          some interaction ∧ target.2.text? Predicate.name = some interaction.name := by
    intro target htarget answer hanswer hcounted
    have hnode := (mem_located.mp htarget).2
    have hcount := isSome_float?_of_counted hdocumented hnode (hcounts _ (mem_nodes.mpr hnode))
      hcounted (Json.readable_of_mem_row hreadable hrow hanswer)
    exact Vertex.exists_ofNode?_counted (hnamed _ (mem_nodes.mpr hnode)) hcount hcounted depth
  have hservice : ∀ service ∈ graph.pointingAt .service pod.1, ∀ answer ∈ serving,
      Fields.Hold answer service.2.named →
        ∃ read, ServiceRef.ofNode? (depth + 1) (Json.object answer).toNode = some read ∧
          service.2.text? Predicate.name = some read.name := by
    intro service hmem answer _ hanswer
    exact Vertex.exists_ofNode?_named (hnamed _ (List.mem_filter.mp hmem).1) hanswer depth
  obtain ⟨interactions, hinteractions, hnames⟩ := exists_mapM_of_forall₂ htargets hinteraction
  obtain ⟨services, hservices, hserviceNames⟩ := exists_mapM_of_forall₂ hselecting hservice
  obtain ⟨known, hknown, hfields⟩ := Node.fields?_toNode hheld.sorted Pod.fieldNames
  have hget (key : String) (hkey : key ∈ Pod.fieldNames) :
      Fields.get? key known = (pod.2.listed talked serving key).map Json.toNode := by
    rw [hfields key hkey, hheld.get?_eq]
  have habsent {α : Type} (key : String) (hkey : key ∈ Pod.fieldNames)
      (hnone : pod.2.listed talked serving key = none) (absent : α) (read : Node → Option α) :
      Node.field? known key absent read = some absent := by
    rw [Node.field?_absent (by rw [hget key hkey, hnone]; rfl)]
  obtain ⟨name, htext, hname⟩ := Vertex.exists_field?_name (hnamed pod hpod)
    (hget "name" (by decide))
  have hpodRead := Node.field?_row hinteractions (hget "pod" (by decide))
  have hcidRead := Node.field?_row hservices (hget "cid" (by decide))
  refine ⟨⟨"", name, none, none, none, none, interactions, services⟩, ?_,
    ⟨htext, map_eq_map_of_forall₂ hnames, map_eq_map_of_forall₂ hserviceNames, rfl⟩⟩
  exact Pod.ofNode?_of_fields? hknown (habsent "uid" (by decide) rfl _ _) hname
    (habsent "startTime" (by decide) rfl _ _) (habsent "endTime" (by decide) rfl _ _)
    (habsent "cpuPrice" (by decide) rfl _ _) (habsent "memoryPrice" (by decide) rfl _ _)
    hpodRead hcidRead

/-- The records of the answer are those of the pods that have not ended, in ascending order. -/
theorem exists_records_livePods (hdocumented : graph.Documented) (hnamed : graph.Named)
    (hcounts : ∀ node ∈ graph.nodes, node.2.NumberOrNothing Predicate.interactionCount)
    (hprinted : graph.PrintsReadable Request.livePods) :
    ∃ records, Lookup.recordsOf Request.podsBlock Pod.ofNode? (graph.reply Request.livePods) =
        .ok records ∧ List.Forall₂ graph.ListsPod graph.livePods records := by
  obtain ⟨answers, hevaluate, hall⟩ := hnamed.evaluate_livePods
  have hitems := Json.readable_of_mem_fields (hprinted _ hevaluate) _ List.mem_cons_self
  have hfinite : ∀ item ∈ answers.map Json.object, item.Finite := by
    intro item hitem
    obtain ⟨answer, hanswer, rfl⟩ := List.mem_map.mp hitem
    obtain ⟨pod, hpod, hlisted⟩ := exists_of_mem_forall₂ hall hanswer
    exact PodListed.finite hdocumented (List.mem_filter.mp hpod).1 hlisted
  have hstep : ∀ pod ∈ graph.livePods, ∀ answer ∈ answers, graph.PodListed pod answer →
      ∃ record, Pod.ofNode? (Node.depthLimit - 2) (Json.object answer).toNode = some record ∧
        graph.ListsPod pod record := by
    intro pod hpod answer hanswer hlisted
    have hreadable := Json.readable_of_mem_items hitems _ (List.mem_map_of_mem hanswer)
    exact hlisted.exists_ofNode? hdocumented hnamed hcounts (List.mem_filter.mp hpod).1 hreadable
      (Node.depthLimit - 5)
  obtain ⟨records, hrecords, hlists⟩ := exists_mapM_of_forall₂ hall hstep
  refine ⟨records, ?_, hlists⟩
  rw [reply, hevaluate]
  dsimp only
  rw [Lookup.recordsOf, readAnswer_encode _ _ hfinite, List.mapM_map, Function.comp_def, hrecords]

end Graph

namespace Lookup

/-- Where every node has a name and counts its interactions with numbers, if at all, there is one
record for each pod that has not ended, in ascending order. Each of them has the name of its pod,
the names of the existing targets of its edges in their order, and the names of the services that
select it, each once and in ascending order. Of the numbers that are printed it is only required
that they can be read back. -/
theorem livePods_exact {now : Instant} {graph : Graph} (hreachable : Graph.Reachable now graph)
    (hnamed : graph.Named)
    (hcounts : ∀ node ∈ graph.nodes, node.2.NumberOrNothing Predicate.interactionCount)
    (hprinted : graph.PrintsReadable Request.livePods) (journal : Journal) :
    graph.Enumerates graph.livePods (fun pod =>
        pod.2.has Kind.pod.marker = true ∧ pod.2.has Predicate.endTime = false) ∧
      (∀ pod, graph.Enumerates (graph.pointingAt .service pod) fun service =>
        service.2.has Kind.service.marker = true ∧
          pod ∈ service.2.targets Predicate.podEdge) ∧
      ∃ records, (livePods.run (Store.ofGraph graph) journal).1 = .ok records ∧
        List.Forall₂ graph.ListsPod graph.livePods records := by
  refine ⟨?_, fun pod => ?_, ?_⟩
  · have hlive := graph.enumerates_filter fun node =>
      node.2.has Kind.pod.marker && !node.2.has Predicate.endTime
    simp only [Bool.and_eq_true, Bool.not_eq_true'] at hlive
    exact hlive
  · have hservices := graph.enumerates_filter fun node =>
      (node.2.targets Predicate.podEdge).contains pod && node.2.has Kind.service.marker
    simp only [Bool.and_eq_true, List.contains_iff_mem, and_comm] at hservices
    exact hservices
  · rw [run_livePods]
    exact Graph.exists_records_livePods hreachable.documented hnamed hcounts hprinted

/-- A pod with an empty end that talks to an ended pod, to itself and to a missing node, and that a
service selects twice. -/
theorem livePods_exact_selfTalk :
    let web : Json := .object [("endTime", .null), ("isPod", .bool true), ("name", .string "web")]
    let db : Json := .object [("count", .number (.int 7)),
      ("endTime", .string "2026-10-19T11:00:00Z"), ("isPod", .bool true), ("name", .string "db")]
    let service : Json := .object [("isService", .bool true), ("name", .string "svc")]
    let container : Json := .object [("isContainer", .bool true), ("name", .string "proxy")]
    let nodes := ((((Graph.empty ⟨20745, 43200, 0, by decide, by decide, by decide⟩).insert
      web).insert db).insert service).insert container
    let graph := ((((((nodes.link 1 "pod" 2).link 1 "pod" 1).link 1 "pod" 9).link 2 "pod" 1).link
      3 "pod" 1).link 3 "pod" 1).link 4 "pod" 1
    Graph.Reachable graph.now graph ∧ graph.Named ∧
      (∀ node ∈ graph.nodes, node.2.NumberOrNothing Predicate.interactionCount) ∧
      graph.PrintsReadable Request.livePods ∧
      ∃ record, (livePods.run (Store.ofGraph graph) Journal.empty).1 = .ok [record] ∧
        record.name = "web" ∧ record.interactions.map Interaction.name = ["db", "web"] ∧
        record.services.map ServiceRef.name = ["svc"] := by
  intro web db service container nodes graph
  have hweb : web.Finite := ⟨trivial, trivial, trivial, trivial⟩
  have hdb : db.Finite := ⟨trivial, trivial, trivial, trivial, trivial⟩
  have hservice : service.Finite := ⟨trivial, trivial, trivial⟩
  have hcontainer : container.Finite := ⟨trivial, trivial, trivial⟩
  have hnodes : Graph.Reachable graph.now nodes :=
    (((Graph.Reachable.empty.insert _ hweb).insert _ hdb).insert _ hservice).insert _ hcontainer
  have hreachable : Graph.Reachable graph.now graph :=
    ((((((hnodes.link 1 "pod" 2).link 1 "pod" 1).link 1 "pod" 9).link 2 "pod" 1).link
      3 "pod" 1).link 3 "pod" 1).link 4 "pod" 1
  have hnamed : graph.Named := by decide +kernel
  have hcounts : ∀ node ∈ graph.nodes, node.2.NumberOrNothing Predicate.interactionCount := by
    decide +kernel
  have hprinted : graph.PrintsReadable Request.livePods := by decide +kernel
  obtain ⟨-, -, records, hrun, hall⟩ :=
    livePods_exact hreachable hnamed hcounts hprinted Journal.empty
  have hlive : graph.livePods = [(1, ⟨web.fields, [("pod", [2, 1, 9])]⟩)] := rfl
  rw [hlive] at hall
  obtain ⟨record, rest, hlists, hnone, rfl⟩ := List.forall₂_cons_left_iff.mp hall
  cases hnone
  refine ⟨hreachable, hnamed, hcounts, hprinted, record, hrun, ?_, ?_, ?_⟩
  · exact (Option.some.inj hlists.name).symm
  · refine List.map_injective_iff.mpr (Option.some_injective String) ?_
    rw [List.map_map]
    exact hlists.interactions.symm
  · refine List.map_injective_iff.mpr (Option.some_injective String) ?_
    rw [List.map_map]
    exact hlists.services.symm

end Lookup

end PodCosts
