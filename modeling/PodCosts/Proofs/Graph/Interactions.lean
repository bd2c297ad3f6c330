import PodCosts.Proofs.Graph.Edges
import PodCosts.Proofs.Graph.Pods
import PodCosts.Proofs.Records.Codec

/-!
# Who talks to whom

The request for interactions is answered pod by pod: with the nodes a pod points at, as often as it
points at them, and with the pods that point at it, each once. Nodes without a name are left out of
both lists. Two pods are therefore listed equally often with each other as long as they have not
been linked twice.
-/

namespace PodCosts

open Request (nameOnly)

namespace Vertex

/-- Whether a node has a name. -/
def isNamed (vertex : Vertex) : Bool :=
  (vertex.scalar? Predicate.name).isSome

/-- What a node is answered with by its name. -/
def nameFields (vertex : Vertex) : List (String × Json) :=
  Fields.present [(Predicate.name, vertex.scalar? Predicate.name)]

end Vertex

namespace Picked

/-- A node is answered with its name if it has one. -/
theorem fields_answer_name (vertex : Vertex) :
    (nothing.answer (some Predicate.name) (vertex.scalar? Predicate.name)).fields =
      vertex.nameFields := by
  cases hname : vertex.scalar? Predicate.name <;> simp [answer, Vertex.nameFields, hname] <;> rfl

/-- The nodes with a name are answered with it, and the others are left out. -/
theorem objects_names (found : List (Uid × Vertex)) :
    objects (found.map fun node =>
        nothing.answer (some Predicate.name) (node.2.scalar? Predicate.name)) =
      (found.filter fun node => node.2.isNamed).map fun node => .object node.2.nameFields := by
  have hanswered : ∀ vertex : Vertex, (!vertex.nameFields.isEmpty) = vertex.isNamed := by
    intro vertex
    cases hname : vertex.scalar? Predicate.name <;>
      simp [Vertex.nameFields, Vertex.isNamed, Fields.present, hname]
  rw [objects, List.filter_map, List.map_map]
  simp only [Function.comp_def, fields_answer_name, hanswered]

/-- The keys of the answer for a pod ascend. -/
theorem fields_answer_interactions (name? outbound? inbound? : Option Json) :
    (((nothing.answer (some Predicate.name) name?).answer (some "outbound") outbound?).answer
        (some "inbound") inbound?).fields =
      Fields.present
        [("inbound", inbound?), (Predicate.name, name?), ("outbound", outbound?)] := by
  have hlast : ¬"outbound" < Predicate.name := by decide +kernel
  have hne : "outbound" ≠ Predicate.name := by decide +kernel
  have hfirst : "inbound" < Predicate.name := by decide +kernel
  have hout : "inbound" < "outbound" := by decide +kernel
  have hbehind : ∀ name outbound : Json,
      Fields.insert "outbound" outbound [(Predicate.name, name)] =
        [(Predicate.name, name), ("outbound", outbound)] := by
    intro name outbound
    rw [Fields.insert, if_neg hlast, if_neg hne, Fields.insert]
  cases name? <;> cases outbound? <;> cases inbound? <;>
    simp [answer, nothing, Fields.present, Fields.insert, hbehind, hfirst, hout]

end Picked

namespace Graph

variable (graph : Graph)

/-- The named nodes a node points at, in the order of its edges. -/
def outbound (uid : Uid) : List (Uid × Vertex) :=
  (graph.adjacent uid (.forward Predicate.podEdge) none).filter fun node => node.2.isNamed

/-- The named pods that point at a node, ascending. -/
def inbound (uid : Uid) : List (Uid × Vertex) :=
  (graph.pointingAt .pod uid).filter fun node => node.2.isNamed

/-- The names of some nodes as they are answered, if there are any. -/
def nameRow (found : List (Uid × Vertex)) : Option Json :=
  Selection.row (found.map fun node => node.2.nameFields)

/-- What a pod is answered with about its interactions. -/
def interactionFields (pod : Uid × Vertex) : List (String × Json) :=
  Fields.present
    [("inbound", nameRow (graph.inbound pod.1)),
      (Predicate.name, pod.2.scalar? Predicate.name),
      ("outbound", nameRow (graph.outbound pod.1))]

/-- The pods a request about interactions is about, ascending. -/
def asked (target : Target) (orphansOnly : Bool) : List (Uid × Vertex) :=
  graph.nodes.filter fun node =>
    node.2.has Kind.pod.marker && (Request.interactionFilter target orphansOnly).accepts node.2

/-- The selection of the name alone answers the name alone. -/
theorem pickAll_nameOnly (node : Uid × Vertex) :
    Selection.pickAll graph node.1 node.2 Picked.nothing [nameOnly] =
      .ok (Picked.nothing.answer (some Predicate.name) (node.2.scalar? Predicate.name)) := by
  have hpick := Selection.pick_predicate graph node.1 node.2 Picked.nothing .plain Predicate.name
  rw [nameOnly, Selection.pickAll_cons_of_ok hpick, Selection.pickAll_nil]
  rfl

/-- An edge along which only names are selected lists the nodes that have one. -/
theorem pick_names (uid : Uid) (vertex : Vertex) (picked : Picked) (name : String) (path : EdgePath)
    (filter? : Option Filter) :
    ∃ next, Selection.pick graph uid vertex picked
        (.edge (.named name) path filter? [nameOnly]) = .ok next ∧
      next.fields = (picked.answer (some name) (nameRow
        ((graph.adjacent uid path filter?).filter fun node => node.2.isNamed))).fields := by
  have hpicks := mapM_eq_ok_map fun node (_ : node ∈ graph.adjacent uid path filter?) =>
    graph.pickAll_nameOnly node
  have hkey : Selection.key? (.edge (.named name) path filter? [nameOnly]) = some name := rfl
  refine ⟨_, by rw [Selection.pick_edge, hpicks]; rfl, ?_⟩
  rw [Selection.fields_edgePicked, Picked.objects_names, nameRow, Selection.row, hkey]
  simp only [List.isEmpty_map, List.map_map, Function.comp_def]

/-- A pod is answered with its name and with both lists. -/
theorem pickAll_interactions (pod : Uid × Vertex) :
    ∃ next, Selection.pickAll graph pod.1 pod.2 Picked.nothing
        [nameOnly, .edge (.named "outbound") (.forward Predicate.podEdge) none [nameOnly],
          Request.pointingAtPod (.named "inbound") .pod [nameOnly]] = .ok next ∧
      next.fields = graph.interactionFields pod := by
  obtain ⟨second, hsecond, hout⟩ := graph.pick_names pod.1 pod.2
    (Picked.nothing.answer (some Predicate.name) (pod.2.scalar? Predicate.name)) "outbound"
    (.forward Predicate.podEdge) none
  obtain ⟨third, hthird, hin⟩ := graph.pick_names pod.1 pod.2 second "inbound"
    (.backward Predicate.podEdge) (some (.has Kind.pod.marker))
  refine ⟨third, ?_, ?_⟩
  · have hrun := Selection.pickAll_append_of_ok (graph.pickAll_nameOnly pod)
      [.edge (.named "outbound") (.forward Predicate.podEdge) none [nameOnly],
        Request.pointingAtPod (.named "inbound") .pod [nameOnly]]
    rw [Selection.pickAll_cons_of_ok hsecond, Request.pointingAtPod,
      Selection.pickAll_cons_of_ok hthird, Selection.pickAll_nil] at hrun
    exact hrun
  · rw [adjacent_pointingAt] at hin
    rw [hin, Picked.fields_answer_congr hout]
    exact Picked.fields_answer_interactions _ _ _

/-- The answer to the request for interactions. A pod without a name and without named neighbours is
left out. -/
theorem evaluate_interactions (target : Target) (orphansOnly : Bool) :
    graph.evaluate (Request.interactions target orphansOnly) =
      .ok (.object [(Request.podsBlock, .array
        ((((graph.asked target orphansOnly).map graph.interactionFields).filter
          fun fields => !fields.isEmpty).map .object))]) := by
  have hstep : ∀ pod ∈ graph.asked target orphansOnly, ∃ next,
      Selection.pickAll graph pod.1 pod.2 Picked.nothing
          [nameOnly, .edge (.named "outbound") (.forward Predicate.podEdge) none [nameOnly],
            Request.pointingAtPod (.named "inbound") .pod [nameOnly]] = .ok next ∧
        graph.interactionFields pod = next.fields := by
    intro pod _
    obtain ⟨next, hnext, hfields⟩ := graph.pickAll_interactions pod
    exact ⟨next, hnext, hfields.symm⟩
  obtain ⟨picks, hpicks, hall⟩ := exists_mapM_eq_ok hstep
  have hfields : List.Forall₂ Eq ((graph.asked target orphansOnly).map graph.interactionFields)
      (picks.map Picked.fields) :=
    List.forall₂_map_left_iff.mpr (List.forall₂_map_right_iff.mpr hall)
  rw [List.forall₂_eq_eq_eq] at hfields
  have hobjects : Picked.objects picks =
      ((picks.map Picked.fields).filter fun fields => !fields.isEmpty).map .object := by
    rw [Picked.objects, List.filter_map, List.map_map]
    rfl
  have hrun : graph.runBlock [] ⟨Request.podsBlock, Request.allOf .pod,
      some (Request.interactionFilter target orphansOnly),
      [nameOnly, .edge (.named "outbound") (.forward Predicate.podEdge) none [nameOnly],
        Request.pointingAtPod (.named "inbound") .pod [nameOnly]]⟩ = .ok picks := by
    rw [Request.allOf, runBlock_has]
    exact hpicks
  rw [Request.interactions, evaluate_single _ rfl, hrun, hfields, ← hobjects]
  rfl

/-! ## Seen from both ends -/

variable {graph} {source target : Uid × Vertex}

/-- A named node is listed among those another one points at as often as it is recorded there. -/
theorem count_outbound (htarget : target ∈ graph.nodes) (source : Uid) :
    ((graph.outbound source).map Prod.fst).count target.1 =
      if target.2.isNamed then (graph.destinations Predicate.podEdge source).count target.1
      else 0 := by
  have hfound : ∀ node ∈ graph.adjacent source (.forward Predicate.podEdge) none,
      graph.vertex? node.1 = some node.2 := fun node => vertex?_of_mem_adjacent
  have hcount := count_neighbours_forward htarget Predicate.podEdge source
  rw [neighbours_eq] at hcount
  rw [outbound, count_map_fst_filter hfound htarget, hcount]

/-- A named pod is listed among those that point at a node at most once. -/
theorem count_inbound (hsource : source ∈ graph.nodes) (target : Uid) :
    ((graph.inbound target).map Prod.fst).count source.1 =
      if source.2.has Kind.pod.marker && source.2.isNamed then
        min ((graph.destinations Predicate.podEdge source.1).count target) 1
      else 0 := by
  have hfound : ∀ node ∈ graph.adjacent target (.backward Predicate.podEdge) none,
      graph.vertex? node.1 = some node.2 := fun node => vertex?_of_mem_adjacent
  have hcount := count_neighbours_backward hsource Predicate.podEdge target
  rw [neighbours_eq] at hcount
  have hinbound : graph.inbound target =
      (graph.adjacent target (.backward Predicate.podEdge) none).filter fun node =>
        node.2.has Kind.pod.marker && node.2.isNamed := by
    rw [inbound, pointingAt, adjacent_backward, List.filter_filter, List.filter_filter]
    refine List.filter_congr fun node _ => ?_
    rw [Filter.admits, Bool.and_true]
    ac_rfl
  rw [hinbound, count_map_fst_filter hfound hsource, hcount]

/-- However a graph has been made by adding nodes and links, an edge leads from its source to its
target once for every time it has been linked, and from its target to its source at most once. Both
ends see it equally often exactly if it has not been linked twice. The request for interactions
lists two named pods with each other in the same way. -/
theorem count_both_ends (now : Instant) (changes : List Change) {source target : Uid × Vertex}
    (hsource : source ∈ ((empty now).after changes).nodes)
    (htarget : target ∈ ((empty now).after changes).nodes) :
    let graph := (empty now).after changes
    let made predicate := (empty now).timesLinked source.1 predicate target.1 changes
    let forward predicate :=
      (graph.neighbours source.1 (.forward predicate) none).count target.1
    let backward predicate :=
      (graph.neighbours target.1 (.backward predicate) none).count source.1
    let listedOutbound := ((graph.outbound source.1).map Prod.fst).count target.1
    let listedInbound := ((graph.inbound target.1).map Prod.fst).count source.1
    (∀ predicate, forward predicate = made predicate ∧ backward predicate = min (made predicate) 1 ∧
      (forward predicate = backward predicate ↔ made predicate ≤ 1)) ∧
    (∀ wanted orphansOnly, graph.evaluate (Request.interactions wanted orphansOnly) =
      .ok (.object [(Request.podsBlock, .array
        ((((graph.asked wanted orphansOnly).map graph.interactionFields).filter
          fun fields => !fields.isEmpty).map .object))])) ∧
    (source.2.has Kind.pod.marker → source.2.isNamed → target.2.isNamed →
      listedOutbound = forward Predicate.podEdge ∧ listedInbound = backward Predicate.podEdge) := by
  intro graph made forward backward listedOutbound listedInbound
  have hcount : ∀ predicate, (graph.destinations predicate source.1).count target.1 =
      made predicate := by
    intro predicate
    have hmade := (empty now).count_destinations_after predicate source.1 target.1 changes
    have hnone : (empty now).destinations predicate source.1 = [] := by
      rw [destinations]
      cases source.1 <;> rfl
    rw [hnone, List.count_nil, Nat.add_zero] at hmade
    exact hmade
  have hforward : ∀ predicate, forward predicate = made predicate := fun predicate =>
    (count_neighbours_forward htarget predicate source.1).trans (hcount predicate)
  have hbackward : ∀ predicate, backward predicate = min (made predicate) 1 := by
    intro predicate
    have hback := count_neighbours_backward hsource predicate target.1
    rw [hcount predicate] at hback
    exact hback
  refine ⟨fun predicate => ⟨hforward predicate, hbackward predicate, ?_⟩,
    graph.evaluate_interactions, fun hpod hnamed hother => ⟨?_, ?_⟩⟩
  · rw [hforward predicate, hbackward predicate]
    omega
  · have hlisted := count_outbound htarget source.1
    rw [if_pos hother, hcount] at hlisted
    exact hlisted.trans (hforward _).symm
  · have hlisted := count_inbound hsource target.1
    have hboth : (source.2.has Kind.pod.marker && source.2.isNamed) = true := by
      rw [hpod, hnamed]
      rfl
    rw [if_pos hboth, hcount] at hlisted
    exact hlisted.trans (hbackward _).symm

/-- A pod that is linked to another one before that one is there, to itself and to a node that never
comes. -/
theorem count_both_ends_early :
    let now : Instant := ⟨20745, 43200, 0, by decide, by decide, by decide⟩
    let web : Json := .object [("isPod", .bool true), ("name", .string "web")]
    let db : Json := .object [("isPod", .bool true), ("name", .string "db")]
    let changes : List Change := [.link 1 "pod" 2, .insert web, .link 1 "pod" 2, .link 1 "pod" 1,
      .insert db, .link 1 "pod" 9, .link 9 "pod" 1]
    let graph := (empty now).after changes
    (graph.neighbours 1 (.forward "pod") none).count 2 = 1 ∧
      (graph.neighbours 2 (.backward "pod") none).count 1 = 1 ∧
      ((graph.outbound 1).map Prod.fst).count 2 = ((graph.inbound 2).map Prod.fst).count 1 := by
  intro now web db changes graph
  have hweb : ((1, ⟨web.fields, [("pod", [2, 1, 9])]⟩) : Uid × Vertex) ∈ graph.nodes :=
    mem_nodes.mpr rfl
  have hdb : ((2, ⟨db.fields, []⟩) : Uid × Vertex) ∈ graph.nodes := mem_nodes.mpr rfl
  have hmade : (empty now).timesLinked 1 "pod" 2 changes = 1 := by decide +kernel
  obtain ⟨hseen, -, hlisted⟩ := count_both_ends now changes hweb hdb
  obtain ⟨hforward, hbackward, hequal⟩ := hseen "pod"
  obtain ⟨hout, hin⟩ := hlisted (by decide) (by decide) (by decide)
  refine ⟨hforward.trans hmade, hbackward.trans (congrArg (min · 1) hmade), ?_⟩
  exact hout.trans ((hequal.mpr (le_of_eq hmade)).trans hin.symm)

/-- A pod that is linked to another one twice lists it twice, and is itself listed there once. -/
theorem count_both_ends_linked_twice :
    let now : Instant := ⟨20745, 43200, 0, by decide, by decide, by decide⟩
    let web : Json := .object [("isPod", .bool true), ("name", .string "web")]
    let db : Json := .object [("isPod", .bool true), ("name", .string "db")]
    let graph := (empty now).after
      [.insert web, .insert db, .link 1 "pod" 2, .link 1 "pod" 2]
    let row name := Json.object [("name", .string name)]
    (graph.vertex? 1).isSome ∧ (graph.vertex? 2).isSome ∧
      (graph.neighbours 1 (.forward "pod") none).count 2 = 2 ∧
      (graph.neighbours 2 (.backward "pod") none).count 1 = 1 ∧
      graph.evaluate (Request.interactions (.named "web") false) =
        .ok (.object [("pods", .array [.object
          [("name", .string "web"), ("outbound", .array [row "db", row "db"])]])]) ∧
      graph.evaluate (Request.interactions (.named "db") false) =
        .ok (.object [("pods", .array [.object
          [("inbound", .array [row "web"]), ("name", .string "db")]])]) := by
  intro now web db graph row
  refine ⟨rfl, rfl, by decide +kernel, by decide +kernel, ?_, ?_⟩
  · rw [evaluate_interactions]
    rfl
  · rw [evaluate_interactions]
    rfl

end Graph

end PodCosts
