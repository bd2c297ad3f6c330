import PodCosts.Proofs.Graph.Answers
import PodCosts.Proofs.Graph.Edges
import PodCosts.Proofs.Json.Values

/-!
# Answers in order

The names of every object in an answer ascend, provided that they do in the recorded values. Keys
are set one by one for each node, and blocks are answered under their names in the same way.
-/

namespace PodCosts

/-- The fields of a document in order are in order. -/
theorem Json.ordered_of_mem_fields {document : Json} (hordered : document.Ordered) :
    ∀ field ∈ document.fields, field.2.Ordered := by
  cases document with
  | object fields => exact (Json.ordered_object_iff.mp hordered).2
  | _ => exact nofun

/-- Whether the names of every object in a recorded value ascend. -/
def Graph.Ordered (graph : Graph) : Prop :=
  ∀ uid vertex, graph.vertex? uid = some vertex → ∀ field ∈ vertex.scalars, field.2.Ordered

namespace Graph

/-- A graph is in order if it has been made of nodes that are. -/
theorem ordered_after (now : Instant) {changes : List Change}
    (hchanges : ∀ scalars, Change.insert scalars ∈ changes → scalars.Ordered) :
    ((empty now).after changes).Ordered := by
  induction changes using List.reverseRecOn with
  | nil =>
    intro uid vertex hvertex
    cases uid <;> cases hvertex
  | append_singleton changes change ih =>
    have hbefore := ih fun scalars hscalars => hchanges scalars (List.mem_append_left _ hscalars)
    have hlast := List.mem_append_right changes (List.mem_singleton_self change)
    rw [after, List.foldl_append, ← after]
    cases change with
    | insert scalars =>
      exact forall_scalars_insert (∀ field ∈ ·, field.2.Ordered) hbefore
        (Json.ordered_of_mem_fields (hchanges scalars hlast))
    | link source predicate target =>
      exact forall_scalars_link (∀ field ∈ ·, field.2.Ordered) hbefore source predicate target

end Graph

/-- Whether the names of every object among the answers for a node ascend. -/
def Picked.Ordered (picked : Picked) : Prop :=
  Fields.Sorted picked.fields ∧ ∀ field ∈ picked.fields, field.2.Ordered

namespace Picked

/-- The empty answer is in order. -/
theorem ordered_nothing : nothing.Ordered :=
  ⟨sorted_fields_nothing, fun _ h => by cases h⟩

/-- The answers for nodes are in order if each of them is. -/
theorem ordered_objects {picks : List Picked} (hpicks : ∀ picked ∈ picks, picked.Ordered) :
    (Json.array (objects picks)).Ordered := by
  rw [Json.ordered_array_iff]
  intro item hitem
  obtain ⟨picked, hpicked, rfl⟩ := List.mem_map.mp hitem
  exact Json.ordered_object_iff.mpr (hpicks picked (List.mem_filter.mp hpicked).1)

/-- An answer to which a value in order is added stays in order. -/
theorem ordered_answer {picked : Picked} (hpicked : picked.Ordered) {key? : Option String}
    {value? : Option Json} (hvalue : ∀ value ∈ value?, value.Ordered) :
    (picked.answer key? value?).Ordered :=
  ⟨sorted_fields_answer hpicked.1 key? value?,
    forall_fields_answer hpicked.2 fun _ _ => hvalue⟩

end Picked

namespace Selection

variable {graph : Graph} {uid : Uid} {vertex : Vertex} {picked next : Picked}

/-- A selection whose own answer is in order keeps the answers for a node in order. -/
theorem ordered_of_pick {selection : Selection}
    (hpick : pick graph uid vertex picked selection = .ok next) (hpicked : picked.Ordered)
    (hanswer : ∀ value, selection.MayAnswer vertex value → value.Ordered) : next.Ordered := by
  obtain ⟨value?, hfields, hmay⟩ := exists_fields_eq_of_pick hpick
  unfold Picked.Ordered
  rw [hfields]
  exact Picked.ordered_answer hpicked fun value hvalue => hanswer value (hmay value hvalue)

mutual

/-- A selection from a node of a graph in order keeps the answers for the node in order. -/
theorem ordered_pick (hgraph : graph.Ordered) {uid : Uid} {vertex : Vertex}
    (hvertex : graph.vertex? uid = some vertex) {picked next : Picked} (hpicked : picked.Ordered)
    (selection : Selection)
    (hpick : pick graph uid vertex picked selection = .ok next) : next.Ordered := by
  match selection with
  | .uid tag =>
    refine ordered_of_pick hpick hpicked ?_
    rintro _ ⟨other, rfl⟩
    exact Json.ordered_string _
  | .predicate tag name =>
    refine ordered_of_pick hpick hpicked fun value hvalue => ?_
    exact hgraph uid vertex hvertex _ (Vertex.mem_of_scalar? hvalue)
  | .count tag name =>
    refine ordered_of_pick hpick hpicked ?_
    rintro _ ⟨count, rfl⟩
    exact Json.ordered_number _
  | .math tag expr =>
    refine ordered_of_pick hpick hpicked ?_
    rintro _ ⟨number, -, rfl⟩
    exact Json.ordered_number _
  | .edge tag path filter? selections =>
    obtain ⟨picks, hall, rfl⟩ := exists_picks_of_pick_edge hpick
    have hpicks : ∀ found ∈ picks, found.Ordered := by
      intro found hfound
      obtain ⟨node, hnode, hrun⟩ := exists_of_mem_forall₂ hall hfound
      have htarget := Graph.vertex?_of_mem_adjacent hnode
      exact ordered_pickAll hgraph htarget Picked.ordered_nothing selections hrun
    have hanswer : ∀ value ∈ (if (Picked.objects picks).isEmpty then none
        else some (Json.array (Picked.objects picks))), value.Ordered := by
      intro value hvalue
      split_ifs at hvalue
      · cases hvalue
      · exact Option.some.inj hvalue ▸ Picked.ordered_objects hpicks
    unfold Picked.Ordered
    rw [fields_edgePicked]
    exact Picked.ordered_answer hpicked hanswer

/-- Selections from a node of a graph in order keep the answers for the node in order. -/
theorem ordered_pickAll (hgraph : graph.Ordered) {uid : Uid} {vertex : Vertex}
    (hvertex : graph.vertex? uid = some vertex) {picked next : Picked} (hpicked : picked.Ordered)
    (selections : List Selection)
    (hpick : pickAll graph uid vertex picked selections = .ok next) : next.Ordered := by
  match selections with
  | [] =>
    rw [pickAll_nil] at hpick
    cases hpick
    exact hpicked
  | selection :: rest =>
    obtain ⟨between, hstep, hrest⟩ := exists_pick_of_pickAll_cons hpick
    have hbetween := ordered_pick hgraph hvertex hpicked selection hstep
    exact ordered_pickAll hgraph hvertex hbetween rest hrest

end

end Selection

namespace Graph

variable {graph : Graph} (hgraph : graph.Ordered)
include hgraph

/-- A block over a graph in order answers each of its nodes in order. -/
theorem Ordered.runBlock {gathered : Gathered} {block : Block} {picks : List Picked}
    (hrun : graph.runBlock gathered block = .ok picks) : ∀ picked ∈ picks, picked.Ordered := by
  intro picked hpicked
  rw [Graph.runBlock] at hrun
  obtain ⟨roots, -, hvisit⟩ := exists_of_bind_eq_ok hrun
  obtain ⟨node, hnode, hpick⟩ := exists_of_mem_forall₂ (forall₂_of_mapM_eq_ok hvisit) hpicked
  rw [admitted_eq] at hnode
  have hvertex := (mem_located.mp (List.mem_filter.mp hnode).1).2
  exact Selection.ordered_pickAll hgraph hvertex Picked.ordered_nothing block.selections hpick

/-- Blocks over a graph in order keep the answers in order. -/
theorem Ordered.runBlocks {blocks : List Block} {gathered : Gathered}
    {output fields : List (String × Json)} (houtput : (Json.object output).Ordered)
    (hrun : graph.runBlocks gathered output blocks = .ok fields) :
    (Json.object fields).Ordered := by
  induction blocks generalizing gathered output with
  | nil =>
    cases hrun
    exact houtput
  | cons block blocks ih =>
    rw [Graph.runBlocks] at hrun
    obtain ⟨picks, hblock, hrest⟩ := exists_of_bind_eq_ok hrun
    refine ih ?_ hrest
    split_ifs
    · exact houtput
    · obtain ⟨hsorted, hvalues⟩ := Json.ordered_object_iff.mp houtput
      refine Json.ordered_object_iff.mpr ⟨hsorted.insert _ _, fun field hfield => ?_⟩
      rcases Fields.mem_of_mem_insert hfield with rfl | hold
      · exact Picked.ordered_objects (Ordered.runBlock hgraph hblock)
      · exact hvalues field hold

/-- A graph in order answers in order, and with an object. -/
theorem Ordered.evaluate {query : Query} {document : Json}
    (hevaluate : graph.evaluate query = .ok document) :
    document.Ordered ∧ ∃ fields, document = .object fields := by
  rw [Graph.evaluate] at hevaluate
  obtain ⟨fields, hrun, hdocument⟩ := exists_of_bind_eq_ok hevaluate
  cases hdocument
  have hstart : (Json.object []).Ordered :=
    Json.ordered_object_iff.mpr ⟨Fields.sorted_nil, fun _ h => by cases h⟩
  exact ⟨Ordered.runBlocks hgraph hstart hrun, fields, rfl⟩

end Graph

end PodCosts
