import PodCosts.Proofs.Fields
import PodCosts.Proofs.Graph.Nodes
import PodCosts.Proofs.Json.RoundTrip

/-!
# Graphs made by adding nodes and edges

What can be looked up after a node or an edge has been added, and what therefore holds of every
graph that is made from the empty one. Nodes are given as documents, so every recorded value can be
written in an answer.
-/

namespace PodCosts

/-- The fields of an object; any other value has none. -/
def Json.fields : Json → List (String × Json)
  | .object fields => fields
  | _ => []

/-- The fields of a document that can be written can be written. -/
theorem Json.fieldsFinite_fields {document : Json} (hfinite : document.Finite) :
    FieldsFinite document.fields := by
  cases document with
  | object fields => exact hfinite
  | _ => exact trivial

namespace Vertex

/-- A value of a node is one of those that are recorded. -/
theorem mem_of_scalar? {vertex : Vertex} {predicate : String} {value : Json}
    (hvalue : vertex.scalar? predicate = some value) : (predicate, value) ∈ vertex.scalars := by
  have hheld : Fields.get? predicate vertex.scalars = some value := by
    unfold scalar? at hvalue
    split at hvalue
    · cases hvalue
    · exact hvalue
  exact Fields.mem_of_get? hheld

/-- A null is as good as no value. -/
theorem scalar?_eq_none {vertex : Vertex} {predicate : String}
    (hnull : ∀ value ∈ Fields.get? predicate vertex.scalars, value = .null) :
    vertex.scalar? predicate = none := by
  rw [scalar?]
  cases hfound : Fields.get? predicate vertex.scalars with
  | none => rfl
  | some value => rw [hnull value hfound]

/-- A target belongs to one of the recorded edges. -/
theorem exists_edge_of_mem_targets {vertex : Vertex} {predicate : String} {target : Uid}
    (htarget : target ∈ vertex.targets predicate) : ∃ edge ∈ vertex.edges, target ∈ edge.2 := by
  rw [targets] at htarget
  cases hfound : Fields.get? predicate vertex.edges with
  | none =>
    rw [hfound] at htarget
    cases htarget
  | some targets =>
    rw [hfound] at htarget
    exact ⟨_, Fields.mem_of_get? hfound, htarget⟩

/-- An edge changes no recorded value. -/
theorem scalar?_link (vertex : Vertex) (predicate : String) (target : Uid) (name : String) :
    (vertex.link predicate target).scalar? name = vertex.scalar? name :=
  rfl

/-- An edge adds its target behind the others. -/
theorem targets_link_self (vertex : Vertex) (predicate : String) (target : Uid) :
    (vertex.link predicate target).targets predicate = vertex.targets predicate ++ [target] := by
  rw [link, targets, Fields.get?_insert, Option.getD_some]

/-- An edge leaves the edges of other predicates as they were. -/
theorem targets_link_of_ne {predicate other : String} (hne : other ≠ predicate) (vertex : Vertex)
    (target : Uid) : (vertex.link other target).targets predicate = vertex.targets predicate := by
  rw [targets, link, Fields.get?_insert_of_ne hne]
  rfl

/-- An edge leaves every other predicate as it was. -/
theorem has_link_of_ne {predicate other : String} (hne : other ≠ predicate) (vertex : Vertex)
    (target : Uid) : (vertex.link other target).has predicate = vertex.has predicate := by
  rw [has, has, scalar?_link, targets_link_of_ne hne]

end Vertex

namespace Graph

/-- A new node comes behind all others. -/
theorem vertex?_insert (graph : Graph) (scalars : Json) (uid : Uid) :
    (graph.insert scalars).vertex? uid =
      if uid = graph.nextUid then some ⟨scalars.fields, []⟩ else graph.vertex? uid := by
  have hvertices : (graph.insert scalars).vertices = graph.vertices ++ [⟨scalars.fields, []⟩] := by
    cases scalars <;> rfl
  cases uid with
  | zero => rfl
  | succ index =>
      rw [vertex?, hvertices, vertex?, List.getElem?_append]
      by_cases hnew : index = graph.vertices.length
      · subst hnew
        have hnext : graph.vertices.length.succ = graph.nextUid := rfl
        rw [if_neg (Nat.lt_irrefl _), if_pos hnext, Nat.sub_self]
        rfl
      · have hother : index.succ ≠ graph.nextUid := fun heq => hnew (Nat.succ.inj heq)
        rw [if_neg hother]
        split_ifs with hold
        · rfl
        · rw [List.getElem?_eq_none (by simp; omega), List.getElem?_eq_none (by omega)]

/-- Only the source of a new edge changes. -/
theorem vertex?_link (graph : Graph) (source : Uid) (predicate : String) (target uid : Uid) :
    (graph.link source predicate target).vertex? uid =
      if uid = source then (graph.vertex? uid).map fun vertex => vertex.link predicate target
      else graph.vertex? uid := by
  cases source with
  | zero => cases uid <;> rfl
  | succ index =>
      cases uid with
      | zero => rfl
      | succ other =>
          change (graph.vertices.modify index _)[other]? = _
          rw [List.getElem?_modify, vertex?]
          by_cases heq : index = other
          · simp [heq]
          · simp [heq, Ne.symm heq]

/-- A node as it is after a new edge. -/
def relinked (source : Uid) (predicate : String) (target : Uid) (node : Uid × Vertex) :
    Uid × Vertex :=
  (node.1, if node.1 = source then node.2.link predicate target else node.2)

/-- A new edge changes its source and no other node. -/
theorem nodes_link (graph : Graph) (source : Uid) (predicate : String) (target : Uid) :
    (graph.link source predicate target).nodes =
      graph.nodes.map (relinked source predicate target) := by
  have huids : (graph.link source predicate target).uids = graph.uids := by
    cases source with
    | zero => rfl
    | succ index => rw [uids, uids, link, List.length_modify]
  rw [nodes, nodes, huids, located, located, List.map_filterMap]
  refine List.filterMap_congr fun uid _ => ?_
  rw [vertex?_link, Option.map_map]
  split_ifs with hsource
  · rw [Option.map_map]
    simp [Function.comp_def, relinked, hsource]
  · simp [Function.comp_def, relinked, hsource]

section

variable (source : Uid) (predicate : String) (target : Uid) (node : Uid × Vertex)

/-- A new edge changes no recorded value of any node. -/
theorem scalar?_relinked (name : String) :
    (relinked source predicate target node).2.scalar? name = node.2.scalar? name := by
  unfold relinked
  split_ifs
  · exact node.2.scalar?_link predicate target name
  · rfl

variable {predicate} in
/-- A new edge changes no other predicate of any node. -/
theorem has_relinked_of_ne {name : String} (hne : predicate ≠ name) :
    (relinked source predicate target node).2.has name = node.2.has name := by
  unfold relinked
  split_ifs
  · exact Vertex.has_link_of_ne hne node.2 target
  · rfl

end

/-- The graphs that adding nodes and edges to the empty graph leads to. -/
inductive Reachable (now : Instant) : Graph → Prop
  | empty : Reachable now (Graph.empty now)
  | insert {graph : Graph} (scalars : Json) :
    Reachable now graph → scalars.Finite → Reachable now (graph.insert scalars)
  | link {graph : Graph} (source : Uid) (predicate : String) (target : Uid) :
    Reachable now graph → Reachable now (graph.link source predicate target)

section

variable {graph : Graph} (good : List (String × Json) → Prop)
  (hgraph : ∀ uid vertex, graph.vertex? uid = some vertex → good vertex.scalars)
include hgraph

/-- What holds of the recorded values of every node holds of them with one more node, if it holds of
the values of that node. -/
theorem forall_scalars_insert {scalars : Json} (hscalars : good scalars.fields) :
    ∀ uid vertex, (graph.insert scalars).vertex? uid = some vertex → good vertex.scalars := by
  intro uid vertex hvertex
  rw [vertex?_insert] at hvertex
  split_ifs at hvertex
  · rw [← Option.some.inj hvertex]
    exact hscalars
  · exact hgraph uid vertex hvertex

/-- What holds of the recorded values of every node holds of them with one more edge. -/
theorem forall_scalars_link (source : Uid) (predicate : String) (target : Uid) :
    ∀ uid vertex, (graph.link source predicate target).vertex? uid = some vertex →
      good vertex.scalars := by
  intro uid vertex hvertex
  rw [vertex?_link] at hvertex
  split_ifs at hvertex
  · obtain ⟨before, hbefore, rfl⟩ := Option.map_eq_some_iff.mp hvertex
    exact hgraph uid before hbefore
  · exact hgraph uid vertex hvertex

end

/-- Whether every recorded value can be written in an answer. -/
def Documented (graph : Graph) : Prop :=
  ∀ uid vertex, graph.vertex? uid = some vertex → Json.FieldsFinite vertex.scalars

/-- Every graph that is made of documents holds values that can be written. -/
theorem Reachable.documented {now : Instant} {graph : Graph} (hreachable : Reachable now graph) :
    graph.Documented := by
  induction hreachable with
  | empty =>
      intro uid vertex hvertex
      cases uid <;> cases hvertex
  | insert scalars _ hfinite ih =>
      exact forall_scalars_insert Json.FieldsFinite ih (Json.fieldsFinite_fields hfinite)
  | link source predicate target _ ih =>
      exact forall_scalars_link Json.FieldsFinite ih source predicate target

/-- A recorded value can be written in an answer. -/
theorem Documented.finite_scalar {graph : Graph} (hgraph : graph.Documented) {uid : Uid}
    {vertex : Vertex} (hvertex : graph.vertex? uid = some vertex) {predicate : String}
    {value : Json} (hvalue : vertex.scalar? predicate = some value) : value.Finite :=
  Json.fieldsFinite_iff.mp (hgraph uid vertex hvertex) _ (Vertex.mem_of_scalar? hvalue)

end Graph

end PodCosts
