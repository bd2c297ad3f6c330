import PodCosts.Proofs.Graph.Selecting
import PodCosts.Request.Topology

/-!
# Pods and their containers

The pods of a name and the containers of a pod, read off the nodes of a graph, are what the request
for one pod visits.
-/

namespace PodCosts

namespace Vertex

/-- The string a node records under a predicate. -/
def text? (vertex : Vertex) (predicate : String) : Option String :=
  match vertex.scalar? predicate with
  | some (.string text) => some text
  | _ => none

/-- A node records a string under a predicate, or nothing. -/
def TextOrNothing (vertex : Vertex) (predicate : String) : Prop :=
  (vertex.scalar? predicate).isSome → (vertex.text? predicate).isSome

instance (vertex : Vertex) (predicate : String) : Decidable (vertex.TextOrNothing predicate) :=
  inferInstanceAs (Decidable (_ → _))

/-- Only a string is read as a string. -/
theorem scalar?_of_text {vertex : Vertex} {predicate : String}
    (htext : vertex.TextOrNothing predicate) {value : Json}
    (hvalue : vertex.scalar? predicate = some value) : ∃ text, value = .string text := by
  have hread : (vertex.text? predicate).isSome := htext (by rw [hvalue]; rfl)
  rw [text?, hvalue] at hread
  cases value with
  | string text => exact ⟨text, rfl⟩
  | _ => cases hread

end Vertex

/-- A predicate holds exactly the string that is recorded under it. -/
theorem Filter.accepts_eq (vertex : Vertex) (predicate value : String) :
    Filter.accepts vertex (.eq predicate value) = (vertex.text? predicate == some value) := by
  rw [accepts, Vertex.text?, Vertex.scalar?]
  cases hfound : Fields.get? predicate vertex.scalars with
  | none => rfl
  | some found => cases found <;> rfl

namespace Graph

/-- The pods of a name, ascending. -/
def podsNamed (graph : Graph) (name : String) : List (Uid × Vertex) :=
  graph.nodes.filter fun node =>
    node.2.has Kind.pod.marker && node.2.text? Predicate.name == some name

/-- The containers of a pod, ascending. -/
def containersOf (graph : Graph) (pod : Uid) : List (Uid × Vertex) :=
  graph.nodes.filter fun node =>
    (node.2.targets Predicate.podEdge).contains pod && node.2.has Kind.container.marker

/-- A block over the pods of a name selects from each of them. -/
theorem runBlock_podsNamed (graph : Graph) (gathered : Gathered) (block name : String)
    (selections : List Selection) :
    graph.runBlock gathered
        ⟨block, Request.allOf .pod, some (.eq Predicate.name name), selections⟩ =
      (graph.podsNamed name).mapM fun node =>
        Selection.pickAll graph node.1 node.2 Picked.nothing selections := by
  rw [podsNamed, Request.allOf, runBlock_has]
  simp only [Filter.admits, Filter.accepts_eq]

/-- The nodes of a kind that point at a pod, ascending. -/
def pointingAt (graph : Graph) (kind : Kind) (pod : Uid) : List (Uid × Vertex) :=
  graph.nodes.filter fun node =>
    (node.2.targets Predicate.podEdge).contains pod && node.2.has kind.marker

/-- The path to the nodes of a kind that point at a pod leads to them. -/
theorem adjacent_pointingAt (graph : Graph) (kind : Kind) (pod : Uid) :
    graph.adjacent pod (.backward Predicate.podEdge) (some (.has kind.marker)) =
      graph.pointingAt kind pod := by
  rw [adjacent_backward, pointingAt]
  simp only [Filter.admits, Filter.accepts]

/-- The path to the containers of a pod leads to them. -/
theorem adjacent_containers (graph : Graph) (pod : Uid) :
    graph.adjacent pod (.backward Predicate.podEdge) (some (.has Kind.container.marker)) =
      graph.containersOf pod :=
  graph.adjacent_pointingAt .container pod

end Graph

end PodCosts
