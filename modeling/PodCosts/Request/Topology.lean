import PodCosts.Request.Cost
import PodCosts.Target

/-!
# Requests about pods

The requests behind each command: who talks to whom, what a pod consists of, what it costs, which
prices it has of its own, and which pods are running.
-/

namespace PodCosts.Request

open Selection (predicate edge)

/-- The block that answers several pods. -/
def podsBlock : String := "pods"

/-- The block that answers one pod with what belongs to it. -/
def parentBlock : String := "parent"

/-- The block that answers the prices of one pod. -/
def priceBlock : String := "pod"

/-- All nodes of a kind. -/
def allOf (kind : Kind) : Root :=
  .has kind.marker

/-- The name of a node. -/
def nameOnly : Selection :=
  predicate .plain Predicate.name

/-- The nodes of a kind that point at a pod. -/
def pointingAtPod (tag : Tag) (kind : Kind) (selections : List Selection) : Selection :=
  edge tag (.backward Predicate.podEdge) (some (.has kind.marker)) selections

/-- The pods a request about interactions is about. Of all pods it asks either for those that talk
to no pod or for those that do; a single pod is asked for in both cases. -/
def interactionFilter (target : Target) (orphansOnly : Bool) : Filter :=
  match target with
  | .all => if orphansOnly then .not (.has Predicate.podEdge) else .has Predicate.podEdge
  | .named name => .eq Predicate.name name

/-- Pods with the pods they talk to and the pods that talk to them. -/
def interactions (target : Target) (orphansOnly : Bool) : Query :=
  ⟨[⟨podsBlock, allOf .pod, some (interactionFilter target orphansOnly),
    [ nameOnly,
      edge (.named "outbound") (.forward Predicate.podEdge) none [nameOnly],
      pointingAtPod (.named "inbound") .pod [nameOnly] ]⟩]⟩

/-- One pod with its name, its type and further selections. -/
def parent (name : String) (selections : List Selection) : Query :=
  ⟨[⟨parentBlock, allOf .pod, some (.eq Predicate.name name),
    [nameOnly, predicate .plain Predicate.type] ++ selections⟩]⟩

/-- The containers of a pod with their names, their types and further selections. -/
def children (selections : List Selection) : Selection :=
  pointingAtPod (.named "children") .container
    ([nameOnly, predicate .plain Predicate.type] ++ selections)

/-- A pod with its containers. -/
def hierarchy (name : String) : Query :=
  parent name [children []]

/-- A pod with its containers, and what they cost. Storage is charged to the pod alone. -/
def costHierarchy (name : String) (window : Float) (rates : Rates) : Query :=
  parent name
    (children (costSelections .child window { rates with storage := none }) ::
      costSelections .parent window rates)

/-- The prices a pod has of its own. -/
def priceLookup (name : String) : Query :=
  ⟨[⟨priceBlock, allOf .pod, some (.eq Predicate.name name),
    [predicate .plain Predicate.cpuPrice, predicate .plain Predicate.memoryPrice]⟩]⟩

/-- The pods that have not ended, with the pods they talk to and the services that select them. -/
def livePods : Query :=
  ⟨[⟨podsBlock, allOf .pod, some (.not (.has Predicate.endTime)),
    [ nameOnly,
      edge .plain (.forward Predicate.podEdge) none
        [nameOnly, predicate .plain Predicate.interactionCount],
      pointingAtPod (.named "cid") .service [nameOnly] ]⟩]⟩

end PodCosts.Request
