/-!
# Predicates of the graph

The names under which pods, containers, services and labels are recorded. A marker predicate tells
the kinds of nodes apart.
-/

namespace PodCosts

/-- The kinds of nodes. -/
inductive Kind where
  | pod
  | container
  | service
  | label
deriving DecidableEq

/-- The predicate that marks the nodes of a kind. -/
def Kind.marker : Kind → String
  | .pod => "isPod"
  | .container => "isContainer"
  | .service => "isService"
  | .label => "isLabel"

namespace Predicate

/-- The name of a pod, a container or a service. -/
def name : String := "name"

/-- What a node is, in a word. -/
def type : String := "type"

/-- When a pod or a container was started. -/
def startTime : String := "startTime"

/-- When a pod or a container ended; it is missing for as long as one runs. -/
def endTime : String := "endTime"

/-- How many cores are asked for. -/
def cpuRequest : String := "cpuRequest"

/-- How much memory is asked for, in GB. -/
def memoryRequest : String := "memoryRequest"

/-- How much storage is asked for, in GB. -/
def storageRequest : String := "storageRequest"

/-- The price of a core for an hour, for a pod that has its own. -/
def cpuPrice : String := "cpuPrice"

/-- The price of a GB of memory for an hour, for a pod that has its own. -/
def memoryPrice : String := "memoryPrice"

/-- How often two pods have talked to each other. -/
def interactionCount : String := "count"

/-- The key of a label. -/
def labelKey : String := "key"

/-- The value of a label. -/
def labelValue : String := "value"

/-- The edge from a container to its pod, from a pod to the pods it talks to, and from a service to
the pods it selects. The marker of the node at the other end tells these apart. -/
def podEdge : String := "pod"

/-- The edge from a pod to its labels. -/
def labelEdge : String := "label"

end Predicate

end PodCosts
