import PodCosts.Json.Printer
import PodCosts.Json.Record
import PodCosts.Time.Timestamp

/-!
# Pod records

Pods as a store answers them. A field without a value is not written: an empty string, an empty list
or an absent option reads back as the default it stands for.
-/

namespace PodCosts

/-- A pod that another pod talks to. -/
structure Interaction where
  name : String
  count : Float

/-- A service that selects a pod. -/
structure ServiceRef where
  name : String
deriving DecidableEq

/-- A pod. -/
structure Pod where
  uid : String
  name : String
  startTime : Option Instant
  endTime : Option Instant
  cpuPrice : Option Float
  memoryPrice : Option Float
  interactions : List Interaction
  services : List ServiceRef

/-- A field that is written only if there is a value. -/
def optionalField {α : Type} (name : String) (write : α → Json) (value? : Option α) :
    List (String × Json) :=
  match value? with
  | some value => [(name, write value)]
  | none => []

/-- A field that is written only if the list has an item. -/
def listField {α : Type} (name : String) (write : α → Json) (items : List α) :
    List (String × Json) :=
  if items.isEmpty then [] else [(name, .array (items.map write))]

/-- A field that is written only if the string is not empty. -/
def textField (name text : String) : List (String × Json) :=
  if text = "" then [] else [(name, .string text)]

/-- A double in a document. -/
def Json.float (value : Float) : Json :=
  .number (.float value)

/-- An instant in a document. -/
def Json.time (value : Instant) : Json :=
  .string (Timestamp.text value)

/-- A time of a record. -/
def Node.time? (node : Node) : Option Instant := do
  let text ← node.text?
  Timestamp.readLenient? text

namespace Interaction

/-- The document of an interaction. -/
def toJson (interaction : Interaction) : Json :=
  .object [("name", .string interaction.name), ("count", .float interaction.count)]

/-- Reads an interaction. -/
def ofNode? : Nat → Node → Option Interaction :=
  Node.record? ["name", "count"] fun _ fields => do
    let name ← Node.field? fields "name" "" Node.text?
    let count ← Node.field? fields "count" 0 Node.float?
    some ⟨name, count⟩

end Interaction

namespace ServiceRef

/-- The document of a service. -/
def toJson (service : ServiceRef) : Json :=
  .object [("name", .string service.name)]

/-- Reads a service. -/
def ofNode? : Nat → Node → Option ServiceRef :=
  Node.record? ["name"] fun _ fields => do
    let name ← Node.field? fields "name" "" Node.text?
    some ⟨name⟩

end ServiceRef

namespace Pod

/-- A pod of which nothing is recorded. -/
def blank : Pod := ⟨"", "", none, none, none, none, [], []⟩

/-- Whether a pod has not ended. -/
def isLive (pod : Pod) : Bool :=
  pod.endTime.isNone

/-- The document of a pod. -/
def toJson (pod : Pod) : Json :=
  .object <|
    textField "uid" pod.uid ++ [("name", .string pod.name)] ++
      optionalField "startTime" Json.time pod.startTime ++
      optionalField "endTime" Json.time pod.endTime ++
      optionalField "cpuPrice" Json.float pod.cpuPrice ++
      optionalField "memoryPrice" Json.float pod.memoryPrice ++
      listField "pod" Interaction.toJson pod.interactions ++
      listField "cid" ServiceRef.toJson pod.services

/-- The names of the fields of a pod, in their order. -/
def fieldNames : List String :=
  ["uid", "name", "startTime", "endTime", "cpuPrice", "memoryPrice", "pod", "cid"]

/-- Reads a pod. -/
def ofNode? : Nat → Node → Option Pod :=
  Node.record? fieldNames fun depth fields => do
    let uid ← Node.field? fields "uid" "" Node.text?
    let name ← Node.field? fields "name" "" Node.text?
    let startTime ← Node.field? fields "startTime" none (Node.optional? Node.time?)
    let endTime ← Node.field? fields "endTime" none (Node.optional? Node.time?)
    let cpuPrice ← Node.field? fields "cpuPrice" none (Node.optional? Node.float?)
    let memoryPrice ← Node.field? fields "memoryPrice" none (Node.optional? Node.float?)
    let interactions ← Node.field? fields "pod" [] (Node.list? Interaction.ofNode? depth)
    let services ← Node.field? fields "cid" [] (Node.list? ServiceRef.ofNode? depth)
    some ⟨uid, name, startTime, endTime, cpuPrice, memoryPrice, interactions, services⟩

/-- The numbers of the pods, each where it stands first. Names need not be unique, so only the
number decides. -/
def distinctUids (pods : List Pod) : List String :=
  go [] (pods.map Pod.uid)
where
  /-- The strings that are neither in `seen` nor earlier in the list. -/
  go (seen : List String) : List String → List String
    | [] => []
    | uid :: uids => if seen.contains uid then go seen uids else uid :: go (uid :: seen) uids

end Pod

/-- Reads a record that is a whole document. -/
def Node.decode? {α : Type} (read : Nat → Node → Option α) (bytes : List UInt8) : Option α := do
  let node ← Node.read? bytes
  read Node.depthLimit node

end PodCosts
