import PodCosts.Pod

/-!
# Hierarchies

A pod with its containers, each with the resources it asks for and what they cost. A number that is
zero is not written.
-/

namespace PodCosts

/-- A pod or a container, and what belongs to it. -/
inductive Hierarchy where
  | mk (name type : String) (children : List Hierarchy)
    (cpu memory storage cpuCost memoryCost storageCost : Float)

namespace Hierarchy

/-- The name of a node. -/
def name : Hierarchy → String
  | .mk name .. => name

/-- Whether a node is a pod or a container, as it is recorded. -/
def type : Hierarchy → String
  | .mk _ type .. => type

/-- The nodes that belong to a node. -/
def children : Hierarchy → List Hierarchy
  | .mk _ _ children .. => children

/-- What the processors of a node have cost. -/
def cpuCost : Hierarchy → Float
  | .mk _ _ _ _ _ _ cpuCost _ _ => cpuCost

/-- What the memory of a node has cost. -/
def memoryCost : Hierarchy → Float
  | .mk _ _ _ _ _ _ _ memoryCost _ => memoryCost

/-- What the storage of a node has cost. -/
def storageCost : Hierarchy → Float
  | .mk _ _ _ _ _ _ _ _ storageCost => storageCost

/-- A node of which nothing is recorded. -/
def blank : Hierarchy :=
  .mk "" "" [] 0 0 0 0 0 0

/-- The cost of a node itself, without its children. -/
def totalCost (node : Hierarchy) : Float :=
  node.cpuCost + node.memoryCost + node.storageCost

/-- A number that is written only if it is not zero. -/
def numberField (name : String) (value : Float) : List (String × Json) :=
  if value == 0 then [] else [(name, .float value)]

mutual

/-- The document of a node. -/
def toJson : Hierarchy → Json
  | .mk name type children cpu memory storage cpuCost memoryCost storageCost =>
    .object <|
      textField "name" name ++ textField "type" type ++
        (if children.isEmpty then [] else [("children", .array (toJsonAll children))]) ++
        numberField "cpu" cpu ++ numberField "memory" memory ++ numberField "storage" storage ++
        numberField "cpuCost" cpuCost ++ numberField "memoryCost" memoryCost ++
        numberField "storageCost" storageCost

/-- The documents of nodes. -/
def toJsonAll : List Hierarchy → List Json
  | [] => []
  | node :: nodes => node.toJson :: toJsonAll nodes

end

/-- The names of the fields of a node, in their order. -/
def fieldNames : List String :=
  ["name", "type", "children", "cpu", "memory", "storage", "cpuCost", "memoryCost", "storageCost"]

/-- Reads a node. Its children lie two levels deeper, in an array. -/
def ofNode? : Nat → Node → Option Hierarchy
  | 0, _ => none
  | depth + 1, node => do
    let fields ← node.fields? fieldNames
    let name ← Node.field? fields "name" "" Node.text?
    let type ← Node.field? fields "type" "" Node.text?
    let children ← Node.field? fields "children" [] fun list =>
      match depth, list with
      | inner + 1, .array items => items.mapM (ofNode? inner)
      | _, _ => none
    let number (field : String) := Node.field? fields field 0 Node.float?
    let cpu ← number "cpu"
    let memory ← number "memory"
    let storage ← number "storage"
    let cpuCost ← number "cpuCost"
    let memoryCost ← number "memoryCost"
    let storageCost ← number "storageCost"
    some (.mk name type children cpu memory storage cpuCost memoryCost storageCost)

end Hierarchy

/-- What is shown for one pod. A pod that was not found is shown as a blank node. -/
structure HierarchyView where
  data : Hierarchy

namespace HierarchyView

/-- The view of no pod. -/
def blank : HierarchyView := ⟨Hierarchy.blank⟩

/-- Whether a view shows no pod. -/
def isEmpty (view : HierarchyView) : Bool :=
  view.data.name = ""

/-- The document of a view. -/
def toJson (view : HierarchyView) : Json :=
  .object [("data", view.data.toJson)]

/-- Reads a view. Its only field has to be given. -/
def ofNode? : Nat → Node → Option HierarchyView :=
  Node.record? ["data"] fun depth fields => do
    let node ← Fields.get? "data" fields
    let data ← Hierarchy.ofNode? depth node
    some ⟨data⟩

end HierarchyView

end PodCosts
