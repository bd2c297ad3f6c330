import PodCosts.Json.Basic
import PodCosts.Query.Basic
import PodCosts.Time.Instant

/-!
# Graphs

A graph holds nodes with scalar values and named edges. Nodes are numbered from one in the order in
which they are added and never removed. An edge may point at a number that no node has yet.
-/

namespace PodCosts

/-- The number of a node. -/
abbrev Uid := Nat

/-- The text of the number of a node, in hexadecimal digits. -/
def Uid.text (uid : Uid) : String :=
  String.ofList ('0' :: 'x' :: Nat.toDigits 16 uid)

/-- A node of a graph. -/
structure Vertex where
  scalars : List (String × Json)
  /-- The targets of each edge, in the order in which they were linked. -/
  edges : List (String × List Uid)

namespace Vertex

/-- A value other than null. -/
def scalar? (vertex : Vertex) (predicate : String) : Option Json :=
  match Fields.get? predicate vertex.scalars with
  | some .null => none
  | found => found

/-- The targets of an edge. -/
def targets (vertex : Vertex) (predicate : String) : List Uid :=
  (Fields.get? predicate vertex.edges).getD []

/-- Whether a node has a value or an edge under a predicate. -/
def has (vertex : Vertex) (predicate : String) : Bool :=
  (vertex.scalar? predicate).isSome || !(vertex.targets predicate).isEmpty

/-- One for a value, and otherwise the number of edges under a predicate. -/
def count (vertex : Vertex) (predicate : String) : Nat :=
  if (vertex.scalar? predicate).isSome then 1 else (vertex.targets predicate).length

/-- Adds a target to an edge. -/
def link (vertex : Vertex) (predicate : String) (target : Uid) : Vertex :=
  { vertex with
    edges := Fields.insert predicate (vertex.targets predicate ++ [target]) vertex.edges }

end Vertex

/-- A graph, and the time against which durations are measured in it. -/
structure Graph where
  now : Instant
  /-- The nodes by number, the node with number one first. -/
  vertices : List Vertex

namespace Graph

/-- The graph without nodes. -/
def empty (now : Instant) : Graph := ⟨now, []⟩

/-- The numbers of the nodes, ascending. -/
def uids (graph : Graph) : List Uid :=
  List.range' 1 graph.vertices.length

/-- The node with a number. -/
def vertex? (graph : Graph) : Uid → Option Vertex
  | 0 => none
  | index + 1 => graph.vertices[index]?

/-- The number the next node will get. -/
def nextUid (graph : Graph) : Uid :=
  graph.vertices.length + 1

/-- Adds a node with the fields of an object; any other value gives a node without fields. -/
def insert (graph : Graph) (scalars : Json) : Graph :=
  let fields :=
    match scalars with
    | .object fields => fields
    | _ => []
  { graph with vertices := graph.vertices ++ [⟨fields, []⟩] }

/-- Adds an edge. Nothing happens when there is no source. -/
def link (graph : Graph) (source : Uid) (predicate : String) (target : Uid) : Graph :=
  match source with
  | 0 => graph
  | index + 1 =>
    { graph with
      vertices := graph.vertices.modify index fun vertex => vertex.link predicate target }

end Graph

namespace Filter

mutual

/-- Whether a node passes a filter. -/
def accepts (vertex : Vertex) : Filter → Bool
  | .has predicate => vertex.has predicate
  | .eq predicate value =>
    match Fields.get? predicate vertex.scalars with
    | some (.string held) => held == value
    | _ => false
  | .not filter => !accepts vertex filter
  | .and filters => acceptsAll vertex filters
  | .or filters => acceptsAny vertex filters

/-- Whether a node passes every filter of a list. -/
def acceptsAll (vertex : Vertex) : List Filter → Bool
  | [] => true
  | filter :: filters => accepts vertex filter && acceptsAll vertex filters

/-- Whether a node passes some filter of a list. -/
def acceptsAny (vertex : Vertex) : List Filter → Bool
  | [] => false
  | filter :: filters => accepts vertex filter || acceptsAny vertex filters

end

/-- Whether a node passes a filter, if there is one. -/
def admits (filter? : Option Filter) (vertex : Vertex) : Bool :=
  match filter? with
  | some filter => filter.accepts vertex
  | none => true

end Filter

namespace Graph

/-- The nodes that have a predicate, ascending. -/
def withPredicate (graph : Graph) (predicate : String) : List Uid :=
  graph.uids.filter fun uid =>
    match graph.vertex? uid with
    | some vertex => vertex.has predicate
    | none => false

/-- The nodes at the near end of the edges that point at a node, ascending and each once. -/
def sources (graph : Graph) (predicate : String) (target : Uid) : List Uid :=
  graph.uids.filter fun uid =>
    match graph.vertex? uid with
    | some vertex => (vertex.targets predicate).contains target
    | none => false

/-- The nodes at the far end of the edges of a node, in the order in which they were linked. -/
def destinations (graph : Graph) (predicate : String) (source : Uid) : List Uid :=
  match graph.vertex? source with
  | some vertex => vertex.targets predicate
  | none => []

/-- The existing nodes that a path leads to from a node and that pass a filter. -/
def neighbours (graph : Graph) (uid : Uid) (path : EdgePath) (filter? : Option Filter) :
    List Uid :=
  let candidates :=
    if path.reverse then graph.sources path.predicate uid
    else graph.destinations path.predicate uid
  candidates.filter fun candidate =>
    match graph.vertex? candidate with
    | some vertex => Filter.admits filter? vertex
    | none => false

end Graph

example : Uid.text 255 = "0xff" := by decide +kernel

end PodCosts
