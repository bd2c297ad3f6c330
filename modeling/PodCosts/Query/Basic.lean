import PodCosts.Query.Expr
import PodCosts.Query.Filter

/-!
# Queries

A query is a list of blocks. Each block starts from a set of nodes, keeps those that pass its filter
and selects from each of them, following edges in either direction. Queries are plain values; the
text that is sent to a store is made from them at the very end.
-/

namespace PodCosts

/-- The nodes a block starts from. -/
inductive Root where
  /-- All nodes with a predicate. -/
  | has (predicate : String)
  /-- The nodes that an edge of an earlier block has gathered in a variable. -/
  | uid (varName : String)
deriving DecidableEq

/-- An edge and the direction in which it is followed. -/
structure EdgePath where
  predicate : String
  reverse : Bool
deriving DecidableEq

/-- The name a selection has in the answer, and the variable it is bound to. -/
structure Tag where
  rename? : Option String
  bind? : Option String
deriving DecidableEq

/-- What is selected from a node. -/
inductive Selection where
  | uid (tag : Tag)
  | predicate (tag : Tag) (name : String)
  | count (tag : Tag) (predicate : String)
  | math (tag : Tag) (expr : Expr Float)
  | edge (tag : Tag) (path : EdgePath) (filter? : Option Filter) (selections : List Selection)

/-- A part of a query, with the name under which its nodes are answered. -/
structure Block where
  name : String
  root : Root
  filter? : Option Filter
  selections : List Selection

/-- A request to a graph store. -/
structure Query where
  blocks : List Block

namespace EdgePath

/-- An edge followed from its source. -/
def forward (predicate : String) : EdgePath := ⟨predicate, false⟩

/-- An edge followed from its target. -/
def backward (predicate : String) : EdgePath := ⟨predicate, true⟩

/-- The text of a path: a tilde marks the reverse direction. -/
def text (path : EdgePath) : String :=
  if path.reverse then "~" ++ path.predicate else path.predicate

end EdgePath

namespace Tag

/-- Neither renamed nor bound. -/
def plain : Tag := ⟨none, none⟩

/-- Renamed in the answer. -/
def named (newName : String) : Tag := ⟨some newName, none⟩

/-- Bound to a variable. -/
def bound (varName : String) : Tag := ⟨none, some varName⟩

/-- Renamed and bound. -/
def both (newName varName : String) : Tag := ⟨some newName, some varName⟩

end Tag

namespace Selection

/-- The tag of a selection. -/
def tag : Selection → Tag
  | .uid tag | .predicate tag _ | .count tag _ | .math tag _ | .edge tag _ _ _ => tag

/-- The name of a selection that is not renamed. A computed number has none and only feeds
variables. -/
def ownKey? : Selection → Option String
  | .uid _ => some "uid"
  | .predicate _ name => some name
  | .count _ counted => some ("count(" ++ counted ++ ")")
  | .math _ _ => none
  | .edge _ path _ _ => some path.text

/-- The name under which a selection is answered, if it is answered at all. -/
def key? (selection : Selection) : Option String :=
  selection.tag.rename?.orElse fun _ => selection.ownKey?

end Selection

namespace Block

/-- The name of blocks that only bind variables and are not answered. -/
def silentName : String := "var"

/-- A block that only binds variables. -/
def silent (root : Root) (filter? : Option Filter) (selections : List Selection) : Block :=
  ⟨silentName, root, filter?, selections⟩

/-- Whether a block is left out of the answer. -/
def isSilent (block : Block) : Bool :=
  block.name == silentName

end Block

end PodCosts
