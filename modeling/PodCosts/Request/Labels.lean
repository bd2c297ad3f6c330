import PodCosts.Json.Basic
import PodCosts.Request.Topology

/-!
# Requests by label

Labels are given as pairs of a key and a value. They are grouped by key, keys ascending, and a pod
is wanted if it carries any of the pairs.
-/

namespace PodCosts

/-- The values wanted of each key, keys ascending. -/
abbrev LabelMap := List (String × List String)

namespace LabelMap

/-- Adds a pair. The values of a key stay in the order in which they are given. -/
def add (labels : LabelMap) (pair : String × String) : LabelMap :=
  Fields.insert pair.1 ((Fields.get? pair.1 labels).getD [] ++ [pair.2]) labels

/-- Groups pairs by key. -/
def ofPairs (pairs : List (String × String)) : LabelMap :=
  pairs.foldl add []

/-- The pairs of a label map, by key. -/
def pairs (labels : LabelMap) : List (String × String) :=
  labels.flatMap fun entry => entry.2.map fun value => (entry.1, value)

end LabelMap

namespace Request

open Selection (predicate edge)

/-- The variable that gathers the pods of the wanted labels. -/
def labeledPods : String := "podUIDs"

/-- A label with the key and the value of a pair. -/
def pairFilter (pair : String × String) : Filter :=
  .and [.eq Predicate.labelKey pair.1, .eq Predicate.labelValue pair.2]

/-- A label with any of the wanted pairs; there is none to want without a pair. -/
def labelFilter? (labels : LabelMap) : Option Filter :=
  if labels.pairs.isEmpty then none else some (.or (labels.pairs.map pairFilter))

/-- The pods of the labels that pass a filter. The first block gathers them and the second answers
each of them once. -/
def labelUids (filter : Filter) : Query :=
  ⟨[ Block.silent (allOf .label) (some filter)
      [edge (.bound labeledPods) (.backward Predicate.labelEdge) (some (.has Kind.pod.marker))
        [nameOnly]],
    ⟨podsBlock, .uid labeledPods, none, [.uid .plain, nameOnly]⟩ ]⟩

end Request

end PodCosts
