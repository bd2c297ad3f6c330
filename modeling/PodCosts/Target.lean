import PodCosts.Text.Blank

/-!
# Targets

A request is about one pod, given by its name, or about all of them.
-/

namespace PodCosts

/-- The pods a request is about. -/
inductive Target where
  | all
  | named (name : String)
deriving DecidableEq

namespace Target

/-- The word that stands for all pods. -/
def allWord : String := "all"

/-- Reads a target. A blank text stands for all pods too, and a name is trimmed. -/
def ofText (text : String) : Target :=
  let name := Text.trim text
  if name = "" ∨ name = allWord then .all else .named name

/-- The name of the pod, if the target is a single one. -/
def name? : Target → Option String
  | .all => none
  | .named name => some name

/-- The text of a target. -/
def text : Target → String
  | .all => allWord
  | .named name => name

end Target

end PodCosts
