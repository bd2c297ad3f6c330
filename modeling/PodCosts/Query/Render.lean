import PodCosts.Query.Basic

/-!
# The text of a query

A query is written with one selection a line, indented by two spaces for every level of braces.
-/

namespace PodCosts

/-- A line at a depth. -/
def indented (depth : Nat) (text : String) : String :=
  String.ofList (List.replicate (2 * depth) ' ') ++ text

namespace Root

/-- The text of the nodes a block starts from. -/
def text : Root → String
  | .has predicate => "has(" ++ predicate ++ ")"
  | .uid varName => "uid(" ++ varName ++ ")"

end Root

namespace Tag

/-- What a tag puts in front of a selection. -/
def text (tag : Tag) : String :=
  (match tag.rename? with
    | some newName => newName ++ ": "
    | none => "") ++
  (match tag.bind? with
    | some varName => varName ++ " as "
    | none => "")

end Tag

namespace Filter

/-- A filter behind what it filters. -/
def clause : Option Filter → String
  | some filter => " @filter(" ++ filter.text ++ ")"
  | none => ""

end Filter

namespace Selection

mutual

/-- The lines of a selection at a depth. -/
def lines (depth : Nat) : Selection → List String
  | .uid tag => [indented depth (tag.text ++ "uid")]
  | .predicate tag name => [indented depth (tag.text ++ name)]
  | .count tag counted => [indented depth (tag.text ++ "count(" ++ counted ++ ")")]
  | .math tag expr => [indented depth (tag.text ++ "math(" ++ expr.text ++ ")")]
  | .edge tag path filter? selections =>
    indented depth (tag.text ++ path.text ++ Filter.clause filter? ++ " \x7b") ::
      (linesOfAll (depth + 1) selections ++ [indented depth "\x7d"])

/-- The lines of selections at a depth. -/
def linesOfAll (depth : Nat) : List Selection → List String
  | [] => []
  | selection :: selections => selection.lines depth ++ linesOfAll depth selections

end

end Selection

namespace Block

/-- The lines of a block. -/
def lines (block : Block) : List String :=
  indented 1 (block.name ++ "(func: " ++ block.root.text ++ ")" ++ Filter.clause block.filter? ++
    " \x7b") ::
    (Selection.linesOfAll 2 block.selections ++ [indented 1 "\x7d"])

end Block

namespace Query

/-- The text that is sent to a store. -/
def text (query : Query) : String :=
  Text.joined "\n" ("query \x7b" :: (query.blocks.flatMap Block.lines ++ ["\x7d"]))

end Query

end PodCosts
