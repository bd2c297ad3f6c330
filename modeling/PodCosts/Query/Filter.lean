import PodCosts.Text.Joined
import PodCosts.Text.Quoted

/-!
# Filters of a query

Filters pick nodes by their predicates. The only strings that callers choose stand as quoted
literals behind `eq`, so no caller can change the shape of a request.
-/

namespace PodCosts

/-- A condition on a node. -/
inductive Filter where
  /-- The node has the predicate. -/
  | has (predicate : String)
  /-- The predicate holds exactly this string. -/
  | eq (predicate value : String)
  | not (filter : Filter)
  | and (filters : List Filter)
  | or (filters : List Filter)

namespace Filter

/-- Whether a filter is put into parentheses inside another one. A list of at most one filter is
not, because it stands for that filter. -/
def isCompound : Filter → Bool
  | .not _ => true
  | .and filters | .or filters => 1 < filters.length
  | .has _ | .eq _ _ => false

/-- Puts the text of a filter into parentheses where it is compound. -/
def asOperand (filter : Filter) (text : String) : String :=
  if filter.isCompound then "(" ++ text ++ ")" else text

mutual

/-- The text of a filter. -/
def text : Filter → String
  | .has predicate => "has(" ++ predicate ++ ")"
  | .eq predicate value => "eq(" ++ predicate ++ ", " ++ Text.quote value ++ ")"
  | .not filter => "NOT " ++ asOperand filter filter.text
  | .and filters => Text.joined " AND " (operandTexts filters)
  | .or filters => Text.joined " OR " (operandTexts filters)

/-- The texts of filters inside another one. -/
def operandTexts : List Filter → List String
  | [] => []
  | filter :: filters => asOperand filter filter.text :: operandTexts filters

end

end Filter

example : (Filter.not (.or [.has "a", .and [.has "b"]])).text = "NOT (has(a) OR has(b))" := by
  decide +kernel

end PodCosts
