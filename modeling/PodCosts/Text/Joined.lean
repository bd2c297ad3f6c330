/-!
# Joined texts
-/

namespace PodCosts.Text

/-- The texts in order, with a separator between each two. -/
def joined (separator : String) : List String → String
  | [] => ""
  | [text] => text
  | text :: next :: rest => text ++ separator ++ joined separator (next :: rest)

example : joined ", " ["a", "b", "c"] = "a, b, c" ∧ joined ", " [] = "" := by decide

end PodCosts.Text
