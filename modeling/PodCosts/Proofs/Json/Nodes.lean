import PodCosts.Json.Node

/-!
# Rows of tokens of documents

`Node.tokens` is the row of tokens that a document is written as. Taking that row leads from the
place where a value has to come next to the place behind that value, whatever is open around it and
whatever follows.
-/

namespace PodCosts.Node

mutual

/-- The tokens of a document. -/
def tokens : Node → List Token
  | .null => [.null]
  | .bool value => [.bool value]
  | .number value => [.number value]
  | .string text => [.string text]
  | .array [] => [.openArray, .closeArray]
  | .array (item :: items) => .openArray :: (item.tokens ++ (furtherItems items ++ [.closeArray]))
  | .object [] => [.openObject, .closeObject]
  | .object ((name, node) :: members) =>
    .openObject :: .string name :: .colon ::
      (node.tokens ++ (furtherMembers members ++ [.closeObject]))

/-- The tokens of the items behind the first one of an array. -/
def furtherItems : List Node → List Token
  | [] => []
  | item :: items => .comma :: (item.tokens ++ furtherItems items)

/-- The tokens of the members behind the first one of an object. -/
def furtherMembers : List (Option String × Node) → List Token
  | [] => []
  | (name, node) :: members =>
    .comma :: .string name :: .colon :: (node.tokens ++ furtherMembers members)

end

open Expectation (take? takeAll? put)

/-- A token that is taken is followed by the others. -/
theorem takeAll?_cons {expectation next : Expectation} {token : Token}
    (htake : take? expectation token = some next) (rest : List Token) :
    takeAll? expectation (token :: rest) = takeAll? next rest := by
  rw [takeAll?, htake]
  rfl

/-- Where an array may end, a value is taken as its first item. -/
theorem takeAll?_valueOrEnd (node : Node) (outer : List Frame) (rest : List Token) :
    takeAll? (.valueOrEnd outer) (node.tokens ++ rest) =
      takeAll? (.valueNext (.array [] :: outer)) (node.tokens ++ rest) := by
  cases node with
  | array items => cases items <;> rfl
  | object members =>
      cases members with
      | nil => rfl
      | cons member members => rfl
  | _ => rfl

mutual

/-- The tokens of a document are taken as that document. -/
theorem takeAll?_tokens (node : Node) (outer : List Frame) (rest : List Token) :
    takeAll? (.valueNext outer) (node.tokens ++ rest) = takeAll? (put node outer) rest := by
  match node with
  | .null => rfl
  | .bool value => rfl
  | .number value => rfl
  | .string text => rfl
  | .array [] => rfl
  | .array (item :: items) =>
      have hopen : take? (.valueNext outer) .openArray = some (.valueOrEnd outer) := rfl
      rw [tokens, List.cons_append, takeAll?_cons hopen, List.append_assoc, takeAll?_valueOrEnd,
        takeAll?_tokens item, List.append_assoc]
      exact takeAll?_furtherItems items [item] outer rest
  | .object [] => rfl
  | .object ((name, node) :: members) =>
      have hopen : take? (.valueNext outer) .openObject = some (.nameOrEnd outer) := rfl
      have hname : take? (.nameOrEnd outer) (.string name) = some (.colonNext [] name outer) := rfl
      have hcolon : take? (.colonNext [] name outer) .colon =
          some (.valueNext (.object [] name :: outer)) := rfl
      rw [tokens, List.cons_append, takeAll?_cons hopen, List.cons_append, takeAll?_cons hname,
        List.cons_append, takeAll?_cons hcolon, List.append_assoc, takeAll?_tokens node,
        List.append_assoc]
      exact takeAll?_furtherMembers members [(name, node)] outer rest

/-- Further items and the end of the array complete it. -/
theorem takeAll?_furtherItems (items held : List Node) (outer : List Frame) (rest : List Token) :
    takeAll? (.itemEnd held outer) (furtherItems items ++ ([.closeArray] ++ rest)) =
      takeAll? (put (.array (held.reverse ++ items)) outer) rest := by
  match items with
  | [] => rw [List.append_nil]; rfl
  | item :: items =>
      have hcomma : take? (.itemEnd held outer) .comma = some (.valueNext (.array held :: outer)) :=
        rfl
      rw [furtherItems, List.cons_append, takeAll?_cons hcomma, List.append_assoc,
        takeAll?_tokens item]
      refine (takeAll?_furtherItems items (item :: held) outer rest).trans ?_
      rw [List.reverse_cons, List.append_assoc, List.singleton_append]

/-- Further members and the end of the object complete it. -/
theorem takeAll?_furtherMembers (members held : List (Option String × Node)) (outer : List Frame)
    (rest : List Token) :
    takeAll? (.memberEnd held outer) (furtherMembers members ++ ([.closeObject] ++ rest)) =
      takeAll? (put (.object (held.reverse ++ members)) outer) rest := by
  match members with
  | [] => rw [List.append_nil]; rfl
  | (name, node) :: members =>
      have hcomma : take? (.memberEnd held outer) .comma = some (.nameNext held outer) := rfl
      have hname : take? (.nameNext held outer) (.string name) =
          some (.colonNext held name outer) := rfl
      have hcolon : take? (.colonNext held name outer) .colon =
          some (.valueNext (.object held name :: outer)) := rfl
      rw [furtherMembers, List.cons_append, takeAll?_cons hcomma, List.cons_append,
        takeAll?_cons hname, List.cons_append, takeAll?_cons hcolon, List.append_assoc,
        takeAll?_tokens node]
      refine (takeAll?_furtherMembers members ((name, node) :: held) outer rest).trans ?_
      rw [List.reverse_cons, List.append_assoc, List.singleton_append]

end

/-- The tokens of a document are read as that document. -/
theorem ofTokens?_tokens (node : Node) : ofTokens? node.tokens = some node := by
  have htake := takeAll?_tokens node [] []
  rw [List.append_nil] at htake
  rw [ofTokens?, htake]
  rfl

end PodCosts.Node
