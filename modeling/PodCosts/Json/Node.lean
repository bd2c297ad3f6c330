import PodCosts.Json.Token

/-!
# Reading documents

`Node.read?` accepts exactly the texts of the JSON grammar, nested to any depth. The result keeps
numerals and unreadable strings as they are, since only values that are asked for have to be
readable. `Node.value?` is the free value of a node; it sets the limit on how deep values may be
nested.
-/

namespace PodCosts

/-- A document as it is written. Names and strings are `none` where they are unreadable. -/
inductive Node where
  | null
  | bool (value : Bool)
  | number (value : Numeral)
  | string (text : Option String)
  | array (items : List Node)
  | object (members : List (Option String × Node))

namespace Node

/-- A container whose end has not been read, with what it holds so far backwards. An object has the
name of the member whose value comes next. -/
inductive Frame where
  | array (items : List Node)
  | object (members : List (Option String × Node)) (name : Option String)

/-- What has to come next. -/
inductive Expectation where
  | valueNext (outer : List Frame)
  /-- Behind an opening bracket: a value or the end of the array. -/
  | valueOrEnd (outer : List Frame)
  /-- Behind an opening brace: a name or the end of the object. -/
  | nameOrEnd (outer : List Frame)
  /-- Behind a comma in an object. -/
  | nameNext (members : List (Option String × Node)) (outer : List Frame)
  | colonNext (members : List (Option String × Node)) (name : Option String) (outer : List Frame)
  /-- Behind an item of an array: a comma or the end. -/
  | itemEnd (items : List Node) (outer : List Frame)
  /-- Behind a member of an object: a comma or the end. -/
  | memberEnd (members : List (Option String × Node)) (outer : List Frame)
  /-- Nothing more: the document is complete. -/
  | complete (document : Node)

namespace Expectation

/-- Puts a complete value into the innermost open container. -/
def put (node : Node) : List Frame → Expectation
  | [] => .complete node
  | .array items :: outer => .itemEnd (node :: items) outer
  | .object members name :: outer => .memberEnd ((name, node) :: members) outer

/-- The first token of a value. -/
def begin? (outer : List Frame) : Token → Option Expectation
  | .null => some (put .null outer)
  | .bool value => some (put (.bool value) outer)
  | .number value => some (put (.number value) outer)
  | .string text => some (put (.string text) outer)
  | .openArray => some (.valueOrEnd outer)
  | .openObject => some (.nameOrEnd outer)
  | _ => none

/-- Takes the next token. -/
def take? : Expectation → Token → Option Expectation
  | .valueNext outer, token => begin? outer token
  | .valueOrEnd outer, .closeArray => some (put (.array []) outer)
  | .valueOrEnd outer, token => begin? (.array [] :: outer) token
  | .nameOrEnd outer, .closeObject => some (put (.object []) outer)
  | .nameOrEnd outer, .string name => some (.colonNext [] name outer)
  | .nameNext members outer, .string name => some (.colonNext members name outer)
  | .colonNext members name outer, .colon => some (.valueNext (.object members name :: outer))
  | .itemEnd items outer, .comma => some (.valueNext (.array items :: outer))
  | .itemEnd items outer, .closeArray => some (put (.array items.reverse) outer)
  | .memberEnd members outer, .comma => some (.nameNext members outer)
  | .memberEnd members outer, .closeObject => some (put (.object members.reverse) outer)
  | _, _ => none

/-- Takes a row of tokens. -/
def takeAll? : Expectation → List Token → Option Expectation
  | expectation, [] => some expectation
  | expectation, token :: tokens => do
    let next ← take? expectation token
    takeAll? next tokens

end Expectation

/-- The document that a row of tokens is, if it is exactly one. -/
def ofTokens? (tokens : List Token) : Option Node :=
  match Expectation.takeAll? (.valueNext []) tokens with
  | some (.complete document) => some document
  | _ => none

/-- The document that a text is. -/
def ofUnits? (text : List (Option Char)) : Option Node := do
  let tokens ← Token.read? text
  ofTokens? tokens

/-- The document that a row of bytes is. -/
def read? (bytes : List UInt8) : Option Node :=
  ofUnits? (Text.decode bytes)

/-- How many arrays and objects may lie inside one another. -/
def depthLimit : Nat := 127

/-- Puts members into an object in order, so that the last of several members of one name stays. -/
def collect (members : List (String × Json)) : List (String × Json) :=
  members.foldl (fun fields member => Fields.insert member.1 member.2 fields) []

/-- The free value of a node in which at most `depth` arrays and objects lie inside one another. -/
def valueWithin? : Nat → Node → Option Json
  | _, .null => some .null
  | _, .bool value => some (.bool value)
  | _, .number value => value.value?.map .number
  | _, .string text => text.map .string
  | 0, _ => none
  | depth + 1, .array items => do
    let values ← items.mapM (valueWithin? depth)
    some (.array values)
  | depth + 1, .object members => do
    let values ← members.mapM fun member => do
      let name ← member.1
      let value ← valueWithin? depth member.2
      some (name, value)
    some (.object (collect values))

/-- The free value of a node. -/
def value? (node : Node) : Option Json :=
  valueWithin? depthLimit node

end Node

/-- The free value that a row of bytes is. -/
def Json.read? (bytes : List UInt8) : Option Json := do
  let node ← Node.read? bytes
  node.value?

end PodCosts
