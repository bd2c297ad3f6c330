import PodCosts.Hierarchy
import PodCosts.Settings.Basic
import PodCosts.Store
import PodCosts.Text.Joined

/-!
# Stores behind a server

A request is posted to the server of a store as text. The server answers with a record that holds
the data, or the errors that kept it from finding any; only the data is passed on.
-/

namespace PodCosts

/-- What is sent to a server. -/
structure Post where
  url : String
  contentType : String
  body : String
deriving DecidableEq

/-- What a server answers. -/
structure Response where
  status : Nat
  body : List UInt8
deriving DecidableEq, Inhabited

/-- A way to reach a server: its answer, given what was sent before, or why there is none. -/
abbrev Connection := List Post → Post → Except String Response

namespace Connection

/-- A way to reach a server whose answers are known beforehand. -/
def replaying (known : List (Except String Response)) : Connection :=
  fun sent _ => known.getD sent.length (.error "the server has not been asked")

end Connection

namespace Response

/-- Whether the status says that all is well. -/
def isSuccess (response : Response) : Bool :=
  200 ≤ response.status && response.status < 300

/-- What the body says: the data, if there is any, and the messages of the errors. -/
structure Content where
  data : Option Json
  errors : List String

/-- Reads the message of an error. -/
def errorMessage? : Nat → Node → Option String :=
  Node.record? ["message"] fun _ fields => Node.field? fields "message" "" Node.text?

/-- Reads what a body says. -/
def content? : Nat → Node → Option Content :=
  Node.record? ["data", "errors"] fun depth fields => do
    let data ← Node.field? fields "data" none (Node.optional? (Node.valueWithin? depth))
    let errors ← Node.field? fields "errors" [] (Node.list? errorMessage? depth)
    some ⟨data, errors⟩

/-- The wording of a bare status. -/
def statusText (response : Response) : String :=
  "status " ++ toString response.status

/-- The data of a response, or why it has none. A response without data but with a good status
stands for an empty object. -/
def reply (response : Response) : Reply :=
  match Node.decode? content? response.body with
  | none =>
    if response.isSuccess then .error (.malformed "the body is not a record of data and errors")
    else
      .error (.remote (response.statusText ++ ": " ++
        String.ofList (Text.trimChars (Text.decodeLossy response.body))))
  | some content =>
    if !content.errors.isEmpty then .error (.remote (Text.joined "; " content.errors))
    else if !response.isSuccess then .error (.remote response.statusText)
    else .ok (Text.encode (content.data.getD (.object [])).compact)

end Response

namespace Store

/-- Where the store at an endpoint takes requests. -/
def queryUrl (endpoint : String) : String :=
  trimEndpoint endpoint ++ "/query"

/-- How a request is sent to the store at an endpoint. -/
def post (endpoint : String) (query : Query) : Post :=
  ⟨queryUrl endpoint, "application/dql", query.text⟩

/-- The store at an endpoint. -/
def remote (connection : Connection) (endpoint : String) : Store :=
  fun sent query =>
    match connection (sent.map (post endpoint)) (post endpoint query) with
    | .ok response => response.reply
    | .error reason => .error (.transport reason)

end Store

end PodCosts
