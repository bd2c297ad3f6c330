import PodCosts.Graph.Evaluation
import PodCosts.Json.Printer
import PodCosts.Query.Render
import PodCosts.Request.Labels
import PodCosts.Text.Utf8

/-!
# Stores

A store answers requests with bytes or with an error. It may answer differently each time it is
asked, so a store is a function of the requests that it was sent before. A lookup asks a store and
keeps a journal of the requests it sends and of the events it reports.
-/

namespace PodCosts

/-- Why a store gave no answer. -/
inductive StoreError where
  /-- The exchange with the store did not take place. -/
  | transport (reason : String)
  /-- The answer is not in the form that stores use. -/
  | malformed (reason : String)
  /-- The store refused the request. -/
  | remote (message : String)
  /-- The request cannot be evaluated. -/
  | evaluation (message : String)
deriving DecidableEq

/-- The wording of an error. -/
def StoreError.message : StoreError → String
  | .transport reason => "http error: " ++ reason
  | .malformed reason => "json error: " ++ reason
  | .remote message => "graph store rejected query: " ++ message
  | .evaluation message => "query evaluation failed: " ++ message

/-- What a store gives back: the data of its answer as a document, or an error. -/
abbrev Reply := Except StoreError (List UInt8)

/-- A store: its reply to a request, given the requests it was sent before. -/
abbrev Store := List Query → Query → Reply

/-- The reply of a graph in memory. -/
def Graph.reply (graph : Graph) (query : Query) : Reply :=
  match graph.evaluate query with
  | .ok data => .ok (Text.encode data.compact)
  | .error error => .error (.evaluation error.message)

namespace Store

/-- A graph in memory. -/
def ofGraph (graph : Graph) : Store :=
  fun _ query => graph.reply query

/-- A store that refuses every request. -/
def refusing (message : String) : Store :=
  fun _ _ => .error (.remote message)

/-- A store with prepared replies, one for each request; the last one is given again and again. -/
def prepared (first : Reply) (others : List Reply) : Store :=
  fun sent _ => (first :: others).getD sent.length (others.getLastD first)

end Store

/-- How serious an event is. -/
inductive Severity where
  | warning
  | error
deriving DecidableEq

/-- Something that is reported beside the result. Only the severity and the message are always
there. -/
structure Event where
  severity : Severity
  message : String
  /-- The question that was being answered. -/
  operation? : Option String := none
  pod? : Option String := none
  orphansOnly? : Option Bool := none
  labels? : Option LabelMap := none
  /-- The wording of what went wrong. -/
  error? : Option String := none
deriving DecidableEq

/-- What a lookup has done so far, the earliest first. -/
structure Journal where
  sent : List Query
  events : List Event

namespace Journal

/-- Nothing has been done. -/
def empty : Journal := ⟨[], []⟩

end Journal

/-- A computation that asks a store. -/
def Lookup (α : Type) := Store → Journal → α × Journal

namespace Lookup

/-- The result of a lookup that does nothing. -/
def done {α : Type} (result : α) : Lookup α :=
  fun _ journal => (result, journal)

/-- Goes on with the result of a lookup. -/
def andThen {α β : Type} (first : Lookup α) (next : α → Lookup β) : Lookup β :=
  fun store journal =>
    let (result, journal) := first store journal
    next result store journal

instance : Monad Lookup where
  pure := done
  bind := andThen

/-- What a lookup gives, and the journal when it is over. -/
def run {α : Type} (lookup : Lookup α) (store : Store) (journal : Journal) : α × Journal :=
  lookup store journal

/-- Sends a request. -/
def ask (query : Query) : Lookup Reply :=
  fun store journal =>
    (store journal.sent query, { journal with sent := journal.sent ++ [query] })

/-- Reports an event. -/
def report (event : Event) : Lookup Unit :=
  fun _ journal => ((), { journal with events := journal.events ++ [event] })

end Lookup

end PodCosts
