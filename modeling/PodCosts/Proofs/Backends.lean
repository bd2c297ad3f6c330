import PodCosts.Lookup
import PodCosts.Proofs.Failures
import PodCosts.Proofs.Graph.Ordered
import PodCosts.Proofs.Responses

/-!
# One graph in memory and behind a server

What a lookup does depends on the replies to its requests only. A server that answers each of them
with what a graph finds is therefore as good as the graph itself.
-/

namespace PodCosts

namespace Lookup

variable {α β : Type}

/-- Whether a lookup depends on the replies to the requests it sends and on nothing else. -/
def ByReplies (lookup : Lookup α) : Prop :=
  ∀ store journal, ∃ asked, (lookup.run store journal).2.sent = journal.sent ++ asked ∧
    ∀ other : Store, (∀ query ∈ asked, ∀ sent, other sent query = store sent query) →
      lookup.run other journal = lookup.run store journal

/-- A result that is there without asking depends on no reply. -/
theorem byReplies_pure (result : α) : ByReplies (pure result) := by
  intro store journal
  exact ⟨[], (List.append_nil _).symm, fun _ _ => rfl⟩

/-- Reporting an event depends on no reply. -/
theorem byReplies_report (event : Event) : ByReplies (report event) := by
  intro store journal
  exact ⟨[], (List.append_nil _).symm, fun _ _ => rfl⟩

/-- Asking a store depends on its reply to the request. -/
theorem byReplies_ask (query : Query) : ByReplies (ask query) := by
  intro store journal
  refine ⟨[query], rfl, fun other hsame => ?_⟩
  rw [run_ask, run_ask, hsame query List.mem_cons_self]

/-- A lookup that goes on with what another one has found depends on the replies to both. -/
theorem ByReplies.bind {first : Lookup α} {next : α → Lookup β} (hfirst : first.ByReplies)
    (hnext : ∀ result, (next result).ByReplies) : (first >>= next).ByReplies := by
  intro store journal
  obtain ⟨asked, hsent, hsame⟩ := hfirst store journal
  obtain ⟨later, hlater, hsameLater⟩ :=
    hnext (first.run store journal).1 store (first.run store journal).2
  refine ⟨asked ++ later, ?_, fun other hboth => ?_⟩
  · rw [run_bind, hlater, hsent, List.append_assoc]
  · have hrun := hsame other fun query hquery => hboth query (List.mem_append_left _ hquery)
    have hrest := hsameLater other fun query hquery => hboth query (List.mem_append_right _ hquery)
    rw [run_bind, hrun, hrest, run_bind]

/-- The records of an answer depend on the reply to their request. -/
theorem byReplies_fetch (query : Query) (key : String) (read : Nat → Node → Option α) :
    (fetch query key read).ByReplies := by
  refine (byReplies_ask query).bind fun reply => ?_
  cases reply with
  | ok bytes => exact byReplies_pure _
  | error error => exact byReplies_pure _

/-- A view depends on the reply to its request. -/
theorem byReplies_view (query : Query) (operation name : String) :
    (view query operation name).ByReplies := by
  refine (byReplies_fetch query Request.parentBlock Hierarchy.ofNode?).bind fun found => ?_
  rcases found with error | _ | ⟨data, others⟩
  · exact (byReplies_report _).bind fun _ => byReplies_pure _
  · exact (byReplies_report _).bind fun _ => byReplies_pure _
  · exact byReplies_pure _

/-- A view of one pod depends on the replies that the view of each pod depends on. -/
theorem byReplies_forSinglePod (target : Target) (operation : String)
    {look : String → Lookup HierarchyView} (hlook : ∀ name, (look name).ByReplies) :
    (forSinglePod target operation look).ByReplies := by
  cases target with
  | named name => exact hlook name
  | all => exact (byReplies_report _).bind fun _ => byReplies_pure _

/-- The prices of a pod depend on the reply to the request for them. -/
theorem byReplies_prices (pricing : Pricing) (name : String) :
    (prices pricing name).ByReplies := by
  refine (byReplies_fetch (Request.priceLookup name) Request.priceBlock Pod.ofNode?).bind ?_
  intro found
  cases found with
  | ok pods => exact byReplies_pure _
  | error error => exact (byReplies_report _).bind fun _ => byReplies_pure _

/-- A list that is read from an answer depends on the reply to its request. -/
theorem byReplies_listing (query : Query) (key : String) (read : Nat → Node → Option α)
    (made : List α → β) (event : LookupError → Event) :
    (listing query key read made event).ByReplies := by
  refine (byReplies_fetch query key read).bind fun found => ?_
  cases found with
  | ok records => exact byReplies_pure _
  | error error => exact (byReplies_report _).bind fun _ => byReplies_pure _

/-- The questions that can be asked about pods. -/
inductive Question (terms : Terms) : {α : Type} → Lookup α → Prop
  | interactions (target : Target) (orphansOnly : Bool) :
    Question terms (interactions target orphansOnly)
  | hierarchy (target : Target) : Question terms (hierarchy target)
  | costHierarchy (target : Target) : Question terms (costHierarchy terms target)
  | prices (name : String) : Question terms (prices terms.pricing name)
  | uidsByLabels (labels : LabelMap) : Question terms (uidsByLabels labels)
  | livePods : Question terms livePods

/-- Every question depends on the replies to its requests only. -/
theorem Question.byReplies {terms : Terms} {lookup : Lookup α} (h : Question terms lookup) :
    lookup.ByReplies := by
  cases h with
  | interactions target orphansOnly =>
    refine (byReplies_ask _).bind fun reply => ?_
    cases reply with
    | ok bytes => exact byReplies_pure _
    | error error => exact (byReplies_report _).bind fun _ => byReplies_pure _
  | hierarchy target =>
    exact byReplies_forSinglePod target _ fun name => byReplies_view _ _ name
  | costHierarchy target =>
    refine byReplies_forSinglePod target _ fun name => ?_
    exact (byReplies_prices terms.pricing name).bind fun _ => byReplies_view _ _ name
  | prices name => exact byReplies_prices terms.pricing name
  | uidsByLabels labels =>
    cases hfilter : Request.labelFilter? labels with
    | none =>
      rw [Lookup.uidsByLabels, hfilter]
      exact (byReplies_report _).bind fun _ => byReplies_pure _
    | some filter =>
      rw [uidsByLabels_eq_listing hfilter]
      exact byReplies_listing _ _ _ _ _
  | livePods =>
    rw [livePods_eq_listing]
    exact byReplies_listing _ _ _ _ _

end Lookup

/-- Whether the server at an endpoint answers a request with what a graph finds, as a document that
comes back as it is. -/
def Connection.Serves (connection : Connection) (endpoint : String) (graph : Graph)
    (query : Query) : Prop :=
  ∃ data, graph.evaluate query = .ok data ∧ data.NumbersSurvive ∧
    (Json.object [("data", data)]).depth ≤ Node.depthLimit ∧
    ∀ sent, ∃ response, connection sent (Store.post endpoint query) = .ok response ∧
      response.status = 200 ∧ response.Carries data

namespace Store

/-- A server that answers a request with what a graph finds replies as the graph does. -/
theorem remote_eq_reply {graph : Graph} (hgraph : graph.Ordered) {connection : Connection}
    {endpoint : String} {query : Query} (hserves : connection.Serves endpoint graph query)
    (sent : List Query) : remote connection endpoint sent query = graph.reply query := by
  obtain ⟨data, hevaluate, hnumbers, hdepth, hanswer⟩ := hserves
  obtain ⟨response, hresponse, hstatus, hcarries⟩ := hanswer (sent.map (post endpoint))
  obtain ⟨hordered, fields, rfl⟩ := hgraph.evaluate hevaluate
  have hreply := (Response.reply_of_carries hstatus hcarries hordered hnumbers).mpr hdepth
  rw [remote, hresponse, Graph.reply, hevaluate]
  exact hreply

/-- Only the data of a response with a good status and without errors is passed on, a response is at
fault exactly where its status is good and its body is no record, and all others are refusals. A
document within the limit on nesting comes back as the text that a graph in memory would give, so
every question is answered alike by a graph and by a server that answers as the graph does. -/
theorem remote_faithful :
    (∀ response : Response,
      (∀ bytes, response.reply = .ok bytes ↔
        (200 ≤ response.status ∧ response.status < 300) ∧
          ∃ content, Node.decode? Response.content? response.body = some content ∧
            content.errors = [] ∧ bytes = content.bytes) ∧
      ((∃ reason, response.reply = .error (.malformed reason)) ↔
        (200 ≤ response.status ∧ response.status < 300) ∧
          Node.decode? Response.content? response.body = none) ∧
      ((∃ message, response.reply = .error (.remote message)) ↔
        ¬((200 ≤ response.status ∧ response.status < 300) ∧
          ∀ content ∈ Node.decode? Response.content? response.body, content.errors = []))) ∧
    (∀ (response : Response) (fields : List (String × Json)), response.status = 200 →
      response.Carries (.object fields) → (Json.object fields).Ordered →
      (Json.object fields).NumbersSurvive →
      (response.reply = .ok (Text.encode (Json.object fields).compact) ↔
        (Json.object [("data", .object fields)]).depth ≤ Node.depthLimit) ∧
      ∀ (graph : Graph) (query : Query), graph.evaluate query = .ok (.object fields) →
        (Json.object [("data", .object fields)]).depth ≤ Node.depthLimit →
        response.reply = graph.reply query) ∧
    ∀ (terms : Terms) (graph : Graph) (connection : Connection) (endpoint : String)
      (journal : Journal) {α : Type} (lookup : Lookup α), Lookup.Question terms lookup →
      graph.Ordered →
      (∀ query ∈ (lookup.run (ofGraph graph) journal).2.sent.drop journal.sent.length,
        connection.Serves endpoint graph query) →
      lookup.run (remote connection endpoint) journal = lookup.run (ofGraph graph) journal := by
  refine ⟨fun response => ?_, ?_, ?_⟩
  · have hsuccess : response.isSuccess = true ↔
        200 ≤ response.status ∧ response.status < 300 := by
      simp [Response.isSuccess]
    rw [← hsuccess]
    exact response.reply_iff
  · intro response fields hstatus hcarries hordered hnumbers
    have hreply := Response.reply_of_carries hstatus hcarries hordered hnumbers
    refine ⟨hreply, fun graph query hevaluate hdepth => ?_⟩
    rw [Graph.reply, hevaluate]
    exact hreply.mpr hdepth
  · intro terms graph connection endpoint journal α lookup hquestion hgraph hserves
    obtain ⟨asked, hsent, hsame⟩ := hquestion.byReplies (ofGraph graph) journal
    rw [hsent, List.drop_left] at hserves
    exact hsame _ fun query hquery sent => remote_eq_reply hgraph (hserves query hquery) sent

/-- The pods that have not ended, from a graph and from a server that says more than it has to. -/
theorem remote_faithful_livePods :
    let db : Json := .object [("count", .number (.int 7)),
      ("endTime", .string "2026-10-19T11:00:00Z"), ("isPod", .bool true), ("name", .string "db")]
    let web : Json := .object [("isPod", .bool true), ("name", .string "web")]
    let graph := (Graph.empty ⟨20745, 43200, 0, by decide, by decide, by decide⟩).after
      [.insert db, .insert web, .link 2 "pod" 1]
    let data : Json := .object [("pods", .array [.object [("name", .string "web"),
      ("pod", .array [.object [("count", .number (.int 7)), ("name", .string "db")]])]])]
    let response : Response := ⟨200, Text.encode (Json.object [("data", data),
      ("extensions", .object [("server_latency", .object [])])]).compact⟩
    graph.Ordered ∧ data.Ordered ∧ data.NumbersSurvive ∧ response.Carries data ∧
      response.reply = graph.reply Request.livePods ∧
      Lookup.livePods.run (remote (fun _ _ => .ok response) "http://costs:8080") Journal.empty =
        Lookup.livePods.run (ofGraph graph) Journal.empty := by
  intro db web graph data response
  have hdb : db.Ordered := by
    refine Json.ordered_object_iff.mpr ⟨by unfold Fields.Sorted; decide +kernel, ?_⟩
    simp [Json.ordered_number, Json.ordered_string, Json.ordered_bool]
  have hweb : web.Ordered := by
    refine Json.ordered_object_iff.mpr ⟨by unfold Fields.Sorted; decide +kernel, ?_⟩
    simp [Json.ordered_string, Json.ordered_bool]
  have hgraph : graph.Ordered := by
    refine Graph.ordered_after _ fun scalars hscalars => ?_
    simp only [List.mem_cons, Graph.Change.insert.injEq, reduceCtorEq, List.not_mem_nil,
      or_false] at hscalars
    rcases hscalars with rfl | rfl
    · exact hdb
    · exact hweb
  have hcount : (Json.number (.int 7)).NumbersSurvive :=
    Json.numbersSurvive_number (Number.survives_int (by decide) (by decide))
  have hevaluate : graph.evaluate Request.livePods = .ok data := rfl
  obtain ⟨hordered, -⟩ := hgraph.evaluate hevaluate
  have hnumbers : data.NumbersSurvive := by
    simp [data, Json.numbersSurvive_object_iff, Json.numbersSurvive_array_iff,
      Json.numbersSurvive_string, hcount]
  have hcarries : response.Carries data := by
    refine Response.carries_compact ?_ (by decide) (by decide)
    exact ⟨⟨⟨⟨trivial, ⟨⟨trivial, trivial, trivial⟩, trivial⟩, trivial⟩, trivial⟩, trivial⟩,
      ⟨trivial, trivial⟩, trivial⟩
  have hdepth : (Json.object [("data", data)]).depth ≤ Node.depthLimit := by decide
  obtain ⟨-, hcarried, hquestions⟩ := remote_faithful
  have hreply := (hcarried response _ rfl hcarries hordered hnumbers).2 graph Request.livePods
    hevaluate hdepth
  refine ⟨hgraph, hordered, hnumbers, hcarries, hreply, ?_⟩
  refine hquestions ⟨Pricing.standard, graph.now⟩ graph _ _ Journal.empty Lookup.livePods .livePods
    hgraph ?_
  have hsent : (Lookup.livePods.run (ofGraph graph) Journal.empty).2.sent = [Request.livePods] := by
    rw [Lookup.livePods_eq_listing]
    exact (Lookup.listedFrom_listing (ofGraph graph) Journal.empty _ _ _ _ fun _ => rfl).1
  rw [hsent]
  rintro query hquery
  rw [List.mem_singleton.mp hquery]
  exact ⟨data, hevaluate, hnumbers, hdepth, fun sent => ⟨response, rfl, rfl, hcarries⟩⟩

end Store

end PodCosts
