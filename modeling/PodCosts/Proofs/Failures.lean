import PodCosts.Proofs.Lookup

/-!
# What lookups make of failures

A store may give any reply to any request. Views and interactions come back empty where a reply
fails, and lists come back as the error. Either way one event is reported for each failure, and none
where all is well.
-/

namespace PodCosts

/-- What an event says about a failure: how serious it is, during which operation it came up, and
how the error is worded if there was one. -/
structure Failure where
  severity : Severity
  operation? : Option String
  error? : Option String

/-- The failure that an event is about. -/
def Event.failure (event : Event) : Failure :=
  ⟨event.severity, event.operation?, event.error?⟩

namespace Journal

/-- Nothing that was reported is lost, and since then one event has been reported for each of the
given failures, in their order. -/
def Reports (before after : Journal) (failures : List Failure) : Prop :=
  ∃ events, after.events = before.events ++ events ∧ events.map Event.failure = failures

variable {before between after : Journal} {failures others : List Failure}

/-- Where no event was added there was no failure. -/
theorem reports_nil (hevents : after.events = before.events) : before.Reports after [] :=
  ⟨[], by rw [hevents, List.append_nil], rfl⟩

/-- One event was added for one failure. -/
theorem reports_event {event : Event} {failure : Failure}
    (hevents : after.events = before.events ++ [event]) (hfailure : event.failure = failure) :
    before.Reports after [failure] :=
  ⟨[event], hevents, congrArg (fun failure => [failure]) hfailure⟩

/-- Of two steps, the failures of the first one are reported first. -/
theorem Reports.trans (hfirst : before.Reports between failures)
    (hsecond : between.Reports after others) : before.Reports after (failures ++ others) := by
  obtain ⟨events, hevents, hfailures⟩ := hfirst
  obtain ⟨later, hlater, hothers⟩ := hsecond
  refine ⟨events ++ later, by rw [hlater, hevents, List.append_assoc], ?_⟩
  rw [List.map_append, hfailures, hothers]

end Journal

namespace Lookup

variable {α β : Type} (store : Store) (journal : Journal)

/-- A view is the first record of a reply, and blank where the reply has none. -/
def ShownFrom (reply : Reply) (view : HierarchyView) : Prop :=
  (∀ data others, recordsOf Request.parentBlock Hierarchy.ofNode? reply = .ok (data :: others) →
    view = ⟨data⟩) ∧
  (recordsOf Request.parentBlock Hierarchy.ofNode? reply = .ok [] → view = HierarchyView.blank) ∧
  ∀ error, recordsOf Request.parentBlock Hierarchy.ofNode? reply = .error error →
    view = HierarchyView.blank

/-- What is reported about a reply that a view is shown from: a warning where it has no record, and
an error where it failed or cannot be read. -/
def viewFailures (operation : String) (reply : Reply) : List Failure :=
  match recordsOf Request.parentBlock Hierarchy.ofNode? reply with
  | .ok (_ :: _) => []
  | .ok [] => [⟨.warning, some operation, none⟩]
  | .error error => [⟨.error, some operation, some error.message⟩]

/-- What is reported about a result: its error, if it is one. -/
def resultFailures {ε : Type} (severity : Severity) (operation? : Option String)
    (message : ε → String) : Except ε α → List Failure
  | .ok _ => []
  | .error error => [⟨severity, operation?, some (message error)⟩]

/-- A list is made of the records of a reply. It is an error exactly where the reply is one or
cannot be read, and says which of the two it was. -/
def ListedFrom (key : String) (read : Nat → Node → Option α) (made : List α → β) (reply : Reply)
    (listed : Except LookupError β) : Prop :=
  (∀ error, listed = .error (.store error) ↔ reply = .error error) ∧
  (listed = .error .decode ↔
    ∃ bytes, reply = .ok bytes ∧ Node.decode? (Node.answer? key read) bytes = none) ∧
  ∀ result, listed = .ok result ↔ ∃ bytes records, reply = .ok bytes ∧
    Node.decode? (Node.answer? key read) bytes = some records ∧ result = made records

/-- A reply without a record is shown as the blank view. -/
theorem shownFrom_blank {reply : Reply}
    (hnone : ∀ data others,
      recordsOf Request.parentBlock Hierarchy.ofNode? reply ≠ .ok (data :: others)) :
    ShownFrom reply HierarchyView.blank :=
  ⟨fun data others hok => absurd hok (hnone data others), fun _ => rfl, fun _ _ => rfl⟩

/-- A reply with records is shown by the first of them. -/
theorem shownFrom_first {reply : Reply} {data : Hierarchy} {others : List Hierarchy}
    (hfirst : recordsOf Request.parentBlock Hierarchy.ofNode? reply = .ok (data :: others)) :
    ShownFrom reply ⟨data⟩ := by
  unfold ShownFrom
  rw [hfirst]
  refine ⟨?_, ?_, ?_⟩
  · intro first rest hok
    rw [(List.cons.inj (Except.ok.inj hok)).1]
  · intro hnil
    cases hnil
  · intro error herror
    cases herror

/-- A view shows what the reply to its request holds, and reports where that is nothing. -/
theorem shownFrom_view (query : Query) (operation name : String) :
    let shown := (view query operation name).run store journal
    ShownFrom (store journal.sent query) shown.1 ∧
      journal.Reports shown.2 (viewFailures operation (store journal.sent query)) := by
  rw [view, run_bind, run_fetch, viewFailures]
  rcases hrecords : recordsOf Request.parentBlock Hierarchy.ofNode? (store journal.sent query)
    with error | _ | ⟨data, others⟩
  · exact ⟨shownFrom_blank (by simp [hrecords]), Journal.reports_event rfl rfl⟩
  · exact ⟨shownFrom_blank (by simp [hrecords]), Journal.reports_event rfl rfl⟩
  · exact ⟨shownFrom_first hrecords, Journal.reports_nil rfl⟩

/-- Without a single pod nothing is sent, and the blank view comes with a report. -/
theorem run_forSinglePod_all (operation : String) (look : String → Lookup HierarchyView) :
    let shown := (forSinglePod .all operation look).run store journal
    shown.1 = HierarchyView.blank ∧ shown.2.sent = journal.sent ∧
      journal.Reports shown.2 [⟨.error, some operation, none⟩] :=
  ⟨rfl, rfl, Journal.reports_event rfl rfl⟩

/-- A request for prices is reported where its reply fails. The operation that needs the prices is
not named. -/
theorem reports_prices (pricing : Pricing) (name : String) :
    let reply := store journal.sent (Request.priceLookup name)
    journal.Reports ((prices pricing name).run store journal).2
      (resultFailures .warning none LookupError.message
        (recordsOf Request.priceBlock Pod.ofNode? reply)) := by
  intro reply
  rw [prices, run_bind, run_fetch]
  cases recordsOf Request.priceBlock Pod.ofNode? reply with
  | ok pods => exact Journal.reports_nil rfl
  | error error => exact Journal.reports_event rfl rfl

/-- The records of a reply are an error exactly where the reply is one or cannot be read. -/
theorem listedFrom_recordsOf (key : String) (read : Nat → Node → Option α) (made : List α → β)
    (reply : Reply) : ListedFrom key read made reply ((recordsOf key read reply).map made) := by
  unfold ListedFrom
  cases reply with
  | error error => simp [recordsOf, Except.map]
  | ok bytes =>
    cases hread : Node.decode? (Node.answer? key read) bytes with
    | none => simp [recordsOf, readAnswer, hread, Except.map]
    | some records => simp [recordsOf, readAnswer, hread, Except.map, eq_comm]

/-- A list is asked for once, and an error is reported. -/
theorem listedFrom_listing (query : Query) (key : String) (read : Nat → Node → Option α)
    (made : List α → β) {event : LookupError → Event} {operation : String}
    (hevent : ∀ error, (event error).failure = ⟨.error, some operation, some error.message⟩) :
    let listed := (listing query key read made event).run store journal
    listed.2.sent = journal.sent ++ [query] ∧
      ListedFrom key read made (store journal.sent query) listed.1 ∧
      journal.Reports listed.2
        (resultFailures .error (some operation) LookupError.message listed.1) := by
  have hlisted := listedFrom_recordsOf key read made (store journal.sent query)
  rw [listing, run_bind, run_fetch]
  cases hrecords : recordsOf key read (store journal.sent query) with
  | ok records =>
    rw [hrecords] at hlisted
    exact ⟨rfl, hlisted, Journal.reports_nil rfl⟩
  | error error =>
    rw [hrecords] at hlisted
    exact ⟨rfl, hlisted, Journal.reports_event rfl (hevent error)⟩

/-- Interactions are the bytes of the reply. -/
theorem run_interactions (target : Target) (orphansOnly : Bool) :
    let query := Request.interactions target orphansOnly
    let found := (interactions target orphansOnly).run store journal
    found.2.sent = journal.sent ++ [query] ∧ found.1 = (store journal.sent query).toOption ∧
      journal.Reports found.2 (resultFailures .error (some "interactions") StoreError.message
        (store journal.sent query)) := by
  intro query
  rw [interactions, run_bind, run_ask]
  cases store journal.sent query with
  | ok bytes => exact ⟨rfl, rfl, Journal.reports_nil rfl⟩
  | error error => exact ⟨rfl, rfl, Journal.reports_event rfl rfl⟩

/-- Costs are asked for at the usual prices where the prices of the pod cannot be had. -/
theorem pricesFrom_of_error {usual : UnitPrices} {reply : Reply} {error : LookupError}
    (herror : recordsOf Request.priceBlock Pod.ofNode? reply = .error error) :
    pricesFrom usual reply = usual := by
  rw [pricesFrom, herror]

/-- A cost view asks for prices and for costs, shows what the second reply holds, and reports where
the prices or the costs cannot be had. -/
theorem run_costHierarchy_named (terms : Terms) (name : String) :
    let usual := terms.pricing.unitPrices
    let priceReply := store journal.sent (Request.priceLookup name)
    let query := Request.costHierarchy name terms.window.elapsedSeconds
      (rates terms.pricing (pricesFrom usual priceReply))
    let costReply := store (journal.sent ++ [Request.priceLookup name]) query
    let shown := (costHierarchy terms (.named name)).run store journal
    shown.2.sent = journal.sent ++ [Request.priceLookup name, query] ∧
      ShownFrom costReply shown.1 ∧
      journal.Reports shown.2
        (resultFailures .warning none LookupError.message
            (recordsOf Request.priceBlock Pod.ofNode? priceReply) ++
          viewFailures "cost_hierarchy" costReply) := by
  intro usual priceReply query costReply shown
  let priced := (prices terms.pricing name).run store journal
  obtain ⟨hprices, hsent⟩ := run_prices store journal terms.pricing name
  have hshown : shown = (view query "cost_hierarchy" name).run store priced.2 := by
    have hquery : query = Request.costHierarchy name terms.window.elapsedSeconds
        (rates terms.pricing priced.1) := by rw [show priced.1 = _ from hprices]
    rw [hquery]
    rfl
  have hview := shownFrom_view store priced.2 query "cost_hierarchy" name
  have hpriced := reports_prices store journal terms.pricing name
  rw [show priced.2.sent = _ from hsent, ← hshown] at hview
  exact ⟨sent_costHierarchy store journal terms name, hview.1, hpriced.trans hview.2⟩

/-- What becomes of the replies of an arbitrary store. Interactions are the bytes of one reply, or
nothing. Views are the first record of their reply, or blank; costs take a request for prices first,
and the usual prices hold where that one fails. Views of all pods and lookups without a label send
nothing. Lists say whether their one reply failed or could not be read. One event is reported for
each failure and none otherwise: a warning where there is no record to show and where the usual
prices stand in, and an error everywhere else, with the operation and the wording of what went
wrong. -/
theorem failures_reported (store : Store) (journal : Journal) :
    (∀ target orphansOnly,
      let query := Request.interactions target orphansOnly
      let found := (interactions target orphansOnly).run store journal
      found.2.sent = journal.sent ++ [query] ∧ found.1 = (store journal.sent query).toOption ∧
        journal.Reports found.2 (resultFailures .error (some "interactions") StoreError.message
          (store journal.sent query))) ∧
    (let shown := (hierarchy .all).run store journal
     shown.1 = HierarchyView.blank ∧ shown.2.sent = journal.sent ∧
      journal.Reports shown.2 [⟨.error, some "hierarchy", none⟩]) ∧
    (∀ name,
      let query := Request.hierarchy name
      let reply := store journal.sent query
      let shown := (hierarchy (.named name)).run store journal
      shown.2.sent = journal.sent ++ [query] ∧ ShownFrom reply shown.1 ∧
        journal.Reports shown.2 (viewFailures "hierarchy" reply)) ∧
    (∀ terms,
      let shown := (costHierarchy terms .all).run store journal
      shown.1 = HierarchyView.blank ∧ shown.2.sent = journal.sent ∧
        journal.Reports shown.2 [⟨.error, some "cost_hierarchy", none⟩]) ∧
    (∀ terms name,
      let costs := fun prices => Request.costHierarchy name terms.window.elapsedSeconds
        (rates terms.pricing prices)
      let usual := terms.pricing.unitPrices
      let priceReply := store journal.sent (Request.priceLookup name)
      let query := costs (pricesFrom usual priceReply)
      let costReply := store (journal.sent ++ [Request.priceLookup name]) query
      let shown := (costHierarchy terms (.named name)).run store journal
      shown.2.sent = journal.sent ++ [Request.priceLookup name, query] ∧
        (∀ error, recordsOf Request.priceBlock Pod.ofNode? priceReply = .error error →
          query = costs usual) ∧
        ShownFrom costReply shown.1 ∧
        journal.Reports shown.2
          (resultFailures .warning none LookupError.message
              (recordsOf Request.priceBlock Pod.ofNode? priceReply) ++
            viewFailures "cost_hierarchy" costReply)) ∧
    (∀ labels : LabelMap, labels.pairs = [] →
      let listed := (uidsByLabels labels).run store journal
      (∃ message, listed.1 = .error (.usage message)) ∧ listed.2.sent = journal.sent ∧
        journal.Reports listed.2 [⟨.error, some "uids_by_labels", none⟩]) ∧
    (∀ labels : LabelMap, labels.pairs ≠ [] → ∃ filter,
      Request.labelFilter? labels = some filter ∧
      let query := Request.labelUids filter
      let listed := (uidsByLabels labels).run store journal
      listed.2.sent = journal.sent ++ [query] ∧
        ListedFrom Request.podsBlock Pod.ofNode? Pod.distinctUids (store journal.sent query)
          listed.1 ∧
        journal.Reports listed.2
          (resultFailures .error (some "uids_by_labels") LookupError.message listed.1)) ∧
    (let listed := livePods.run store journal
     listed.2.sent = journal.sent ++ [Request.livePods] ∧
      ListedFrom Request.podsBlock Pod.ofNode? id (store journal.sent Request.livePods) listed.1 ∧
      journal.Reports listed.2
        (resultFailures .error (some "live_pods") LookupError.message listed.1)) := by
  refine ⟨run_interactions store journal, run_forSinglePod_all store journal _ _, ?_,
    fun terms => run_forSinglePod_all store journal _ _, ?_, ?_, ?_, ?_⟩
  · intro name
    have hview := shownFrom_view store journal (Request.hierarchy name) "hierarchy" name
    exact ⟨sent_view store journal _ _ _, hview.1, hview.2⟩
  · intro terms name costs usual priceReply query costReply shown
    obtain ⟨hsent, hshown, hreported⟩ := run_costHierarchy_named store journal terms name
    refine ⟨hsent, ?_, hshown, hreported⟩
    intro error herror
    have hprices : pricesFrom usual priceReply = usual := pricesFrom_of_error herror
    exact congrArg costs hprices
  · intro labels hpairs
    have hfilter : Request.labelFilter? labels = none := by
      rw [Request.labelFilter?, hpairs]
      rfl
    rw [uidsByLabels, hfilter]
    exact ⟨⟨_, rfl⟩, rfl, Journal.reports_event rfl rfl⟩
  · intro labels hpairs
    have hfilter : Request.labelFilter? labels =
        some (.or (labels.pairs.map Request.pairFilter)) := by
      rw [Request.labelFilter?, if_neg (by simpa using hpairs)]
    refine ⟨_, hfilter, ?_⟩
    rw [uidsByLabels_eq_listing hfilter]
    exact listedFrom_listing store journal _ _ _ _ fun _ => rfl
  · rw [livePods_eq_listing]
    exact listedFrom_listing store journal _ _ _ _ fun _ => rfl

end Lookup

end PodCosts
