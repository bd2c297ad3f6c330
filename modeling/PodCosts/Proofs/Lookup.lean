import PodCosts.Lookup

/-!
# What lookups send

A lookup is followed step by step through its journal. Views and prices send their requests whatever
the store replies; what the lookups give back depends on the replies only.
-/

namespace PodCosts.Lookup

variable {α β : Type} (store : Store) (journal : Journal)

/-- A lookup goes on with the result and the journal of the one before it. -/
theorem run_bind (first : Lookup α) (next : α → Lookup β) :
    (first >>= next).run store journal =
      (next (first.run store journal).1).run store (first.run store journal).2 :=
  rfl

/-- Asking a store appends the request to what has been sent. -/
theorem run_ask (query : Query) :
    (ask query).run store journal =
      (store journal.sent query, { journal with sent := journal.sent ++ [query] }) :=
  rfl

/-- The records of a reply. -/
def recordsOf (key : String) (read : Nat → Node → Option α) :
    Reply → Except LookupError (List α)
  | .ok bytes => readAnswer key read bytes
  | .error error => .error (.store error)

/-- Sending a request and reading its answer. -/
theorem run_fetch (query : Query) (key : String) (read : Nat → Node → Option α) :
    (fetch query key read).run store journal =
      (recordsOf key read (store journal.sent query),
        { journal with sent := journal.sent ++ [query] }) := by
  rw [fetch, run_bind, run_ask]
  cases store journal.sent query <;> rfl

/-- A view sends its request once. -/
theorem sent_view (query : Query) (operation name : String) :
    ((view query operation name).run store journal).2.sent = journal.sent ++ [query] := by
  rw [view, run_bind, run_fetch]
  obtain error | _ | ⟨data, others⟩ :=
    recordsOf Request.parentBlock Hierarchy.ofNode? (store journal.sent query) <;> rfl

/-- The prices that a reply to the request for prices comes to. -/
def pricesFrom (usual : UnitPrices) (reply : Reply) : UnitPrices :=
  match recordsOf Request.priceBlock Pod.ofNode? reply with
  | .ok pods => mergedPrices usual pods
  | .error _ => usual

/-- The prices of a pod take one request. -/
theorem run_prices (pricing : Pricing) (name : String) :
    ((prices pricing name).run store journal).1 =
        pricesFrom pricing.unitPrices (store journal.sent (Request.priceLookup name)) ∧
      ((prices pricing name).run store journal).2.sent =
        journal.sent ++ [Request.priceLookup name] := by
  rw [prices, run_bind, run_fetch, pricesFrom]
  cases recordsOf Request.priceBlock Pod.ofNode?
    (store journal.sent (Request.priceLookup name)) <;> exact ⟨rfl, rfl⟩

/-- A cost view asks for the prices of the pod first and then for its costs at those prices. -/
theorem sent_costHierarchy (terms : Terms) (name : String) :
    ((costHierarchy terms (.named name)).run store journal).2.sent =
      journal.sent ++
        [ Request.priceLookup name,
          Request.costHierarchy name terms.window.elapsedSeconds
            (rates terms.pricing (pricesFrom terms.pricing.unitPrices
              (store journal.sent (Request.priceLookup name)))) ] := by
  obtain ⟨hprices, hsent⟩ := run_prices store journal terms.pricing name
  rw [costHierarchy, forSinglePod]
  dsimp only
  rw [run_bind, sent_view, hprices, hsent, List.append_assoc]
  rfl

/-- Asking for a list, and reporting an event where it cannot be had. -/
def listing (query : Query) (key : String) (read : Nat → Node → Option α) (made : List α → β)
    (event : LookupError → Event) : Lookup (Except LookupError β) := do
  match ← fetch query key read with
  | .ok records => pure (.ok (made records))
  | .error error =>
    report (event error)
    pure (.error error)

/-- The lookup by label lists the distinct numbers in the answer to its request. -/
theorem uidsByLabels_eq_listing {labels : LabelMap} {filter : Filter}
    (hfilter : Request.labelFilter? labels = some filter) :
    uidsByLabels labels =
      listing (Request.labelUids filter) Request.podsBlock Pod.ofNode? Pod.distinctUids
        (.labelsFailed labels) := by
  rw [uidsByLabels, hfilter, listing]
  dsimp only
  congr 1
  funext records
  cases records <;> rfl

/-- The lookup of live pods lists the records in the answer to its request. -/
theorem livePods_eq_listing :
    livePods = listing Request.livePods Request.podsBlock Pod.ofNode? id .livePodsFailed := by
  rw [livePods, listing]
  congr 1
  funext records
  cases records <;> rfl

/-- A list is made of the records of the reply. -/
theorem run_listing (query : Query) (key : String) (read : Nat → Node → Option α)
    (made : List α → β) (event : LookupError → Event) :
    ((listing query key read made event).run store journal).1 =
      (recordsOf key read (store journal.sent query)).map made := by
  rw [listing, run_bind, run_fetch]
  cases recordsOf key read (store journal.sent query) <;> rfl

/-- A lookup by label gives back the numbers of the records. -/
theorem run_uidsByLabels {labels : LabelMap} {filter : Filter}
    (hfilter : Request.labelFilter? labels = some filter) :
    ((uidsByLabels labels).run store journal).1 =
      (recordsOf Request.podsBlock Pod.ofNode?
        (store journal.sent (Request.labelUids filter))).map Pod.distinctUids := by
  rw [uidsByLabels_eq_listing hfilter, run_listing]

/-- The lookup for the pods that have not ended gives back the records as they are. -/
theorem run_livePods :
    (livePods.run store journal).1 =
      recordsOf Request.podsBlock Pod.ofNode? (store journal.sent Request.livePods) := by
  rw [livePods_eq_listing, run_listing, Except.map_id]
  rfl

end PodCosts.Lookup
