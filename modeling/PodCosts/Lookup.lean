import PodCosts.Prices
import PodCosts.Request.Labels

/-!
# Lookups

The questions that can be asked about pods. Views are shown as well as can be: a view that cannot be
had is reported and comes back empty. Lists that a caller goes on to work with come back as an error
instead, since an empty list would be taken for an answer.
-/

namespace PodCosts

/-- The prices and the clock that lookups use. -/
structure Terms where
  pricing : Pricing
  now : Instant

namespace Terms

/-- The current month. -/
def window (terms : Terms) : Window :=
  Window.currentMonth terms.now

end Terms

namespace Event

/-- The event about a lookup by label that failed. -/
def labelsFailed (labels : LabelMap) (error : LookupError) : Event :=
  { severity := .error, message := "label lookup failed", operation? := some "uids_by_labels",
    labels? := some labels, error? := some error.message }

/-- The event about the list of pods that have not ended, where it cannot be had. -/
def livePodsFailed (error : LookupError) : Event :=
  { severity := .error, message := "live pod enumeration failed",
    operation? := some "live_pods", error? := some error.message }

end Event

namespace Lookup

/-- The pods that a target talks to and that talk to it, as the store answers them. -/
def interactions (target : Target) (orphansOnly : Bool) : Lookup (Option (List UInt8)) := do
  match ← ask (Request.interactions target orphansOnly) with
  | .ok bytes => pure (some bytes)
  | .error error =>
    report
      { severity := .error, message := "failed to retrieve pod interactions",
        operation? := some "interactions", pod? := some target.text,
        orphansOnly? := some orphansOnly, error? := some error.message }
    pure none

/-- The first record of an answer as a view. -/
def view (query : Query) (operation name : String) : Lookup HierarchyView := do
  match ← fetch query Request.parentBlock Hierarchy.ofNode? with
  | .ok (data :: _) => pure ⟨data⟩
  | .ok [] =>
    report
      { severity := .warning, message := "no pod found for hierarchy request",
        operation? := some operation, pod? := some name }
    pure HierarchyView.blank
  | .error error =>
    report
      { severity := .error, message := "hierarchy request failed", operation? := some operation,
        pod? := some name, error? := some error.message }
    pure HierarchyView.blank

/-- Looks at a single pod. For all pods at once nothing is sent. -/
def forSinglePod (target : Target) (operation : String)
    (look : String → Lookup HierarchyView) : Lookup HierarchyView := do
  match target with
  | .named name => look name
  | .all =>
    report
      { severity := .error, message := "request needs a single pod name, got the wildcard target",
        operation? := some operation }
    pure HierarchyView.blank

/-- A pod with its containers. -/
def hierarchy (target : Target) : Lookup HierarchyView :=
  forSinglePod target "hierarchy" fun name => view (Request.hierarchy name) "hierarchy" name

/-- The prices by which costs are worked out. -/
def rates (pricing : Pricing) (prices : UnitPrices) : Rates :=
  ⟨prices.cpu, prices.memory, some pricing.storagePerGbHour⟩

/-- A pod with its containers and their costs. Its prices are looked up first. -/
def costHierarchy (terms : Terms) (target : Target) : Lookup HierarchyView :=
  forSinglePod target "cost_hierarchy" fun name => do
    let unitPrices ← prices terms.pricing name
    let query :=
      Request.costHierarchy name terms.window.elapsedSeconds (rates terms.pricing unitPrices)
    view query "cost_hierarchy" name

/-- The numbers of the pods that carry any of the labels. -/
def uidsByLabels (labels : LabelMap) : Lookup (Except LookupError (List String)) := do
  match Request.labelFilter? labels with
  | none =>
    report
      { severity := .error, message := "request needs at least one key=value label pair",
        operation? := some "uids_by_labels" }
    pure (.error (.usage "label filter needs at least one key=value pair"))
  | some filter =>
    match ← fetch (Request.labelUids filter) Request.podsBlock Pod.ofNode? with
    | .ok pods => pure (.ok (Pod.distinctUids pods))
    | .error error =>
      report (.labelsFailed labels error)
      pure (.error error)

/-- The pods that have not ended. -/
def livePods : Lookup (Except LookupError (List Pod)) := do
  match ← fetch Request.livePods Request.podsBlock Pod.ofNode? with
  | .ok pods => pure (.ok pods)
  | .error error =>
    report (.livePodsFailed error)
    pure (.error error)

end Lookup

end PodCosts
