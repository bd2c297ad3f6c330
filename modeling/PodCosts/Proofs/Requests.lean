import PodCosts.Proofs.Failures
import PodCosts.Run
import Mathlib.Tactic.SplitIfs

/-!
# Shown requests are sent requests

A command can be carried out or its request can be shown. The two go separate ways to the name of a
pod, but they come to the same request. Only costs are shown at the usual prices and asked for at
the prices of the pod.
-/

namespace PodCosts

/-- The name of a single pod is the trimmed text. -/
theorem Target.eq_trim_of_ofText {text pod : String} (hnamed : ofText text = .named pod) :
    pod = Text.trim text := by
  unfold ofText at hnamed
  dsimp only at hnamed
  split_ifs at hnamed
  exact (Target.named.inj hnamed).symm

/-- Requests for costs differ only where the prices do. -/
theorem Request.costHierarchy_inj {name : String} {window : Float} {pricing : Pricing}
    {prices others : UnitPrices} :
    costHierarchy name window (Lookup.rates pricing prices) =
      costHierarchy name window (Lookup.rates pricing others) ↔ prices = others := by
  constructor
  · intro heq
    have hblocks := congrArg Query.blocks heq
    simp only [costHierarchy, parent, children, pointingAtPod, costSelections, Lookup.rates, cost,
      List.cons.injEq, Block.mk.injEq, List.append_assoc, List.append_cancel_left_eq,
      List.cons_append, Selection.edge.injEq, Selection.math.injEq, Expr.binary.injEq,
      Expr.literal.injEq, and_true, true_and] at hblocks
    obtain ⟨⟨hcpu, hmemory⟩, -⟩ := hblocks
    cases prices
    cases others
    rw [UnitPrices.mk.injEq]
    exact ⟨hcpu, hmemory⟩
  · rintro rfl
    rfl

namespace Command

variable (terms : Terms) (store : Store) (journal : Journal)

/-- A single pod is found by its trimmed name, which is the name of the target. -/
theorem singlePod_eq_ok {name pod : String} (hnamed : Target.ofText name = .named pod) :
    singlePod name = .ok pod := by
  rw [singlePod, hnamed, Target.eq_trim_of_ofText hnamed]

/-- There is no single pod where all of them are meant. -/
theorem singlePod_eq_error {name : String} (hall : Target.ofText name = .all) :
    singlePod name = .error (.needsSinglePod name) := by
  rw [singlePod, hall]

/-- A request about a single pod is shown exactly if there is one. -/
theorem exists_pod_of_singlePod {name pod : String} (hok : singlePod name = .ok pod) :
    Target.ofText name = .named pod := by
  cases htarget : Target.ofText name with
  | all =>
    rw [singlePod_eq_error htarget] at hok
    cases hok
  | named found =>
    rw [singlePod_eq_ok htarget] at hok
    rw [Except.ok.inj hok]

/-- What is sent by the lookup of a command. -/
def lookupSent : Command → List Query
  | .interactions name orphans =>
    ((Lookup.interactions (Target.ofText name) orphans).run store journal).2.sent
  | .hierarchy name => ((Lookup.hierarchy (Target.ofText name)).run store journal).2.sent
  | .metrics name => ((Lookup.costHierarchy terms (Target.ofText name)).run store journal).2.sent
  | .labels pairs => ((Lookup.uidsByLabels (LabelMap.ofPairs pairs)).run store journal).2.sent
  | .livePods => (Lookup.livePods.run store journal).2.sent

/-- A command sends what its lookup sends. -/
theorem sent_run (command : Command) :
    ((command.run terms).run store journal).2.sent = command.lookupSent terms store journal := by
  cases command with
  | interactions name orphans => rfl
  | hierarchy name =>
    rw [run, Lookup.run_bind, carryOut, Lookup.run_bind, lookupSent]
    generalize (Lookup.hierarchy (Target.ofText name)).run store journal = found
    rfl
  | metrics name =>
    rw [run, Lookup.run_bind, carryOut, Lookup.run_bind, lookupSent]
    generalize (Lookup.costHierarchy terms (Target.ofText name)).run store journal = found
    rfl
  | labels pairs => rfl
  | livePods => rfl

/-- Without a request to show nothing is sent. -/
theorem sent_of_request_error {command : Command} {error : CommandError}
    (herror : command.request terms = .error error) :
    ((command.run terms).run store journal).2.sent = journal.sent := by
  cases command with
  | interactions name orphans => cases herror
  | hierarchy name =>
    cases htarget : Target.ofText name with
    | all =>
      rw [sent_run, lookupSent, htarget]
      rfl
    | named pod =>
      rw [request, singlePod_eq_ok htarget] at herror
      cases herror
  | metrics name =>
    cases htarget : Target.ofText name with
    | all =>
      rw [sent_run, lookupSent, htarget]
      rfl
    | named pod =>
      rw [request, singlePod_eq_ok htarget] at herror
      cases herror
  | labels pairs =>
    rw [sent_run, lookupSent]
    cases hfilter : Request.labelFilter? (LabelMap.ofPairs pairs) with
    | none =>
      rw [Lookup.uidsByLabels, hfilter]
      rfl
    | some filter =>
      rw [request, hfilter] at herror
      cases herror
  | livePods => cases herror

/-- A request that is shown is sent, unless it is about costs. -/
theorem sent_of_request {command : Command} {query : Query}
    (hok : command.request terms = .ok query) (hcosts : ∀ name, command ≠ .metrics name) :
    ((command.run terms).run store journal).2.sent = journal.sent ++ [query] := by
  cases command with
  | interactions name orphans =>
    rw [← Except.ok.inj hok]
    exact (Lookup.run_interactions store journal (Target.ofText name) orphans).1
  | hierarchy name =>
    cases hpod : singlePod name with
    | error error =>
      rw [request, hpod] at hok
      cases hok
    | ok pod =>
      rw [request, hpod] at hok
      rw [← Except.ok.inj hok, sent_run, lookupSent, exists_pod_of_singlePod hpod]
      exact Lookup.sent_view store journal _ _ _
  | metrics name => exact absurd rfl (hcosts name)
  | labels pairs =>
    rw [sent_run, lookupSent]
    cases hfilter : Request.labelFilter? (LabelMap.ofPairs pairs) with
    | none =>
      rw [request, hfilter] at hok
      cases hok
    | some filter =>
      rw [request, hfilter] at hok
      rw [← Except.ok.inj hok, Lookup.uidsByLabels_eq_listing hfilter]
      exact (Lookup.listedFrom_listing store journal _ _ _ _ fun _ => rfl).1
  | livePods =>
    rw [sent_run, lookupSent, ← Except.ok.inj hok, Lookup.livePods_eq_listing]
    exact (Lookup.listedFrom_listing store journal _ _ _ _ fun _ => rfl).1

/-- Costs are shown at the usual prices and asked for at the prices that were looked up. -/
theorem sent_of_request_metrics {name : String} {query : Query}
    (hok : (Command.metrics name).request terms = .ok query) :
    ∃ pod, Target.ofText name = .named pod ∧
      query = Request.costHierarchy pod terms.window.elapsedSeconds
        (Lookup.rates terms.pricing terms.pricing.unitPrices) ∧
      ((Command.run terms (.metrics name)).run store journal).2.sent =
        journal.sent ++ [Request.priceLookup pod,
          Request.costHierarchy pod terms.window.elapsedSeconds (Lookup.rates terms.pricing
            ((Lookup.prices terms.pricing pod).run store journal).1)] := by
  cases hpod : singlePod name with
  | error error =>
    rw [request, hpod] at hok
    cases hok
  | ok pod =>
    rw [request, hpod] at hok
    have htarget := exists_pod_of_singlePod hpod
    refine ⟨pod, htarget, (Except.ok.inj hok).symm, ?_⟩
    rw [(Lookup.run_prices store journal terms.pricing pod).1, sent_run, lookupSent, htarget]
    exact Lookup.sent_costHierarchy store journal terms pod

/-- Showing the request of a command asks no store and shows the text that would be posted. Where
there is no request to show, carrying out the command sends nothing. Where there is one, it is the
last that is sent, except that costs are asked for at the prices that were looked up for the pod;
the two then agree exactly if these are the usual ones. -/
theorem request_eq_sent (command : Command) (terms : Terms) (store : Store) (journal : Journal) :
    let sent := ((command.run terms).run store journal).2.sent
    (∀ (invocation : Invocation) (endpoint : String),
      invocation.command = command → invocation.printQuery = true →
        invocation.perform terms store =
          ((command.request terms).map fun query =>
            Text.encode ((Store.post endpoint query).body ++ "\n"), Journal.empty)) ∧
    (∀ error, command.request terms = .error error → sent = journal.sent) ∧
    (∀ query, command.request terms = .ok query → (∀ name, command ≠ .metrics name) →
      sent = journal.sent ++ [query]) ∧
    ∀ name query, command = .metrics name → command.request terms = .ok query →
      ∃ pod, Target.ofText name = .named pod ∧
        let costs := fun prices => Request.costHierarchy pod terms.window.elapsedSeconds
          (Lookup.rates terms.pricing prices)
        let resolved := ((Lookup.prices terms.pricing pod).run store journal).1
        query = costs terms.pricing.unitPrices ∧
          sent = journal.sent ++ [Request.priceLookup pod, costs resolved] ∧
          (costs resolved = query ↔ resolved = terms.pricing.unitPrices) := by
  intro sent
  refine ⟨?_, ?_, ?_, ?_⟩
  · rintro invocation endpoint rfl hshown
    rw [Invocation.perform, if_pos hshown]
    cases invocation.command.request terms <;> rfl
  · intro error herror
    exact sent_of_request_error terms store journal herror
  · intro query hok hcosts
    exact sent_of_request terms store journal hok hcosts
  · rintro name query rfl hok
    obtain ⟨pod, htarget, hquery, hsent⟩ := sent_of_request_metrics terms store journal hok
    refine ⟨pod, htarget, hquery, hsent, ?_⟩
    rw [hquery]
    exact Request.costHierarchy_inj

end Command

end PodCosts
