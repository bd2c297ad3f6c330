import PodCosts.Proofs.Json.Records
import PodCosts.Proofs.Labels.Distinct
import PodCosts.Proofs.Labels.Gathering
import PodCosts.Proofs.Lookup

/-!
# Lookups by label are exact

The numbers of the answered pods are read back from the text of the answer, and none of them is
left out as a repetition. What a lookup by label gives back therefore names exactly the pods that
carry one of the labels.
-/

namespace PodCosts

namespace Pod

/-- The record that is read from an answer has the number that is answered. -/
theorem uid_of_ofNode? {fields : List (String × Json)} (hsorted : Fields.Sorted fields)
    {uid : String} (huid : Fields.get? "uid" fields = some (.string uid)) {depth : Nat} {pod : Pod}
    (hpod : ofNode? (depth + 1) (Json.object fields).toNode = some pod) : pod.uid = uid := by
  obtain ⟨known, hknown, hfields⟩ := Node.fields?_toNode hsorted fieldNames
  have hread : Node.field? known "uid" "" Node.text? = some uid := by
    rw [Node.field?, hfields "uid" (by decide), huid]
    rfl
  rw [ofNode?, Node.record?, hknown] at hpod
  simp only [Option.bind_eq_bind, Option.bind_some, hread, Option.bind_eq_some_iff,
    Option.some.injEq] at hpod
  obtain ⟨_, _, _, _, _, _, _, _, _, _, _, _, _, _, rfl⟩ := hpod
  rfl

end Pod

namespace Graph

/-- What a lookup by label gives back from a graph. -/
def labelledUids (graph : Graph) (pairs : List (String × String)) :
    Except LookupError (List String) :=
  if graph.labelsOf pairs = [] then
    .error (.store (.evaluation (EvaluationError.undefinedVariable Request.labeledPods).message))
  else
    match (graph.podsLabelled pairs).mapM fun pod =>
      Pod.ofNode? (Node.depthLimit - 2) (Json.object (labelAnswer pod).fields).toNode with
    | some pods => .ok (Pod.distinctUids pods)
    | none => .error .decode

/-- Only which pairs are given decides which numbers are found. -/
theorem labelledUids_congr (graph : Graph) {pairs others : List (String × String)}
    (hsame : ∀ pair, pair ∈ pairs ↔ pair ∈ others) :
    graph.labelledUids pairs = graph.labelledUids others := by
  rw [labelledUids, graph.labelsOf_congr hsame, graph.podsLabelled_congr hsame, labelledUids]

/-- What comes back are the numbers of the labelled pods. -/
theorem labelledUids_eq_ok {graph : Graph} {pairs : List (String × String)} {uids : List String}
    (hok : graph.labelledUids pairs = .ok uids) :
    uids = ((graph.podsLabelled pairs).map Prod.fst).map Uid.text := by
  unfold labelledUids at hok
  split_ifs at hok
  split at hok
  · rename_i pods hpods
    have huids : ((graph.podsLabelled pairs).map Prod.fst).map Uid.text = pods.map Pod.uid := by
      rw [List.map_map, ← List.forall₂_eq_eq_eq, List.forall₂_map_left_iff,
        List.forall₂_map_right_iff]
      exact (forall₂_of_mapM_eq_some hpods).imp fun pod record hrecord =>
        (Pod.uid_of_ofNode? (sorted_labelAnswer pod) (get?_labelAnswer_uid pod) hrecord).symm
    have hnodup : (pods.map Pod.uid).Nodup := by
      rw [← huids]
      exact List.Nodup.map Uid.text_injective ((graph.pairwise_podsLabelled pairs).imp ne_of_lt)
    rw [← Except.ok.inj hok, Pod.distinctUids, Pod.go_eq_self hnodup, huids]
  · cases hok

/-- The reply to a request by label is read as the numbers of the labelled pods. -/
theorem recordsOf_labelUids {graph : Graph} (hgraph : graph.Documented) {labels : LabelMap}
    {filter : Filter} (hfilter : Request.labelFilter? labels = some filter) :
    (Lookup.recordsOf Request.podsBlock Pod.ofNode?
      (graph.reply (Request.labelUids filter))).map Pod.distinctUids =
        graph.labelledUids labels.pairs := by
  have hfinite : ∀ item ∈ (graph.podsLabelled labels.pairs).map fun pod =>
      Json.object (labelAnswer pod).fields, item.Finite := by
    intro item hitem
    obtain ⟨pod, hpod, rfl⟩ := List.mem_map.mp hitem
    exact finite_labelAnswer hgraph (List.mem_filter.mp hpod).1
  rw [reply, evaluate_labelUids graph hfilter, labelledUids]
  by_cases hlabels : graph.labelsOf labels.pairs = []
  · rw [if_pos hlabels, if_pos hlabels]
    rfl
  · rw [if_neg hlabels, if_neg hlabels]
    dsimp only
    rw [Lookup.recordsOf, readAnswer_encode _ _ hfinite, List.mapM_map]
    simp only [Function.comp_def]
    cases (graph.podsLabelled labels.pairs).mapM fun pod =>
      Pod.ofNode? (Node.depthLimit - 2) (Json.object (labelAnswer pod).fields).toNode <;> rfl

end Graph

/-- There is a filter exactly if there is a pair. -/
theorem Request.exists_labelFilter? {pairs : List (String × String)} (hpairs : pairs ≠ []) :
    ∃ filter, labelFilter? (LabelMap.ofPairs pairs) = some filter := by
  obtain ⟨pair, others, rfl⟩ := List.exists_cons_of_ne_nil hpairs
  have hpair := (LabelMap.mem_pairs_ofPairs (pair :: others) pair).mpr List.mem_cons_self
  unfold labelFilter?
  rw [if_neg (by simpa using List.ne_nil_of_mem hpair)]
  exact ⟨_, rfl⟩

/-- What a lookup by label gives back from a graph depends only on which pairs are given. -/
theorem Lookup.run_uidsByLabels_ofGraph {graph : Graph} (hgraph : graph.Documented)
    {pairs : List (String × String)} (hpairs : pairs ≠ []) (journal : Journal) :
    ((uidsByLabels (LabelMap.ofPairs pairs)).run (Store.ofGraph graph) journal).1 =
      graph.labelledUids pairs := by
  obtain ⟨filter, hfilter⟩ := Request.exists_labelFilter? hpairs
  rw [run_uidsByLabels _ _ hfilter,
    ← graph.labelledUids_congr (LabelMap.mem_pairs_ofPairs pairs)]
  exact Graph.recordsOf_labelUids hgraph hfilter

/-- A further edge from a pod that is found changes nothing. -/
theorem Graph.labelledUids_link {graph : Graph} {pairs : List (String × String)} {pod : Uid}
    (hpod : graph.Carries pairs pod) (target : Uid) :
    (graph.link pod Predicate.labelEdge target).labelledUids pairs = graph.labelledUids pairs := by
  have hanswer (node : Uid × Vertex) :
      labelAnswer (relinked pod Predicate.labelEdge target node) = labelAnswer node := by
    rw [labelAnswer, scalar?_relinked, relinked, labelAnswer]
  rw [labelledUids, labelsOf_link, podsLabelled_link hpod, List.mapM_map, labelledUids]
  simp only [Function.comp_def, hanswer, List.map_eq_nil_iff]

/-- A lookup by label that succeeds gives back the numbers of exactly those pods that have an edge
to a label with one of the given pairs, ascending and each once. Neither the order of the pairs, nor
their repetition, nor a further edge from such a pod makes a difference. -/
theorem Lookup.uidsByLabels_exact {now : Instant} {graph : Graph}
    (hreachable : Graph.Reachable now graph) {pairs : List (String × String)} (hpairs : pairs ≠ [])
    (journal : Journal) {uids : List String}
    (hok : ((uidsByLabels (LabelMap.ofPairs pairs)).run (Store.ofGraph graph) journal).1 =
      .ok uids) :
    (∃ pods : List Uid, uids = pods.map Uid.text ∧ pods.Pairwise (· < ·) ∧
      ∀ pod, pod ∈ pods ↔ graph.Carries pairs pod) ∧
    (∀ others, (∀ pair, pair ∈ others ↔ pair ∈ pairs) →
      ((uidsByLabels (LabelMap.ofPairs others)).run (Store.ofGraph graph) journal).1 =
        .ok uids) ∧
    ∀ pod label, graph.Carries pairs pod →
      ((uidsByLabels (LabelMap.ofPairs pairs)).run
        (Store.ofGraph (graph.link pod Predicate.labelEdge label)) journal).1 = .ok uids := by
  have hgraph := hreachable.documented
  rw [run_uidsByLabels_ofGraph hgraph hpairs] at hok
  refine ⟨⟨(graph.podsLabelled pairs).map Prod.fst, Graph.labelledUids_eq_ok hok,
    graph.pairwise_podsLabelled pairs, fun pod => Graph.mem_map_podsLabelled⟩, ?_, ?_⟩
  · intro others hsame
    have hothers : others ≠ [] := by
      rintro rfl
      exact hpairs (List.eq_nil_iff_forall_not_mem.mpr fun pair hpair => by
        simpa using (hsame pair).mpr hpair)
    rw [run_uidsByLabels_ofGraph hgraph hothers, graph.labelledUids_congr hsame, hok]
  · intro pod label hpod
    have hlinked := (hreachable.link pod Predicate.labelEdge label).documented
    rw [run_uidsByLabels_ofGraph hlinked hpairs, Graph.labelledUids_link hpod, hok]

/-- Two pods share a label, one of them carries a second one, and a third label crosses the key of
one wanted pair with the value of the other. -/
theorem Lookup.uidsByLabels_exact_shared :
    let now : Instant := ⟨20745, 43200, 0, by decide, by decide, by decide⟩
    let pod (name : String) : Json := .object [("isPod", .bool true), ("name", .string name)]
    let label (key value : String) : Json :=
      .object [("isLabel", .bool true), ("key", .string key), ("value", .string value)]
    let graph := ((((((((((Graph.empty now).insert (pod "web")).insert (pod "db")).insert
      (pod "job")).insert (label "app" "shop")).insert (label "tier" "back")).insert
      (label "app" "back")).link 2 "label" 4).link 1 "label" 4).link 2 "label" 5).link 3 "label" 6
    let pairs := [("tier", "back"), ("app", "shop"), ("tier", "back")]
    Graph.Reachable now graph ∧ pairs ≠ [] ∧
    ((uidsByLabels (LabelMap.ofPairs pairs)).run (Store.ofGraph graph) Journal.empty).1 =
      .ok ["0x1", "0x2"] ∧
    (∃ pods : List Uid, ["0x1", "0x2"] = pods.map Uid.text ∧ pods.Pairwise (· < ·) ∧
      ∀ pod, pod ∈ pods ↔ graph.Carries pairs pod) := by
  intro now pod label graph pairs
  have hpod (name : String) : (pod name).Finite := ⟨trivial, trivial, trivial⟩
  have hlabel (key value : String) : (label key value).Finite :=
    ⟨trivial, trivial, trivial, trivial⟩
  have hreachable : Graph.Reachable now graph :=
    ((((((((((Graph.Reachable.empty.insert _ (hpod _)).insert _ (hpod _)).insert _
      (hpod _)).insert _ (hlabel _ _)).insert _ (hlabel _ _)).insert _ (hlabel _ _)).link
      _ _ _).link _ _ _).link _ _ _).link _ _ _)
  have hpairs : pairs ≠ [] := by decide
  have hok : ((uidsByLabels (LabelMap.ofPairs pairs)).run (Store.ofGraph graph)
      Journal.empty).1 = .ok ["0x1", "0x2"] := by
    rw [run_uidsByLabels_ofGraph hreachable.documented hpairs]
    decide +kernel
  exact ⟨hreachable, hpairs, hok, (uidsByLabels_exact hreachable hpairs Journal.empty hok).1⟩

end PodCosts
