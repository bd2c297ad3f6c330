import PodCosts.Proofs.Graph.Reread
import PodCosts.Proofs.Labels.Exact
import PodCosts.Proofs.Records.Pods

/-!
# When a lookup by label is answered

The variable of the second block exists only once some label has gathered its pods into it. A lookup
whose pairs belong to no label therefore fails, although it asks for nothing that does not exist. A
lookup whose pairs belong to a label that no pod carries succeeds with nothing found.
-/

namespace PodCosts

namespace Graph

/-- The answer for a labelled pod holds nothing but its number and its name. -/
theorem get?_labelAnswer_of_ne {name : String} (huid : name ≠ "uid") (hname : name ≠ Predicate.name)
    (node : Uid × Vertex) : Fields.get? name (labelAnswer node).fields = none := by
  rw [labelAnswer, Picked.get?_fields_answer_of_ne hname.symm,
    Picked.get?_fields_answer_of_ne huid.symm]
  rfl

/-- The answer for a labelled pod holds its name, if it has one. -/
theorem get?_labelAnswer_name (node : Uid × Vertex) :
    Fields.get? Predicate.name (labelAnswer node).fields = node.2.scalar? Predicate.name := by
  have hfresh : Fields.get? Predicate.name
      (Picked.nothing.answer (some "uid") (some (.string node.1.text))).fields = none := by
    rw [Picked.get?_fields_answer_of_ne (by decide)]
    rfl
  exact Picked.get?_fields_answer_self hfresh _

/-- The answer for a labelled pod is read as a record if its name is a string. -/
theorem exists_ofNode?_labelAnswer {node : Uid × Vertex}
    (hname : node.2.TextOrNothing Predicate.name) (depth : Nat) :
    ∃ pod, Pod.ofNode? (depth + 1) (Json.object (labelAnswer node).fields).toNode = some pod := by
  obtain ⟨known, hknown, hfields⟩ :=
    Node.fields?_toNode (sorted_labelAnswer node) Pod.fieldNames
  have hreadUid : Node.field? known "uid" "" Node.text? = some node.1.text := by
    rw [Node.field?, hfields "uid" (by decide), get?_labelAnswer_uid]
    rfl
  have hheld : Fields.get? "name" known = (node.2.scalar? Predicate.name).map Json.toNode := by
    rw [hfields "name" (by decide), ← get?_labelAnswer_name]
    rfl
  have habsent {α : Type} (name : String)
      (hother : name ∈ Pod.fieldNames ∧ name ≠ "uid" ∧ name ≠ Predicate.name) (absent : α)
      (read : Node → Option α) : Node.field? known name absent read = some absent := by
    apply Node.field?_absent
    rw [hfields name hother.1, get?_labelAnswer_of_ne hother.2.1 hother.2.2, Option.map_none]
  exact ⟨⟨node.1.text, (node.2.text? Predicate.name).getD "", none, none, none, none, [], []⟩,
    Pod.ofNode?_of_fields? hknown hreadUid (Vertex.field?_text hname hheld)
      (habsent "startTime" (by decide) _ _) (habsent "endTime" (by decide) _ _)
      (habsent "cpuPrice" (by decide) _ _) (habsent "memoryPrice" (by decide) _ _)
      (habsent "pod" (by decide) _ _) (habsent "cid" (by decide) _ _)⟩

/-- There are no labels with some pairs where no node is wanted for them. -/
theorem labelsOf_eq_nil_iff {graph : Graph} {pairs : List (String × String)} :
    graph.labelsOf pairs = [] ↔ ∀ label, ¬graph.Wanted pairs label := by
  simp only [← mem_map_labelsOf, ← List.eq_nil_iff_forall_not_mem, List.map_eq_nil_iff]

/-- There are no labelled pods where no pod carries one of the pairs. -/
theorem podsLabelled_eq_nil_iff {graph : Graph} {pairs : List (String × String)} :
    graph.podsLabelled pairs = [] ↔ ∀ pod, ¬graph.Carries pairs pod := by
  simp only [← mem_map_podsLabelled, ← List.eq_nil_iff_forall_not_mem, List.map_eq_nil_iff]

/-- Where names are strings, every labelled pod is answered as soon as there is a label. -/
theorem labelledUids_of_wanted {graph : Graph}
    (hnames : ∀ node ∈ graph.nodes, node.2.TextOrNothing Predicate.name)
    {pairs : List (String × String)} (hlabels : graph.labelsOf pairs ≠ []) :
    graph.labelledUids pairs = .ok (((graph.podsLabelled pairs).map Prod.fst).map Uid.text) := by
  have hread : ∀ pod ∈ graph.podsLabelled pairs, ∃ record,
      Pod.ofNode? (Node.depthLimit - 2) (Json.object (labelAnswer pod).fields).toNode =
        some record := by
    intro pod hpod
    have hname := hnames pod (List.mem_filter.mp hpod).1
    exact exists_ofNode?_labelAnswer hname (Node.depthLimit - 3)
  obtain ⟨records, hrecords⟩ := exists_mapM_eq_some hread
  have hok : graph.labelledUids pairs = .ok (Pod.distinctUids records) := by
    rw [labelledUids, if_neg hlabels, hrecords]
  rw [hok, labelledUids_eq_ok hok]

end Graph

/-- A lookup by label is answered exactly if some label has one of the given pairs. It then finds
nothing where no pod carries such a label, and without such a label it fails. -/
theorem Lookup.uidsByLabels_answered_iff {now : Instant} {graph : Graph}
    (hreachable : Graph.Reachable now graph)
    (hnames : ∀ node ∈ graph.nodes, node.2.TextOrNothing Predicate.name) {labels : LabelMap}
    (hpairs : labels.pairs ≠ []) (journal : Journal) :
    let result := ((uidsByLabels labels).run (Store.ofGraph graph) journal).1
    ((∃ uids, result = .ok uids) ↔ ∃ label, graph.Wanted labels.pairs label) ∧
      ((∃ label, graph.Wanted labels.pairs label) →
        (∀ pod, ¬graph.Carries labels.pairs pod) → result = .ok []) ∧
      ((∀ label, ¬graph.Wanted labels.pairs label) →
        result = .error (.store (.evaluation "variable podUIDs not defined"))) := by
  intro result
  obtain ⟨filter, hfilter⟩ : ∃ filter, Request.labelFilter? labels = some filter := by
    rw [Request.labelFilter?, if_neg (by simpa using hpairs)]
    exact ⟨_, rfl⟩
  have hresult : result = graph.labelledUids labels.pairs := by
    have hrecords := Graph.recordsOf_labelUids hreachable.documented hfilter
    rw [← hrecords]
    exact run_uidsByLabels _ _ hfilter
  have hnone : (∀ label, ¬graph.Wanted labels.pairs label) →
      result = .error (.store (.evaluation "variable podUIDs not defined")) := by
    intro hunwanted
    rw [hresult, Graph.labelledUids, if_pos (Graph.labelsOf_eq_nil_iff.mpr hunwanted)]
    rfl
  have hsome (label : Uid) (hwanted : graph.Wanted labels.pairs label) :
      result = .ok (((graph.podsLabelled labels.pairs).map Prod.fst).map Uid.text) := by
    have hlabels : graph.labelsOf labels.pairs ≠ [] := by
      intro hnil
      exact Graph.labelsOf_eq_nil_iff.mp hnil label hwanted
    rw [hresult, Graph.labelledUids_of_wanted hnames hlabels]
  refine ⟨⟨?_, ?_⟩, ?_, hnone⟩
  · rintro ⟨uids, hok⟩
    by_contra hunwanted
    rw [hnone (not_exists.mp hunwanted)] at hok
    cases hok
  · rintro ⟨label, hwanted⟩
    exact ⟨_, hsome label hwanted⟩
  · rintro ⟨label, hwanted⟩ hcarries
    rw [hsome label hwanted, Graph.podsLabelled_eq_nil_iff.mpr hcarries]
    rfl

/-- A label that no pod carries, looked up together with a pair that no label has. -/
theorem Lookup.uidsByLabels_answered_uncarried :
    let now : Instant := ⟨20745, 43200, 0, by decide, by decide, by decide⟩
    let graph := ((Graph.empty now).insert
      (.object [("isPod", .bool true), ("name", .string "web")])).insert
      (.object [("isLabel", .bool true), ("key", .string "env"), ("value", .string "prod")])
    let labels : LabelMap := [("env", ["prod", "test"])]
    Graph.Reachable now graph ∧
      (∀ node ∈ graph.nodes, node.2.TextOrNothing Predicate.name) ∧ labels.pairs ≠ [] ∧
      graph.Wanted labels.pairs 2 ∧ (∀ pod, ¬graph.Carries labels.pairs pod) ∧
      ((uidsByLabels labels).run (Store.ofGraph graph) Journal.empty).1 = .ok [] := by
  intro now graph labels
  have hpod : (Json.object [("isPod", .bool true), ("name", .string "web")]).Finite :=
    ⟨trivial, trivial, trivial⟩
  have hlabel : (Json.object [("isLabel", .bool true), ("key", .string "env"),
      ("value", .string "prod")]).Finite := ⟨trivial, trivial, trivial, trivial⟩
  have hreachable : Graph.Reachable now graph :=
    (Graph.Reachable.empty.insert _ hpod).insert _ hlabel
  have hnames : ∀ node ∈ graph.nodes, node.2.TextOrNothing Predicate.name := by decide +kernel
  have hpairs : labels.pairs ≠ [] := by decide
  have hwanted : graph.Wanted labels.pairs 2 :=
    ⟨_, rfl, rfl, ("env", "prod"), by decide, rfl, rfl⟩
  have hcarries : ∀ pod, ¬graph.Carries labels.pairs pod := by
    rw [← Graph.podsLabelled_eq_nil_iff]
    rfl
  have hanswered := uidsByLabels_answered_iff hreachable hnames hpairs Journal.empty
  exact ⟨hreachable, hnames, hpairs, hwanted, hcarries, hanswered.2.1 ⟨2, hwanted⟩ hcarries⟩

/-- Without a label that has the pair, a lookup in a sound graph fails instead of finding
nothing. -/
theorem Lookup.uidsByLabels_unanswered :
    let now : Instant := ⟨20745, 43200, 0, by decide, by decide, by decide⟩
    let graph := (Graph.empty now).insert
      (.object [("isPod", .bool true), ("name", .string "web")])
    let labels : LabelMap := [("env", ["prod"])]
    Graph.Reachable now graph ∧
      (∀ node ∈ graph.nodes, node.2.TextOrNothing Predicate.name) ∧ labels.pairs ≠ [] ∧
      graph.labelsOf labels.pairs = [] ∧
      ((uidsByLabels labels).run (Store.ofGraph graph) Journal.empty).1 ≠ .ok [] ∧
      ((uidsByLabels labels).run (Store.ofGraph graph) Journal.empty).1 =
        .error (.store (.evaluation "variable podUIDs not defined")) := by
  intro now graph labels
  have hpod : (Json.object [("isPod", .bool true), ("name", .string "web")]).Finite :=
    ⟨trivial, trivial, trivial⟩
  have hreachable : Graph.Reachable now graph := Graph.Reachable.empty.insert _ hpod
  have hfails : ((uidsByLabels labels).run (Store.ofGraph graph) Journal.empty).1 =
      .error (.store (.evaluation "variable podUIDs not defined")) := by
    rw [run_uidsByLabels _ _ rfl]
    rfl
  have hnames : ∀ node ∈ graph.nodes, node.2.TextOrNothing Predicate.name := by decide +kernel
  refine ⟨hreachable, hnames, by decide, rfl, ?_, hfails⟩
  rw [hfails]
  intro hok
  cases hok

end PodCosts
