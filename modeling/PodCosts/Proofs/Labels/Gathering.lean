import PodCosts.Proofs.Graph.Answers
import PodCosts.Proofs.Labels.Wanted

/-!
# The request for the pods of labels

The first block of the request gathers, label by label, the pods that point at it. The second one
answers each gathered pod once, and there is no answer without a label to gather from.
-/

namespace PodCosts

namespace Graph

/-- What the request for labelled pods answers for a node. -/
def labelAnswer (node : Uid × Vertex) : Picked :=
  (Picked.nothing.answer (some "uid") (some (.string node.1.text))).answer (some Predicate.name)
    (node.2.scalar? Predicate.name)

/-- A labelled pod is answered even if it has no name. -/
theorem labelAnswer_fields_ne_nil (node : Uid × Vertex) : (labelAnswer node).fields ≠ [] :=
  Picked.fields_answer_ne_nil (Fields.insert_ne_nil _ _ _) _ _

/-- The keys of the answer for a labelled pod ascend. -/
theorem sorted_labelAnswer (node : Uid × Vertex) : Fields.Sorted (labelAnswer node).fields :=
  Picked.sorted_fields_answer (Picked.sorted_fields_answer Picked.sorted_fields_nothing _ _) _ _

/-- The answer for a labelled pod holds its number. -/
theorem get?_labelAnswer_uid (node : Uid × Vertex) :
    Fields.get? "uid" (labelAnswer node).fields = some (.string node.1.text) := by
  rw [labelAnswer, Picked.get?_fields_answer_of_ne (by decide), Picked.get?_fields_answer_self rfl]

/-- The answer for a labelled pod can be written. -/
theorem finite_labelAnswer {graph : Graph} (hgraph : graph.Documented) {node : Uid × Vertex}
    (hnode : node ∈ graph.nodes) : (Json.object (labelAnswer node).fields).Finite := by
  have hname : ∀ value ∈ node.2.scalar? Predicate.name, value.Finite :=
    fun _ => hgraph.finite_scalar (mem_nodes.mp hnode)
  have huid : ∀ value ∈ some (Json.string node.1.text), value.Finite := by
    rintro value ⟨⟩
    trivial
  have hfirst := Picked.finite_fields_answer Picked.finite_fields_nothing (some "uid") huid
  exact Picked.finite_fields_answer hfirst (some Predicate.name) hname

/-- The pods that point at a label, ascending. -/
def podsOfLabel (graph : Graph) (label : Uid) : List (Uid × Vertex) :=
  graph.nodes.filter fun node =>
    (node.2.targets Predicate.labelEdge).contains label && node.2.has Kind.pod.marker

/-- The selections that gather the pods of a label. -/
def gatherPods : List Selection :=
  [.edge (.bound Request.labeledPods) (.backward Predicate.labelEdge)
    (some (.has Kind.pod.marker)) [Request.nameOnly]]

/-- What is answered for a node of which only the name is asked for. -/
def nameAnswer (node : Uid × Vertex) : Picked :=
  Picked.nothing.answer (some Predicate.name) (node.2.scalar? Predicate.name)

/-- A label gathers the pods that point at it. -/
theorem pickAll_gatherPods (graph : Graph) (label : Uid × Vertex) :
    ∃ picked, Selection.pickAll graph label.1 label.2 Picked.nothing gatherPods = .ok picked ∧
      picked.gathered = [(Request.labeledPods, (graph.podsOfLabel label.1).map Prod.fst)] := by
  have hadjacent : graph.adjacent label.1 (.backward Predicate.labelEdge)
      (some (.has Kind.pod.marker)) = graph.podsOfLabel label.1 := by
    rw [adjacent_backward, podsOfLabel]
    simp only [Filter.admits, Filter.accepts]
  have hnames : ((graph.podsOfLabel label.1).mapM fun node =>
      Selection.pickAll graph node.1 node.2 Picked.nothing [Request.nameOnly]) =
        .ok ((graph.podsOfLabel label.1).map nameAnswer) := by
    simp only [Request.nameOnly, Selection.pickAll_cons, Selection.pick_predicate,
      Selection.pickAll_nil]
    exact List.mapM_pure
  refine ⟨Selection.edgePicked graph label.1 Picked.nothing (.bound Request.labeledPods)
    (.backward Predicate.labelEdge) (some (.has Kind.pod.marker)) [Request.nameOnly]
    ((graph.podsOfLabel label.1).map nameAnswer), ?_, ?_⟩
  · rw [gatherPods, Selection.pickAll_cons, Selection.pick_edge, hadjacent, hnames]
    rfl
  · rw [Selection.edgePicked, Picked.gathered_answer, neighbours_eq, hadjacent]
    simp [Tag.bound, List.flatMap_map, nameAnswer, Picked.nothing]

/-- The first block of the request gathers, label by label, the pods that point at it. -/
theorem runBlock_gatherPods (graph : Graph) {labels : LabelMap} {filter : Filter}
    (hfilter : Request.labelFilter? labels = some filter) :
    ∃ picks, graph.runBlock [] (.silent (Request.allOf .label) (some filter) gatherPods) =
        .ok picks ∧
      picks.flatMap Picked.gathered = (graph.labelsOf labels.pairs).map fun label =>
        (Request.labeledPods, (graph.podsOfLabel label.1).map Prod.fst) := by
  have hstep : ∀ label ∈ graph.labelsOf labels.pairs, ∃ picked,
      Selection.pickAll graph label.1 label.2 Picked.nothing gatherPods = .ok picked ∧
        picked.gathered = [(Request.labeledPods, (graph.podsOfLabel label.1).map Prod.fst)] :=
    fun label _ => graph.pickAll_gatherPods label
  obtain ⟨picks, hpicks, hall⟩ := exists_mapM_eq_ok hstep
  refine ⟨picks, ?_, flatMap_of_forall₂ hall⟩
  rw [Block.silent, Request.allOf, runBlock_has, ← hpicks, labelsOf]
  simp only [Filter.admits, Request.accepts_labelFilter? hfilter]

/-- The nodes that are gathered are the labelled pods. -/
theorem roots_labeledPods (graph : Graph) {pairs : List (String × String)}
    (hlabels : graph.labelsOf pairs ≠ []) :
    ∃ roots, graph.roots ((graph.labelsOf pairs).map fun label =>
        (Request.labeledPods, (graph.podsOfLabel label.1).map Prod.fst))
        (.uid Request.labeledPods) = .ok roots ∧
      graph.located roots = graph.podsLabelled pairs := by
  have hnodes : Gathered.nodes? ((graph.labelsOf pairs).map fun label =>
      (Request.labeledPods, (graph.podsOfLabel label.1).map Prod.fst)) Request.labeledPods =
        some ((graph.labelsOf pairs).flatMap fun label =>
          (graph.podsOfLabel label.1).map Prod.fst) := by
    simp [Gathered.nodes?, List.filter_map, Function.comp_def, List.flatMap_map, hlabels]
  refine ⟨graph.uids.filter ((graph.labelsOf pairs).flatMap fun label =>
    (graph.podsOfLabel label.1).map Prod.fst).contains, by rw [roots, hnodes], ?_⟩
  rw [located_filter, podsLabelled]
  refine List.filter_congr fun node hnode => ?_
  rw [Bool.eq_iff_iff, List.contains_iff_mem, List.mem_flatMap, Bool.and_eq_true, List.any_eq_true]
  simp only [podsOfLabel, fst_mem_map_filter hnode, Bool.and_eq_true]
  constructor
  · rintro ⟨label, hlabel, htarget, hpod⟩
    exact ⟨hpod, label, hlabel, htarget⟩
  · rintro ⟨hpod, label, hlabel, htarget⟩
    exact ⟨label, hlabel, htarget, hpod⟩

/-- The block that answers the gathered pods. -/
def labeledBlock : Block :=
  ⟨Request.podsBlock, .uid Request.labeledPods, none, [.uid .plain, Request.nameOnly]⟩

/-- The second block of the request answers the labelled pods, if there is a label at all. -/
theorem runBlock_labeledBlock (graph : Graph) (pairs : List (String × String)) :
    graph.runBlock ((graph.labelsOf pairs).map fun label =>
        (Request.labeledPods, (graph.podsOfLabel label.1).map Prod.fst)) labeledBlock =
      if graph.labelsOf pairs = [] then .error (.undefinedVariable Request.labeledPods)
      else .ok ((graph.podsLabelled pairs).map labelAnswer) := by
  split_ifs with hlabels
  · rw [hlabels]
    rfl
  · obtain ⟨roots, hroots, hlocated⟩ := graph.roots_labeledPods hlabels
    have hadmitted : graph.admitted labeledBlock roots = graph.podsLabelled pairs := by
      rw [admitted_eq, hlocated]
      exact List.filter_eq_self.mpr fun _ _ => rfl
    rw [runBlock, show labeledBlock.root = .uid Request.labeledPods from rfl, hroots]
    change (graph.admitted labeledBlock roots).mapM _ = _
    rw [hadmitted]
    simp only [labeledBlock, Request.nameOnly, Selection.pickAll_cons, Selection.pick_uid,
      Selection.pick_predicate, Selection.pickAll_nil]
    exact List.mapM_pure

/-- The answer to a request by label. -/
theorem evaluate_labelUids (graph : Graph) {labels : LabelMap} {filter : Filter}
    (hfilter : Request.labelFilter? labels = some filter) :
    graph.evaluate (Request.labelUids filter) =
      if graph.labelsOf labels.pairs = [] then
        .error (.undefinedVariable Request.labeledPods)
      else
        .ok (.object [(Request.podsBlock, .array ((graph.podsLabelled labels.pairs).map fun pod =>
          .object (labelAnswer pod).fields))]) := by
  obtain ⟨gathering, hgathering, hgathered⟩ := graph.runBlock_gatherPods hfilter
  have hblocks : (Request.labelUids filter).blocks =
      [.silent (Request.allOf .label) (some filter) gatherPods, labeledBlock] := rfl
  have hobjects : Picked.objects ((graph.podsLabelled labels.pairs).map labelAnswer) =
      (graph.podsLabelled labels.pairs).map fun pod => .object (labelAnswer pod).fields := by
    rw [Picked.objects, List.filter_map, List.map_map, List.filter_eq_self.mpr]
    · rfl
    · intro pod _
      simpa using labelAnswer_fields_ne_nil pod
  rw [evaluate, hblocks, runBlocks, hgathering]
  change (graph.runBlocks ([] ++ gathering.flatMap Picked.gathered) [] [labeledBlock] >>= _) = _
  rw [List.nil_append, hgathered, runBlocks, runBlock_labeledBlock]
  by_cases hlabels : graph.labelsOf labels.pairs = []
  · rw [if_pos hlabels, if_pos hlabels]
    rfl
  · rw [if_neg hlabels, if_neg hlabels, ← hobjects]
    rfl

end Graph

end PodCosts
