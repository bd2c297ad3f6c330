import PodCosts.Proofs.Graph.Pods
import PodCosts.Proofs.Graph.Reachable
import PodCosts.Request.Labels

/-!
# Labels and the pods that carry them

Given pairs are grouped by key and become a filter, which is passed by the nodes that record the
key and the value of one of the pairs. The labels of a graph that pass it, and the pods that point
at such a label, are read off the nodes of the graph.
-/

namespace PodCosts

namespace LabelMap

/-- The pairs of a label map whose keys ascend. -/
theorem mem_pairs_iff {labels : LabelMap} (hsorted : Fields.Sorted labels)
    {pair : String × String} :
    pair ∈ labels.pairs ↔ pair.2 ∈ (Fields.get? pair.1 labels).getD [] := by
  rw [pairs, List.mem_flatMap]
  constructor
  · rintro ⟨entry, hentry, hpair⟩
    obtain ⟨value, hvalue, rfl⟩ := List.mem_map.mp hpair
    rw [hsorted.get?_of_mem hentry]
    exact hvalue
  · intro hvalue
    cases hfound : Fields.get? pair.1 labels with
    | none => simp [hfound] at hvalue
    | some values =>
        rw [hfound, Option.getD_some] at hvalue
        exact ⟨(pair.1, values), Fields.mem_of_get? hfound, List.mem_map.mpr ⟨pair.2, hvalue, rfl⟩⟩

/-- Adding a pair keeps the keys ascending. -/
theorem sorted_add {labels : LabelMap} (hsorted : Fields.Sorted labels) (added : String × String) :
    Fields.Sorted (labels.add added) :=
  hsorted.insert _ _

/-- Adding a pair adds exactly that pair. -/
theorem mem_pairs_add {labels : LabelMap} (hsorted : Fields.Sorted labels)
    (added pair : String × String) :
    pair ∈ (labels.add added).pairs ↔ pair ∈ labels.pairs ∨ pair = added := by
  rw [mem_pairs_iff (sorted_add hsorted added), mem_pairs_iff hsorted, add]
  by_cases hkey : added.1 = pair.1
  · rw [hkey, Fields.get?_insert, Option.getD_some, List.mem_append, List.mem_singleton,
      Prod.ext_iff, and_iff_right hkey.symm]
  · rw [Fields.get?_insert_of_ne hkey, or_iff_left]
    rintro rfl
    exact hkey rfl

/-- Grouping keeps the pairs, whatever their order and however often they are given. -/
theorem mem_pairs_foldl_add (given : List (String × String)) {labels : LabelMap}
    (hsorted : Fields.Sorted labels) (pair : String × String) :
    pair ∈ (given.foldl add labels).pairs ↔ pair ∈ labels.pairs ∨ pair ∈ given := by
  induction given generalizing labels with
  | nil => simp
  | cons added given ih =>
      rw [List.foldl_cons, ih (sorted_add hsorted added), mem_pairs_add hsorted, List.mem_cons,
        or_assoc]

/-- A label map has exactly the pairs it was made of. -/
theorem mem_pairs_ofPairs (given : List (String × String)) (pair : String × String) :
    pair ∈ (ofPairs given).pairs ↔ pair ∈ given := by
  rw [ofPairs, mem_pairs_foldl_add given Fields.sorted_nil]
  simp [pairs]

end LabelMap

namespace Filter

/-- Some filter of a list is passed. -/
theorem acceptsAny_eq_any (vertex : Vertex) (filters : List Filter) :
    acceptsAny vertex filters = filters.any fun filter => filter.accepts vertex := by
  induction filters with
  | nil => rw [acceptsAny, List.any_nil]
  | cons filter filters ih => rw [acceptsAny, ih, List.any_cons]

end Filter

/-- Whether a node records the key and the value of a pair. -/
def Vertex.recordsPair (vertex : Vertex) (pair : String × String) : Bool :=
  vertex.text? Predicate.labelKey == some pair.1 && vertex.text? Predicate.labelValue == some pair.2

namespace Request

/-- The filter of a pair is passed by the nodes that record it. -/
theorem accepts_pairFilter (vertex : Vertex) (pair : String × String) :
    Filter.accepts vertex (pairFilter pair) = vertex.recordsPair pair := by
  rw [pairFilter, Filter.accepts, Filter.acceptsAll, Filter.acceptsAll, Filter.acceptsAll,
    Filter.accepts_eq, Filter.accepts_eq, Bool.and_true, Vertex.recordsPair]

/-- The filter of a label map is passed by the nodes that record one of its pairs. -/
theorem accepts_labelFilter? {labels : LabelMap} {filter : Filter}
    (hfilter : labelFilter? labels = some filter) (vertex : Vertex) :
    filter.accepts vertex = labels.pairs.any vertex.recordsPair := by
  unfold labelFilter? at hfilter
  split_ifs at hfilter
  rw [← Option.some.inj hfilter, Filter.accepts, Filter.acceptsAny_eq_any, List.any_map]
  simp only [Function.comp_def, accepts_pairFilter]

end Request

namespace Graph

/-- The labels with one of some pairs, ascending. -/
def labelsOf (graph : Graph) (pairs : List (String × String)) : List (Uid × Vertex) :=
  graph.nodes.filter fun node =>
    node.2.has Kind.label.marker && pairs.any node.2.recordsPair

/-- The pods that carry a label with one of some pairs, ascending. -/
def podsLabelled (graph : Graph) (pairs : List (String × String)) : List (Uid × Vertex) :=
  graph.nodes.filter fun node =>
    node.2.has Kind.pod.marker &&
      (graph.labelsOf pairs).any fun label =>
        (node.2.targets Predicate.labelEdge).contains label.1

/-- Whether a node is a label with one of some pairs. -/
def Wanted (graph : Graph) (pairs : List (String × String)) (label : Uid) : Prop :=
  ∃ vertex, graph.vertex? label = some vertex ∧ vertex.has Kind.label.marker = true ∧
    ∃ pair ∈ pairs, vertex.text? Predicate.labelKey = some pair.1 ∧
      vertex.text? Predicate.labelValue = some pair.2

/-- Whether a node is a pod with an edge to a label with one of some pairs. -/
def Carries (graph : Graph) (pairs : List (String × String)) (pod : Uid) : Prop :=
  ∃ vertex, graph.vertex? pod = some vertex ∧ vertex.has Kind.pod.marker = true ∧
    ∃ label ∈ vertex.targets Predicate.labelEdge, graph.Wanted pairs label

/-- The labels with one of some pairs are the nodes that are wanted for them. -/
theorem mem_map_labelsOf {graph : Graph} {pairs : List (String × String)} {label : Uid} :
    label ∈ (graph.labelsOf pairs).map Prod.fst ↔ graph.Wanted pairs label := by
  rw [labelsOf, mem_map_fst_filter, Wanted]
  simp only [Vertex.recordsPair, Bool.and_eq_true, List.any_eq_true, beq_iff_eq]

/-- The labelled pods are those that carry one of the pairs. -/
theorem mem_map_podsLabelled {graph : Graph} {pairs : List (String × String)} {pod : Uid} :
    pod ∈ (graph.podsLabelled pairs).map Prod.fst ↔ graph.Carries pairs pod := by
  rw [podsLabelled, mem_map_fst_filter, Carries]
  refine exists_congr fun vertex => and_congr_right fun _ => ?_
  rw [Bool.and_eq_true, List.any_eq_true]
  refine and_congr_right fun _ => ?_
  simp only [← mem_map_labelsOf, List.mem_map, List.contains_iff_mem]
  constructor
  · rintro ⟨label, hlabel, htarget⟩
    exact ⟨label.1, htarget, label, hlabel, rfl⟩
  · rintro ⟨_, htarget, label, hlabel, rfl⟩
    exact ⟨label, hlabel, htarget⟩

/-- The numbers of the labelled pods ascend. -/
theorem pairwise_podsLabelled (graph : Graph) (pairs : List (String × String)) :
    ((graph.podsLabelled pairs).map Prod.fst).Pairwise (· < ·) :=
  List.pairwise_map.mpr (graph.pairwise_nodes.sublist List.filter_sublist)

variable {pairs others : List (String × String)}

/-- Only which pairs are given decides which labels have one of them. -/
theorem labelsOf_congr (graph : Graph) (hsame : ∀ pair, pair ∈ pairs ↔ pair ∈ others) :
    graph.labelsOf pairs = graph.labelsOf others := by
  have hany (test : String × String → Bool) : pairs.any test = others.any test := by
    rw [Bool.eq_iff_iff, List.any_eq_true, List.any_eq_true]
    simp only [hsame]
  simp only [labelsOf, hany]

/-- Only which pairs are given decides which pods carry one of them. -/
theorem podsLabelled_congr (graph : Graph) (hsame : ∀ pair, pair ∈ pairs ↔ pair ∈ others) :
    graph.podsLabelled pairs = graph.podsLabelled others := by
  simp only [podsLabelled, graph.labelsOf_congr hsame]

/-- A new edge changes no recorded pair. -/
theorem recordsPair_relinked (pod target : Uid) (node : Uid × Vertex) :
    (relinked pod Predicate.labelEdge target node).2.recordsPair = node.2.recordsPair := by
  funext pair
  simp only [Vertex.recordsPair, Vertex.text?, scalar?_relinked]

/-- A further edge changes no label. -/
theorem labelsOf_link (graph : Graph) (pod target : Uid) :
    (graph.link pod Predicate.labelEdge target).labelsOf pairs =
      (graph.labelsOf pairs).map (relinked pod Predicate.labelEdge target) := by
  rw [labelsOf, nodes_link, List.filter_map, labelsOf]
  refine congrArg (List.map _) (List.filter_congr fun node _ => ?_)
  have hmarker := has_relinked_of_ne pod target node
    (show Predicate.labelEdge ≠ Kind.label.marker by decide)
  rw [Function.comp_apply, hmarker, recordsPair_relinked]

/-- A further edge from a pod that carries a label already changes no labelled pod. -/
theorem podsLabelled_link {graph : Graph} {pod : Uid} (hpod : graph.Carries pairs pod)
    (target : Uid) :
    (graph.link pod Predicate.labelEdge target).podsLabelled pairs =
      (graph.podsLabelled pairs).map (relinked pod Predicate.labelEdge target) := by
  rw [podsLabelled, nodes_link, List.filter_map, podsLabelled, labelsOf_link]
  refine congrArg (List.map _) (List.filter_congr fun node hnode => ?_)
  have hmarker := has_relinked_of_ne pod target node
    (show Predicate.labelEdge ≠ Kind.pod.marker by decide)
  rw [Function.comp_apply, hmarker, List.any_map]
  by_cases hsource : node.1 = pod
  · -- The pod has an edge to a wanted label before and after.
    have hcarries := mem_map_podsLabelled.mpr (hsource ▸ hpod)
    rw [podsLabelled, fst_mem_map_filter hnode, Bool.and_eq_true, List.any_eq_true] at hcarries
    obtain ⟨-, label, hlabel, htarget⟩ := hcarries
    have hbefore : ((graph.labelsOf pairs).any fun label =>
        (node.2.targets Predicate.labelEdge).contains label.1) = true :=
      List.any_eq_true.mpr ⟨label, hlabel, htarget⟩
    rw [hbefore, List.any_eq_true.mpr ⟨label, hlabel, ?_⟩]
    rw [List.contains_iff_mem] at htarget
    simp only [Function.comp_apply, relinked, if_pos hsource, Vertex.targets_link_self,
      List.contains_iff_mem, List.mem_append, htarget, true_or]
  · simp only [relinked, if_neg hsource, Function.comp_def]

end Graph

end PodCosts
