import PodCosts.Graph.Evaluation
import Mathlib.Data.List.Basic

/-!
# The nodes of a graph

`Graph.nodes` lists the nodes with their numbers, ascending. Every scan of the evaluator over the
numbers of a graph is a filter of that list, so what a block or an edge visits can be said without
looking numbers up.
-/

namespace PodCosts

/-- Hexadecimal digits differ for different numbers below sixteen. -/
theorem digitChar_injective : ∀ n < 16, ∀ m < 16, Nat.digitChar n = Nat.digitChar m → n = m := by
  decide

/-- Hexadecimal digits differ for different numbers. -/
theorem toDigits_injective {n m : Nat} (heq : Nat.toDigits 16 n = Nat.toDigits 16 m) : n = m := by
  induction n using Nat.strongRecOn generalizing m with
  | ind n ih =>
    rw [@Nat.toDigits_eq_if 16 n (by decide), @Nat.toDigits_eq_if 16 m (by decide)] at heq
    split_ifs at heq with hn hm hm
    · exact digitChar_injective n hn m hm (List.singleton_inj.mp heq)
    · have hlength := congrArg List.length heq
      simp at hlength
    · have hlength := congrArg List.length heq
      simp at hlength
    · obtain ⟨hrest, hlast⟩ := List.append_inj' heq rfl
      have hdiv := ih (n / 16) (by omega) hrest
      have hmod := digitChar_injective (n % 16) (by omega) (m % 16) (by omega)
        (List.singleton_inj.mp hlast)
      omega

/-- Different nodes have different texts. -/
theorem Uid.text_injective : Function.Injective Uid.text := by
  intro uid other heq
  have hdigits := String.ofList_injective heq
  exact toDigits_injective (List.cons.inj (List.cons.inj hdigits).2).2

namespace Graph

/-- The existing nodes among some numbers, in the order of the numbers. -/
def located (graph : Graph) (uids : List Uid) : List (Uid × Vertex) :=
  uids.filterMap fun uid => (graph.vertex? uid).map fun vertex => (uid, vertex)

/-- The nodes with their numbers, ascending. -/
def nodes (graph : Graph) : List (Uid × Vertex) :=
  graph.located graph.uids

/-- A number without a node is passed over. -/
theorem located_cons_none {graph : Graph} {uid : Uid} (hvertex : graph.vertex? uid = none)
    (uids : List Uid) : graph.located (uid :: uids) = graph.located uids :=
  List.filterMap_cons_none (by rw [hvertex]; rfl)

/-- A number with a node is located at it. -/
theorem located_cons_some {graph : Graph} {uid : Uid} {vertex : Vertex}
    (hvertex : graph.vertex? uid = some vertex) (uids : List Uid) :
    graph.located (uid :: uids) = (uid, vertex) :: graph.located uids :=
  List.filterMap_cons_some (by rw [hvertex]; rfl)

/-- The located nodes are those of the given numbers. -/
theorem mem_located {graph : Graph} {uids : List Uid} {node : Uid × Vertex} :
    node ∈ graph.located uids ↔ node.1 ∈ uids ∧ graph.vertex? node.1 = some node.2 := by
  obtain ⟨uid, vertex⟩ := node
  simp only [located, List.mem_filterMap, Option.map_eq_some_iff, Prod.mk.injEq]
  constructor
  · rintro ⟨other, hmem, held, hheld, rfl, rfl⟩
    exact ⟨hmem, hheld⟩
  · rintro ⟨hmem, hvertex⟩
    exact ⟨uid, hmem, vertex, hvertex, rfl, rfl⟩

/-- Exactly the numbers of the graph belong to a node. -/
theorem mem_uids_of_vertex? {graph : Graph} {uid : Uid} {vertex : Vertex}
    (hvertex : graph.vertex? uid = some vertex) : uid ∈ graph.uids := by
  cases uid with
  | zero => cases hvertex
  | succ index =>
    obtain ⟨hindex, _⟩ := List.getElem?_eq_some_iff.mp hvertex
    rw [uids, List.mem_range'_1]
    omega

/-- The listed nodes are those that can be looked up. -/
theorem mem_nodes {graph : Graph} {node : Uid × Vertex} :
    node ∈ graph.nodes ↔ graph.vertex? node.1 = some node.2 := by
  rw [nodes, mem_located]
  exact ⟨fun h => h.2, fun h => ⟨mem_uids_of_vertex? h, h⟩⟩

/-- The numbers of the nodes that pass a test. -/
theorem mem_map_fst_filter {graph : Graph} {test : Uid × Vertex → Bool} {uid : Uid} :
    uid ∈ (graph.nodes.filter test).map Prod.fst ↔
      ∃ vertex, graph.vertex? uid = some vertex ∧ test (uid, vertex) = true := by
  simp only [List.mem_map, List.mem_filter, mem_nodes]
  constructor
  · rintro ⟨node, ⟨hvertex, htest⟩, rfl⟩
    exact ⟨node.2, hvertex, htest⟩
  · rintro ⟨vertex, hvertex, htest⟩
    exact ⟨(uid, vertex), ⟨hvertex, htest⟩, rfl⟩

/-- A node is found again by its number. -/
theorem fst_mem_map_filter {graph : Graph} {node : Uid × Vertex} (hnode : node ∈ graph.nodes)
    (test : Uid × Vertex → Bool) :
    node.1 ∈ (graph.nodes.filter test).map Prod.fst ↔ test node = true := by
  rw [mem_map_fst_filter, mem_nodes.mp hnode]
  simp

/-- The numbers of the nodes ascend. -/
theorem pairwise_uids (graph : Graph) : graph.uids.Pairwise (· < ·) :=
  List.pairwise_lt_range'

/-- The nodes stand in ascending order of their numbers. -/
theorem pairwise_nodes (graph : Graph) : graph.nodes.Pairwise fun a b => a.1 < b.1 := by
  rw [nodes, located, List.pairwise_filterMap]
  refine graph.pairwise_uids.imp fun {a b} hlt node hnode other hother => ?_
  obtain ⟨_, _, rfl⟩ := Option.map_eq_some_iff.mp hnode
  obtain ⟨_, _, rfl⟩ := Option.map_eq_some_iff.mp hother
  exact hlt

/-- Looking up the numbers of existing nodes gives the nodes back. -/
theorem located_map_fst {graph : Graph} {found : List (Uid × Vertex)}
    (hfound : ∀ node ∈ found, graph.vertex? node.1 = some node.2) :
    graph.located (found.map Prod.fst) = found := by
  induction found with
  | nil => rfl
  | cons node found ih =>
    have hnode := hfound node List.mem_cons_self
    have hrest := ih fun other hother => hfound other (List.mem_cons_of_mem _ hother)
    rw [List.map_cons, located_cons_some hnode, hrest]

/-- Looking up numbers leaves those that belong to a node, in their order. -/
theorem sublist_located (graph : Graph) (uids : List Uid) :
    ((graph.located uids).map Prod.fst).Sublist uids := by
  induction uids with
  | nil => exact List.Sublist.slnil
  | cons uid uids ih =>
    cases hvertex : graph.vertex? uid with
    | none => exact (located_cons_none hvertex uids) ▸ ih.cons uid
    | some vertex => exact (located_cons_some hvertex uids) ▸ ih.cons_cons uid

/-- Looking up some of the numbers of the graph gives the nodes with these numbers. -/
theorem located_filter (graph : Graph) (test : Uid → Bool) :
    graph.located (graph.uids.filter test) = graph.nodes.filter fun node => test node.1 := by
  rw [nodes]
  induction graph.uids with
  | nil => rfl
  | cons uid uids ih =>
    cases hvertex : graph.vertex? uid with
    | none =>
      rw [located_cons_none hvertex, ← ih, List.filter_cons]
      split_ifs
      · rw [located_cons_none hvertex]
      · rfl
    | some vertex =>
      rw [located_cons_some hvertex, List.filter_cons, List.filter_cons, ← ih]
      split_ifs
      · rw [located_cons_some hvertex]
      · rfl

/-- A filter on numbers that looks at the nodes is a filter on the nodes. -/
theorem filter_uids_eq (graph : Graph) (test : Vertex → Bool) (uids : List Uid) :
    (uids.filter fun uid =>
      match graph.vertex? uid with
      | some vertex => test vertex
      | none => false) = ((graph.located uids).filter fun node => test node.2).map Prod.fst := by
  induction uids with
  | nil => rfl
  | cons uid uids ih =>
    rw [List.filter_cons, ih]
    cases hvertex : graph.vertex? uid with
    | none => rw [located_cons_none hvertex, if_neg (by simp)]
    | some vertex =>
      rw [located_cons_some hvertex, List.filter_cons]
      cases htest : test vertex <;> simp [htest]

/-- The nodes with a predicate. -/
theorem withPredicate_eq (graph : Graph) (predicate : String) :
    graph.withPredicate predicate =
      (graph.nodes.filter fun node => node.2.has predicate).map Prod.fst :=
  graph.filter_uids_eq (fun vertex => vertex.has predicate) graph.uids

/-- The nodes that point at a node. -/
theorem sources_eq (graph : Graph) (predicate : String) (target : Uid) :
    graph.sources predicate target =
      (graph.nodes.filter fun node => (node.2.targets predicate).contains target).map Prod.fst :=
  graph.filter_uids_eq (fun vertex => (vertex.targets predicate).contains target) graph.uids

/-- The nodes that a path leads to and that pass a filter. -/
def adjacent (graph : Graph) (uid : Uid) (path : EdgePath) (filter? : Option Filter) :
    List (Uid × Vertex) :=
  (graph.located (if path.reverse then graph.sources path.predicate uid
    else graph.destinations path.predicate uid)).filter fun node => Filter.admits filter? node.2

/-- The neighbours of a node are the numbers of the nodes a path leads to. -/
theorem neighbours_eq (graph : Graph) (uid : Uid) (path : EdgePath) (filter? : Option Filter) :
    graph.neighbours uid path filter? = (graph.adjacent uid path filter?).map Prod.fst :=
  graph.filter_uids_eq (Filter.admits filter?) _

/-- What a path leads to are nodes of the graph. -/
theorem vertex?_of_mem_adjacent {graph : Graph} {uid : Uid} {path : EdgePath}
    {filter? : Option Filter} {node : Uid × Vertex}
    (hnode : node ∈ graph.adjacent uid path filter?) : graph.vertex? node.1 = some node.2 :=
  (mem_located.mp (List.mem_filter.mp hnode).1).2

/-- Along an edge a path leads to those of its targets that exist, in the order of the edges. -/
theorem adjacent_forward {graph : Graph} {node : Uid × Vertex} (hnode : node ∈ graph.nodes)
    (predicate : String) :
    graph.adjacent node.1 (.forward predicate) none =
      graph.located (node.2.targets predicate) := by
  have hdestinations : graph.destinations predicate node.1 = node.2.targets predicate := by
    rw [destinations, mem_nodes.mp hnode]
  change (graph.located (graph.destinations predicate node.1)).filter (fun _ => true) = _
  rw [hdestinations, List.filter_true]

/-- Against the direction of an edge a path leads to the nodes that point here, ascending. -/
theorem adjacent_backward (graph : Graph) (uid : Uid) (predicate : String)
    (filter? : Option Filter) :
    graph.adjacent uid (.backward predicate) filter? =
      graph.nodes.filter fun node =>
        (node.2.targets predicate).contains uid && Filter.admits filter? node.2 := by
  have hsources : ∀ node ∈ graph.nodes.filter fun node => (node.2.targets predicate).contains uid,
      graph.vertex? node.1 = some node.2 :=
    fun node hnode => mem_nodes.mp (List.mem_filter.mp hnode).1
  change ((graph.located (graph.sources predicate uid)).filter _) = _
  rw [sources_eq, located_map_fst hsources, List.filter_filter]
  simp only [Bool.and_comm]

/-- A block selects from the nodes it starts from that pass its filter. -/
theorem admitted_eq (graph : Graph) (block : Block) (roots : List Uid) :
    graph.admitted block roots =
      (graph.located roots).filter fun node => Filter.admits block.filter? node.2 := by
  induction roots with
  | nil => rfl
  | cons uid roots ih =>
    rw [admitted] at ih ⊢
    cases hvertex : graph.vertex? uid with
    | none => rw [located_cons_none hvertex, List.filterMap_cons_none (by rw [hvertex]), ih]
    | some vertex =>
      rw [located_cons_some hvertex, List.filter_cons, List.filterMap_cons, hvertex, ih]
      cases hadmits : Filter.admits block.filter? vertex <;> simp [hadmits]

/-- A block over all nodes with a predicate selects from those that pass its filter. -/
theorem admitted_withPredicate (graph : Graph) (block : Block) (predicate : String) :
    graph.admitted block (graph.withPredicate predicate) =
      graph.nodes.filter fun node =>
        node.2.has predicate && Filter.admits block.filter? node.2 := by
  have hroots : ∀ node ∈ graph.nodes.filter fun node => node.2.has predicate,
      graph.vertex? node.1 = some node.2 :=
    fun node hnode => mem_nodes.mp (List.mem_filter.mp hnode).1
  rw [admitted_eq, withPredicate_eq, located_map_fst hroots, List.filter_filter]
  simp only [Bool.and_comm]

/-- A block starts from nodes of the graph, ascending and each once. -/
theorem sublist_of_roots {graph : Graph} {gathered : Gathered} {root : Root} {uids : List Uid}
    (hroots : graph.roots gathered root = .ok uids) : uids.Sublist graph.uids := by
  cases root with
  | has predicate =>
    cases hroots
    exact List.filter_sublist
  | uid name =>
    rw [roots] at hroots
    split at hroots
    · cases hroots
      exact List.filter_sublist
    · cases hroots

end Graph

end PodCosts
