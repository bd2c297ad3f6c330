import PodCosts.Proofs.Graph.Edges
import PodCosts.Proofs.Graph.Selecting

/-!
# Nodes that have nothing to do with a query

A new node that no edge points at and that no block starts from changes no answer. Edges lead to the
same nodes as before, whatever their filters say about the new one, so the same nodes are selected
from and the same nodes are gathered for later blocks.
-/

namespace PodCosts

namespace Graph

/-- No recorded edge points at the number that the next node will get. -/
def NothingAwaits (graph : Graph) : Prop :=
  ∀ node ∈ graph.nodes, ∀ edge ∈ node.2.edges, graph.nextUid ∉ edge.2

instance (graph : Graph) : Decidable graph.NothingAwaits :=
  inferInstanceAs (Decidable (∀ node ∈ graph.nodes, ∀ edge ∈ node.2.edges, graph.nextUid ∉ edge.2))

/-- The number that the next node will get is not taken. -/
theorem nextUid_not_mem_uids (graph : Graph) : graph.nextUid ∉ graph.uids := by
  rw [uids, List.mem_range'_1, nextUid]
  omega

section

variable (graph : Graph) (scalars : Json)

/-- A new node gets the next number. -/
theorem uids_insert : (graph.insert scalars).uids = graph.uids ++ [graph.nextUid] := by
  have hlength : (graph.insert scalars).vertices.length = graph.vertices.length + 1 := by
    cases scalars <;> exact List.length_append
  rw [uids, hlength, List.range'_1_concat, uids, nextUid, Nat.add_comm]

/-- Numbers other than the new one belong to the same nodes as before. -/
theorem located_insert {uids : List Uid} (hnew : graph.nextUid ∉ uids) :
    (graph.insert scalars).located uids = graph.located uids := by
  refine List.filterMap_congr fun uid huid => ?_
  have hold : uid ≠ graph.nextUid := fun heq => hnew (heq ▸ huid)
  rw [vertex?_insert, if_neg hold]

/-- A new node stands behind all others. -/
theorem nodes_insert :
    (graph.insert scalars).nodes = graph.nodes ++ [(graph.nextUid, ⟨scalars.fields, []⟩)] := by
  have hnew : (graph.insert scalars).vertex? graph.nextUid = some ⟨scalars.fields, []⟩ := by
    rw [vertex?_insert, if_pos rfl]
  rw [nodes, uids_insert, located, List.filterMap_append, ← located, ← located,
    located_insert graph scalars graph.nextUid_not_mem_uids, located_cons_some hnew]
  rfl

/-- A new node points at nothing. -/
theorem sources_insert (predicate : String) (target : Uid) :
    (graph.insert scalars).sources predicate target = graph.sources predicate target := by
  rw [sources_eq, sources_eq, nodes_insert, List.filter_append, List.filter_cons_of_neg
    (by simp [Vertex.targets]), List.filter_nil, List.append_nil]

/-- Where nothing awaits the new number, no edge leads to it. -/
theorem nextUid_not_mem_destinations {graph : Graph} (hawaits : graph.NothingAwaits)
    (predicate : String) (source : Uid) : graph.nextUid ∉ graph.destinations predicate source := by
  rw [destinations]
  cases hvertex : graph.vertex? source with
  | none => exact List.not_mem_nil
  | some vertex =>
    intro htarget
    obtain ⟨edge, hedge, hmem⟩ := Vertex.exists_edge_of_mem_targets htarget
    exact hawaits (source, vertex) (mem_nodes.mpr hvertex) edge hedge hmem

/-- Every path leads from every node to the same nodes as before. -/
theorem adjacent_insert {graph : Graph} (hawaits : graph.NothingAwaits) (scalars : Json) (uid : Uid)
    (path : EdgePath) (filter? : Option Filter) :
    (graph.insert scalars).adjacent uid path filter? = graph.adjacent uid path filter? := by
  have hcandidates : graph.nextUid ∉
      if path.reverse then graph.sources path.predicate uid
      else graph.destinations path.predicate uid := by
    split_ifs
    · exact fun hmem => graph.nextUid_not_mem_uids (List.mem_filter.mp hmem).1
    · exact nextUid_not_mem_destinations hawaits path.predicate uid
  rw [adjacent, adjacent, sources_insert, destinations_insert, located_insert _ _ hcandidates]

end

end Graph

namespace Selection

mutual

/-- A selection leaves the same behind as before, for every node and whatever has been selected from
it so far. -/
theorem pick_insert {graph : Graph} (hawaits : graph.NothingAwaits) (scalars : Json) (uid : Uid)
    (vertex : Vertex) (picked : Picked) (selection : Selection) :
    pick (graph.insert scalars) uid vertex picked selection =
      pick graph uid vertex picked selection := by
  match selection with
  | .uid tag => rw [pick_uid, pick_uid]
  | .predicate tag name => rw [pick_predicate, pick_predicate]
  | .count tag name => rw [pick_count, pick_count]
  | .math tag expr => rw [pick, pick]; rfl
  | .edge tag path filter? selections =>
    have hinner : ∀ node : Uid × Vertex,
        pickAll (graph.insert scalars) node.1 node.2 Picked.nothing selections =
          pickAll graph node.1 node.2 Picked.nothing selections :=
      fun node => pickAll_insert hawaits scalars node.1 node.2 Picked.nothing selections
    have hneighbours : (graph.insert scalars).neighbours uid path filter? =
        graph.neighbours uid path filter? := by
      rw [Graph.neighbours_eq, Graph.neighbours_eq, Graph.adjacent_insert hawaits]
    rw [pick_edge, pick_edge, Graph.adjacent_insert hawaits]
    simp only [hinner, edgePicked, hneighbours]

/-- Selections select the same from the old nodes once there is a new one that no edge awaits. -/
theorem pickAll_insert {graph : Graph} (hawaits : graph.NothingAwaits) (scalars : Json) (uid : Uid)
    (vertex : Vertex) (picked : Picked) (selections : List Selection) :
    pickAll (graph.insert scalars) uid vertex picked selections =
      pickAll graph uid vertex picked selections := by
  match selections with
  | [] => rw [pickAll_nil, pickAll_nil]
  | selection :: rest =>
    rw [pickAll_cons, pickAll_cons, pick_insert hawaits]
    exact bind_congr fun next => pickAll_insert hawaits scalars uid vertex next rest

end

end Selection

/-! ## What is gathered exists -/

/-- Whether only nodes of a graph have been gathered. -/
def Gathered.Within (gathered : Gathered) (graph : Graph) : Prop :=
  ∀ binding ∈ gathered, binding.2 ⊆ graph.uids

namespace Gathered

variable {graph : Graph} {gathered : Gathered}

/-- Where nothing is gathered, nothing foreign is. -/
theorem within_nil (graph : Graph) : Within [] graph :=
  fun _ h => absurd h List.not_mem_nil

/-- Nodes of the graph that are gathered twice over are nodes of the graph. -/
theorem Within.append {other : Gathered} (h : gathered.Within graph) (hother : other.Within graph) :
    Within (gathered ++ other) graph :=
  List.forall_mem_append.mpr ⟨h, hother⟩

/-- What is gathered at each of some nodes is gathered at all of them. -/
theorem within_flatMap {picks : List Picked} (h : ∀ picked ∈ picks, picked.gathered.Within graph) :
    Within (picks.flatMap Picked.gathered) graph := by
  intro binding hbinding
  obtain ⟨picked, hpicked, hmem⟩ := List.mem_flatMap.mp hbinding
  exact h picked hpicked binding hmem

/-- A variable holds nothing but nodes of the graph. -/
theorem Within.nodes? (h : gathered.Within graph) {name : String} {uids : List Uid}
    (huids : gathered.nodes? name = some uids) : uids ⊆ graph.uids := by
  simp only [Gathered.nodes?] at huids
  split_ifs at huids
  rw [← Option.some.inj huids]
  intro uid huid
  obtain ⟨binding, hbinding, hmem⟩ := List.mem_flatMap.mp huid
  exact h binding (List.mem_filter.mp hbinding).1 hmem

end Gathered

namespace Selection

variable {graph : Graph}

mutual

/-- Edges gather nodes of the graph only, at every depth. -/
theorem within_pick {uid : Uid} {vertex : Vertex} {picked next : Picked}
    (hpicked : picked.gathered.Within graph) (selection : Selection)
    (hpick : pick graph uid vertex picked selection = .ok next) : next.gathered.Within graph := by
  match selection with
  | .uid tag =>
    rw [pick_uid] at hpick
    cases hpick
    rwa [Picked.gathered_answer]
  | .predicate tag name =>
    rw [pick_predicate] at hpick
    cases hpick
    rwa [Picked.gathered_answer, Picked.gathered_bind]
  | .count tag name =>
    rw [pick_count] at hpick
    cases hpick
    rwa [Picked.gathered_answer, Picked.gathered_bind]
  | .math tag expr =>
    obtain ⟨value?, -, rfl⟩ := exists_eval_of_pick_math hpick
    rwa [Picked.gathered_answer, Picked.gathered_bind]
  | .edge tag path filter? selections =>
    obtain ⟨picks, hall, rfl⟩ := exists_picks_of_pick_edge hpick
    have hpicks : ∀ found ∈ picks, found.gathered.Within graph := by
      intro found hfound
      obtain ⟨node, -, hrun⟩ := exists_of_mem_forall₂ hall hfound
      exact within_pickAll (Gathered.within_nil graph) selections hrun
    have htargets : graph.neighbours uid path filter? ⊆ graph.uids := by
      intro target htarget
      rw [Graph.neighbours_eq] at htarget
      obtain ⟨node, hnode, rfl⟩ := List.mem_map.mp htarget
      exact Graph.mem_uids_of_vertex? (Graph.vertex?_of_mem_adjacent hnode)
    rw [edgePicked, Picked.gathered_answer]
    refine (hpicked.append ?_).append (Gathered.within_flatMap hpicks)
    split
    · exact List.forall_mem_singleton.mpr htargets
    · exact Gathered.within_nil graph

/-- Selections gather nothing but nodes of the graph. -/
theorem within_pickAll {uid : Uid} {vertex : Vertex} {picked next : Picked}
    (hpicked : picked.gathered.Within graph) (selections : List Selection)
    (hpick : pickAll graph uid vertex picked selections = .ok next) :
    next.gathered.Within graph := by
  match selections with
  | [] =>
    rw [pickAll_nil] at hpick
    cases hpick
    exact hpicked
  | selection :: rest =>
    obtain ⟨between, hstep, hrest⟩ := exists_pick_of_pickAll_cons hpick
    exact within_pickAll (within_pick hpicked selection hstep) rest hrest

end

end Selection

namespace Graph

variable {graph : Graph}

/-- A block gathers nothing but nodes of the graph. -/
theorem within_runBlock {gathered : Gathered} {block : Block} {picks : List Picked}
    (hrun : graph.runBlock gathered block = .ok picks) :
    Gathered.Within (picks.flatMap Picked.gathered) graph := by
  refine Gathered.within_flatMap fun picked hpicked => ?_
  obtain ⟨roots, -, hvisit⟩ := exists_of_bind_eq_ok hrun
  obtain ⟨node, -, hpick⟩ := exists_of_mem_forall₂ (forall₂_of_mapM_eq_ok hvisit) hpicked
  exact Selection.within_pickAll (Gathered.within_nil graph) block.selections hpick

/-! ## Queries that a new node does not concern -/

variable {scalars : Json}

/-- A new node is not among those that a block starts from, if it has nothing under the predicate of
the block. -/
theorem roots_insert {gathered : Gathered} (hgathered : gathered.Within graph) {root : Root}
    (hroot : ∀ predicate, root = .has predicate →
      ∀ value ∈ Fields.get? predicate scalars.fields, value = .null) :
    (graph.insert scalars).roots gathered root = graph.roots gathered root := by
  cases root with
  | has predicate =>
    have hnone : (Vertex.mk scalars.fields []).scalar? predicate = none :=
      Vertex.scalar?_eq_none (hroot predicate rfl)
    have hnew : (Vertex.mk scalars.fields []).has predicate = false := by
      rw [Vertex.has, hnone]
      rfl
    rw [roots, roots, withPredicate_eq, withPredicate_eq, nodes_insert, List.filter_append,
      List.filter_cons_of_neg (by simp [hnew]), List.filter_nil, List.append_nil]
  | uid name =>
    rw [roots, roots]
    cases hnodes : gathered.nodes? name with
    | none => rfl
    | some uids =>
      have hnew : graph.nextUid ∉ uids :=
        fun hmem => graph.nextUid_not_mem_uids (hgathered.nodes? hnodes hmem)
      simp only [uids_insert, List.filter_append]
      rw [List.filter_cons_of_neg (by simpa using hnew), List.filter_nil, List.append_nil]

/-- A block selects the same from the same nodes. -/
theorem runBlock_insert (hawaits : graph.NothingAwaits) {gathered : Gathered}
    (hgathered : gathered.Within graph) {block : Block}
    (hroot : ∀ predicate, block.root = .has predicate →
      ∀ value ∈ Fields.get? predicate scalars.fields, value = .null) :
    (graph.insert scalars).runBlock gathered block = graph.runBlock gathered block := by
  rw [runBlock, runBlock, roots_insert hgathered hroot]
  refine bind_congr_of_ok fun roots hroots => ?_
  have hnew : graph.nextUid ∉ roots :=
    fun hmem => graph.nextUid_not_mem_uids ((sublist_of_roots hroots).subset hmem)
  rw [admitted_eq, admitted_eq, located_insert graph scalars hnew]
  simp only [Selection.pickAll_insert hawaits]

/-- Blocks answer the same once there is a new node that no edge awaits and no block starts from. -/
theorem runBlocks_insert (hawaits : graph.NothingAwaits) {blocks : List Block}
    (hblocks : ∀ block ∈ blocks, ∀ predicate, block.root = .has predicate →
      ∀ value ∈ Fields.get? predicate scalars.fields, value = .null)
    {gathered : Gathered} (hgathered : gathered.Within graph) (output : List (String × Json)) :
    (graph.insert scalars).runBlocks gathered output blocks =
      graph.runBlocks gathered output blocks := by
  induction blocks generalizing gathered output with
  | nil => rw [runBlocks, runBlocks]
  | cons block blocks ih =>
    obtain ⟨hfirst, hrest⟩ := List.forall_mem_cons.mp hblocks
    rw [runBlocks, runBlocks, runBlock_insert hawaits hgathered hfirst]
    refine bind_congr_of_ok fun picks hrun => ?_
    exact ih hrest (hgathered.append (within_runBlock hrun)) _

/-- A new node changes neither the answer to a query nor the reason why there is none, as long as no
edge points at its number already and no block starts from a predicate that it has a value for. -/
theorem evaluate_insert (graph : Graph) (query : Query) (scalars : Json)
    (hawaits : graph.NothingAwaits)
    (hroots : ∀ block ∈ query.blocks, ∀ predicate, block.root = .has predicate →
      ∀ value ∈ Fields.get? predicate scalars.fields, value = .null) :
    (graph.insert scalars).evaluate query = graph.evaluate query := by
  rw [evaluate, evaluate, runBlocks_insert hawaits hroots (Gathered.within_nil graph)]

/-- A service that is a pod only by a null, among pods that are asked for what they talk to and who
talks to them. One of them is linked to a number that no node has, and that the service does not get
either. -/
theorem evaluate_insert_service :
    let now : Instant := ⟨20745, 43200, 0, by decide, by decide, by decide⟩
    let web : Json := .object [("isPod", .bool true), ("name", .string "web")]
    let db : Json := .object [("isPod", .bool true), ("name", .string "db")]
    let service : Json := .object [("isPod", .null), ("isService", .bool true),
      ("name", .string "front")]
    let graph := (empty now).after
      [.insert web, .insert db, .link 1 "pod" 2, .link 1 "pod" 9]
    let talkers : Selection := .edge (.named "from") (.backward "pod")
      (some (.not (.has "endTime"))) [.predicate .plain "name"]
    let query : Query := ⟨[.silent (.has "isPod") none
        [.edge (.bound "found") (.forward "pod") none [.uid .plain]],
      ⟨"pods", .uid "found", some (.not (.has "isService")), [.uid .plain, talkers]⟩]⟩
    graph.NothingAwaits ∧
      (∀ block ∈ query.blocks, ∀ predicate, block.root = .has predicate →
        ∀ value ∈ Fields.get? predicate service.fields, value = .null) ∧
      (graph.insert service).evaluate query = graph.evaluate query ∧
      graph.evaluate query = .ok (.object [("pods", .array [.object
        [("from", .array [.object [("name", .string "web")]]), ("uid", .string "0x2")]])]) := by
  intro now web db service graph talkers query
  have hawaits : graph.NothingAwaits := by decide +kernel
  have hroots : ∀ block ∈ query.blocks, ∀ predicate, block.root = .has predicate →
      ∀ value ∈ Fields.get? predicate service.fields, value = .null := by
    refine List.forall_mem_cons.mpr ⟨?_, List.forall_mem_singleton.mpr ?_⟩
    · rintro predicate hroot value hvalue
      cases hroot
      cases hvalue
      rfl
    · rintro predicate hroot
      cases hroot
  refine ⟨hawaits, hroots, evaluate_insert graph query service hawaits hroots, ?_⟩
  rfl

end Graph

end PodCosts
