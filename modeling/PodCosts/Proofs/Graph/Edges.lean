import PodCosts.Proofs.Graph.Reachable

/-!
# Edges from both ends

An edge is recorded at its source once for every time it is linked. Followed from its source it
leads to its target just as often. Followed from its target it leads to its source at most once,
since the sources are found by looking through all nodes.
-/

namespace PodCosts.Graph

/-- What can be done to a graph. -/
inductive Change where
  | insert (scalars : Json)
  | link (source : Uid) (predicate : String) (target : Uid)

/-- Whether a change links two nodes under a predicate. -/
def Change.links (source : Uid) (predicate : String) (target : Uid) : Change → Bool
  | .insert _ => false
  | .link origin name far => origin == source && name == predicate && far == target

/-- A graph after one change. -/
def changed (graph : Graph) : Change → Graph
  | .insert scalars => graph.insert scalars
  | .link source predicate target => graph.link source predicate target

/-- A graph after some changes, one after the other. -/
def after (graph : Graph) (changes : List Change) : Graph :=
  changes.foldl changed graph

/-- How often a list of changes links two nodes while there is a source to link from. -/
def timesLinked (graph : Graph) (source : Uid) (predicate : String) (target : Uid) :
    List Change → Nat
  | [] => 0
  | change :: changes =>
    let made := change.links source predicate target && (graph.vertex? source).isSome
    made.toNat + (graph.changed change).timesLinked source predicate target changes

section

variable (graph : Graph) (predicate : String) (source target : Uid)

/-- A new node is the source of no edge. -/
theorem destinations_insert (scalars : Json) :
    (graph.insert scalars).destinations predicate source = graph.destinations predicate source := by
  rw [destinations, destinations, vertex?_insert]
  by_cases hnew : source = graph.nextUid
  · have habsent : graph.vertex? source = none := by
      rw [hnew]
      exact List.getElem?_eq_none (le_refl _)
    rw [if_pos hnew, habsent]
    rfl
  · rw [if_neg hnew]

/-- A link from a node that does not exist changes nothing. -/
theorem destinations_link_of_absent (habsent : graph.vertex? source = none) (name : String)
    (other : Uid) :
    (graph.link source name other).destinations predicate source =
      graph.destinations predicate source := by
  rw [destinations, destinations, vertex?_link, if_pos rfl, habsent]
  rfl

/-- A link changes the edges of its own source only. -/
theorem destinations_link_of_ne {origin : Uid} (hne : source ≠ origin) (name : String)
    (other : Uid) :
    (graph.link origin name other).destinations predicate source =
      graph.destinations predicate source := by
  rw [destinations, destinations, vertex?_link, if_neg hne]

/-- A link changes the edges of its own predicate only. -/
theorem destinations_link_of_ne_predicate {name : String} (hne : name ≠ predicate) (other : Uid) :
    (graph.link source name other).destinations predicate source =
      graph.destinations predicate source := by
  rw [destinations, destinations, vertex?_link, if_pos rfl]
  cases graph.vertex? source with
  | none => rfl
  | some vertex => exact Vertex.targets_link_of_ne hne vertex other

/-- A link from an existing node comes behind the others. -/
theorem destinations_link_self (hsource : (graph.vertex? source).isSome) :
    (graph.link source predicate target).destinations predicate source =
      graph.destinations predicate source ++ [target] := by
  obtain ⟨vertex, hvertex⟩ := Option.isSome_iff_exists.mp hsource
  rw [destinations, destinations, vertex?_link, if_pos rfl, hvertex]
  exact vertex.targets_link_self predicate target

/-- A change records two nodes once more exactly if it links them and there is a source. -/
theorem count_destinations_changed (change : Change) :
    ((graph.changed change).destinations predicate source).count target =
      (change.links source predicate target && (graph.vertex? source).isSome).toNat +
        (graph.destinations predicate source).count target := by
  cases change with
  | insert scalars =>
    rw [changed, destinations_insert]
    simp [Change.links]
  | link origin name far =>
    rw [changed]
    by_cases horigin : source = origin
    · subst horigin
      by_cases hname : name = predicate
      · subst hname
        cases hsource : (graph.vertex? source).isSome with
        | false =>
          have habsent : graph.vertex? source = none := by simpa using hsource
          rw [destinations_link_of_absent graph name source habsent]
          simp
        | true =>
          rw [destinations_link_self graph name source far hsource, List.count_append,
            List.count_singleton]
          by_cases hfar : far = target <;> simp [Change.links, hfar, Nat.add_comm]
      · rw [destinations_link_of_ne_predicate graph predicate source hname]
        simp [Change.links, hname]
    · rw [destinations_link_of_ne graph predicate source horigin]
      simp [Change.links, Ne.symm horigin]

/-- Two nodes are recorded once for every time they have been linked. -/
theorem count_destinations_after (changes : List Change) :
    ((graph.after changes).destinations predicate source).count target =
      graph.timesLinked source predicate target changes +
        (graph.destinations predicate source).count target := by
  induction changes generalizing graph with
  | nil => rw [timesLinked, Nat.zero_add]; rfl
  | cons change changes ih =>
    have hrest := ih (graph.changed change)
    have hstep := graph.count_destinations_changed predicate source target change
    rw [after, List.foldl_cons, ← after, hrest, hstep, timesLinked]
    omega

end

section

variable {graph : Graph}

/-- Among existing nodes a node that passes a test counts as before, and any other not at all. -/
theorem count_map_fst_filter {found : List (Uid × Vertex)}
    (hfound : ∀ node ∈ found, graph.vertex? node.1 = some node.2) {node : Uid × Vertex}
    (hnode : node ∈ graph.nodes) (test : Uid × Vertex → Bool) :
    ((found.filter test).map Prod.fst).count node.1 =
      if test node then (found.map Prod.fst).count node.1 else 0 := by
  have hsame : ∀ other ∈ found, other.1 = node.1 → other = node := by
    intro other hother huid
    have hvertex := hfound other hother
    rw [huid, mem_nodes.mp hnode] at hvertex
    exact Prod.ext huid (Option.some.inj hvertex).symm
  by_cases htest : test node = true
  · rw [if_pos htest, List.count_eq_countP, List.count_eq_countP, List.countP_map,
      List.countP_map, List.countP_filter]
    refine List.countP_congr fun other hother => ?_
    constructor
    · intro hboth
      exact (Bool.and_eq_true_iff.mp hboth).1
    · intro huid
      have heq := hsame other hother (by simpa using huid)
      rw [heq, htest, Bool.and_true]
      simp
  · rw [if_neg htest, List.count_eq_zero]
    intro hmem
    obtain ⟨other, hother, huid⟩ := List.mem_map.mp hmem
    obtain ⟨hother, hpass⟩ := List.mem_filter.mp hother
    exact htest (hsame other hother huid ▸ hpass)

/-- Followed from its source an edge leads to an existing node as often as it is recorded. -/
theorem count_neighbours_forward {target : Uid × Vertex} (htarget : target ∈ graph.nodes)
    (predicate : String) (source : Uid) :
    (graph.neighbours source (.forward predicate) none).count target.1 =
      (graph.destinations predicate source).count target.1 := by
  apply List.count_filter
  rw [mem_nodes.mp htarget]
  rfl

/-- Followed from its target an edge leads to a source once, however often it is recorded. -/
theorem count_neighbours_backward {source : Uid × Vertex} (hsource : source ∈ graph.nodes)
    (predicate : String) (target : Uid) :
    (graph.neighbours target (.backward predicate) none).count source.1 =
      min ((graph.destinations predicate source.1).count target) 1 := by
  have hnodup : (graph.neighbours target (.backward predicate) none).Nodup := by
    rw [neighbours_eq, adjacent_backward]
    exact List.pairwise_map.mpr ((graph.pairwise_nodes.filter _).imp fun hlt => Nat.ne_of_lt hlt)
  have hmem : source.1 ∈ graph.neighbours target (.backward predicate) none ↔
      target ∈ graph.destinations predicate source.1 := by
    rw [neighbours_eq, adjacent_backward, fst_mem_map_filter hsource, destinations,
      mem_nodes.mp hsource]
    simp [Filter.admits]
  rw [hnodup.count]
  by_cases hlinked : target ∈ graph.destinations predicate source.1
  · have hpos := List.count_pos_iff.mpr hlinked
    rw [if_pos (hmem.mpr hlinked)]
    omega
  · have hzero := List.count_eq_zero.mpr hlinked
    rw [if_neg (mt hmem.mp hlinked), hzero]
    rfl

end

end PodCosts.Graph
