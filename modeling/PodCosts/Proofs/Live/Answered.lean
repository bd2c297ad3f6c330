import PodCosts.Proofs.Graph.Answers
import PodCosts.Proofs.Graph.Pods
import Mathlib.Logic.Function.Basic

/-!
# What is answered about the pods that have not ended

Each pod that has not ended is answered with its name, with the nodes it talks to and with the
services that select it. Where every node has a name none of them is left out, so the answers stand
in the order of the nodes.
-/

namespace PodCosts

/-! ## Fields that hold given values -/

/-- Fields in the order of their names that hold the given values and no others. -/
structure Fields.Hold (fields : List (String × Json)) (held : String → Option Json) : Prop where
  sorted : Fields.Sorted fields
  get?_eq : ∀ name, Fields.get? name fields = held name

namespace Fields.Hold

variable {fields : List (String × Json)} {held : String → Option Json}

/-- Fields can be written if the values they hold can. -/
theorem finite (h : Hold fields held) (hheld : ∀ name, ∀ value ∈ held name, value.Finite) :
    Json.FieldsFinite fields := by
  refine Json.fieldsFinite_iff.mpr fun field hfield => ?_
  have hvalue := h.sorted.get?_of_mem hfield
  rw [h.get?_eq] at hvalue
  exact hheld field.1 field.2 hvalue

/-- Values that can be written stay so when another one is added. -/
theorem finite_update (hheld : ∀ name, ∀ value ∈ held name, value.Finite) {key : String}
    {value? : Option Json} (hvalue : ∀ value ∈ value?, value.Finite) :
    ∀ name, ∀ value ∈ Function.update held key value? name, value.Finite := by
  intro name value hmem
  by_cases hname : name = key
  · subst hname
    rw [Function.update_self] at hmem
    exact hvalue value hmem
  · rw [Function.update_of_ne hname] at hmem
    exact hheld name value hmem

/-- Fields that hold a value are not empty. -/
theorem ne_nil (h : Hold fields held) (name : String) (hname : (held name).isSome) :
    fields ≠ [] := by
  rintro rfl
  rw [← h.get?_eq] at hname
  cases hname

end Fields.Hold

namespace Selection

/-- Selecting a predicate adds its value. -/
theorem exists_pick_plain (graph : Graph) (node : Uid × Vertex) {picked : Picked}
    {held : String → Option Json} (h : Fields.Hold picked.fields held) {name : String}
    (hfresh : held name = none) :
    ∃ next, pick graph node.1 node.2 picked (.predicate .plain name) = .ok next ∧
      Fields.Hold next.fields (Function.update held name (node.2.scalar? name)) := by
  refine ⟨_, pick_predicate graph node.1 node.2 picked .plain name, ?_, fun key => ?_⟩
  · exact Picked.sorted_fields_answer h.sorted _ _
  · by_cases hkey : key = name
    · subst hkey
      rw [Function.update_self]
      exact Picked.get?_fields_answer_self ((h.get?_eq key).trans hfresh) _
    · rw [Function.update_of_ne hkey, ← h.get?_eq]
      exact Picked.get?_fields_answer_of_ne (Ne.symm hkey) _ _

/-- Following an edge adds the answers for the nodes it leads to, if each of them has one. -/
theorem exists_pick_row {graph : Graph} {node : Uid × Vertex} {picked : Picked}
    {held : String → Option Json} (h : Fields.Hold picked.fields held) (tag : Tag)
    {path : EdgePath} {filter? : Option Filter} {selections : List Selection}
    (related : Uid × Vertex → List (String × Json) → Prop) {key : String}
    (hkey : key? (.edge tag path filter? selections) = some key) (hfresh : held key = none)
    (htargets : ∀ target ∈ graph.adjacent node.1 path filter?, ∃ next,
      pickAll graph target.1 target.2 Picked.nothing selections = .ok next ∧
        related target next.fields ∧ next.fields ≠ []) :
    ∃ next answers,
      pick graph node.1 node.2 picked (.edge tag path filter? selections) = .ok next ∧
      List.Forall₂ related (graph.adjacent node.1 path filter?) answers ∧
      Fields.Hold next.fields (Function.update held key (row answers)) := by
  obtain ⟨next, answers, hnext, hall, hself, hother, -⟩ :=
    exists_pick_edge hkey ((h.get?_eq key).trans hfresh) htargets
  have hrun : pickAll graph node.1 node.2 picked [.edge tag path filter? selections] =
      .ok next := by
    rw [pickAll_cons_of_ok hnext, pickAll_nil]
  refine ⟨next, answers, hnext, hall, sorted_fields_of_pickAll hrun h.sorted, fun other => ?_⟩
  by_cases heq : other = key
  · subst heq
    rw [Function.update_self, hself]
  · rw [Function.update_of_ne heq, hother other (Ne.symm heq), h.get?_eq]

/-- A row can be written if each of its answers can. -/
theorem finite_row {answers : List (List (String × Json))}
    (hanswers : ∀ answer ∈ answers, Json.FieldsFinite answer) :
    ∀ value ∈ row answers, value.Finite := by
  unfold row
  split_ifs
  · exact nofun
  · rintro value ⟨⟩
    refine Json.itemsFinite_iff.mpr fun item hitem => ?_
    obtain ⟨answer, hanswer, rfl⟩ := List.mem_map.mp hitem
    exact hanswers answer hanswer

end Selection

namespace Vertex

/-- What a node is answered with by its name. -/
def named (vertex : Vertex) : String → Option Json :=
  Function.update (fun _ => none) Predicate.name (vertex.scalar? Predicate.name)

/-- What a node is answered with by its name and the number of its interactions. -/
def counted (vertex : Vertex) : String → Option Json :=
  Function.update vertex.named Predicate.interactionCount
    (vertex.scalar? Predicate.interactionCount)

/-- What a pod is answered with, given the answers for the nodes it talks to and for the services
that select it. -/
def listed (vertex : Vertex) (talked serving : List (List (String × Json))) :
    String → Option Json :=
  Function.update (Function.update vertex.named "pod" (Selection.row talked)) "cid"
    (Selection.row serving)

variable {vertex : Vertex}

/-- Where a string is recorded, something is. -/
theorem isSome_scalar?_of_text {predicate : String} (h : (vertex.text? predicate).isSome) :
    (vertex.scalar? predicate).isSome := by
  unfold text? at h
  split at h
  · rename_i text htext
    rw [htext]
    rfl
  · cases h

end Vertex

namespace Graph

/-- The pods that have not ended, ascending. -/
def livePods (graph : Graph) : List (Uid × Vertex) :=
  graph.nodes.filter fun node => node.2.has Kind.pod.marker && !node.2.has Predicate.endTime

/-- The answer for a pod has its name, the nodes it talks to in the order of its edges, and the
services that select it, ascending. -/
def PodListed (graph : Graph) (pod : Uid × Vertex) (fields : List (String × Json)) : Prop :=
  ∃ talked serving, Fields.Hold fields (pod.2.listed talked serving) ∧
    List.Forall₂ (fun target answer => Fields.Hold answer target.2.counted)
      (graph.located (pod.2.targets Predicate.podEdge)) talked ∧
    List.Forall₂ (fun service answer => Fields.Hold answer service.2.named)
      (graph.pointingAt .service pod.1) serving

/-- Whether every node of a graph has a name. -/
def Named (graph : Graph) : Prop :=
  ∀ node ∈ graph.nodes, (node.2.text? Predicate.name).isSome

instance (graph : Graph) : Decidable graph.Named :=
  inferInstanceAs (Decidable (∀ node ∈ graph.nodes, (node.2.text? Predicate.name).isSome = true))

variable {graph : Graph}

open Request (nameOnly)

/-- In a graph of named nodes every node has a recorded name. -/
theorem Named.isSome_scalar? (h : graph.Named) {node : Uid × Vertex}
    (hnode : graph.vertex? node.1 = some node.2) :
    (node.2.scalar? Predicate.name).isSome :=
  Vertex.isSome_scalar?_of_text (h node (mem_nodes.mpr hnode))

/-- A node with a name is answered with it. -/
theorem exists_pickAll_named (graph : Graph) (node : Uid × Vertex) :
    ∃ next, Selection.pickAll graph node.1 node.2 Picked.nothing [nameOnly] = .ok next ∧
      Fields.Hold next.fields node.2.named := by
  have hnothing : Fields.Hold Picked.nothing.fields fun _ => none :=
    ⟨Picked.sorted_fields_nothing, fun _ => rfl⟩
  obtain ⟨next, hnext, hnamed⟩ := Selection.exists_pick_plain graph node hnothing rfl
  exact ⟨next, by rw [nameOnly, Selection.pickAll_cons_of_ok hnext, Selection.pickAll_nil], hnamed⟩

/-- A node is answered with its name and with the number of its interactions. -/
theorem exists_pickAll_counted (graph : Graph) (node : Uid × Vertex) :
    ∃ next, Selection.pickAll graph node.1 node.2 Picked.nothing
        [nameOnly, .predicate .plain Predicate.interactionCount] = .ok next ∧
      Fields.Hold next.fields node.2.counted := by
  obtain ⟨first, hfirst, hnamed⟩ := graph.exists_pickAll_named node
  have hfresh : node.2.named Predicate.interactionCount = none := rfl
  obtain ⟨next, hnext, hcounted⟩ := Selection.exists_pick_plain graph node hnamed hfresh
  refine ⟨next, ?_, hcounted⟩
  have hrun := Selection.pickAll_append_of_ok hfirst [.predicate .plain Predicate.interactionCount]
  rw [Selection.pickAll_cons_of_ok hnext, Selection.pickAll_nil] at hrun
  exact hrun

/-- A pod is answered with its name and its neighbours, none of which is left out where every node
has a name. -/
theorem Named.exists_pickAll_podListed (hnamed : graph.Named) {pod : Uid × Vertex}
    (hpod : pod ∈ graph.nodes) :
    ∃ next, Selection.pickAll graph pod.1 pod.2 Picked.nothing
        [nameOnly,
          .edge .plain (.forward Predicate.podEdge) none
            [nameOnly, .predicate .plain Predicate.interactionCount],
          Request.pointingAtPod (.named "cid") .service [nameOnly]] = .ok next ∧
      graph.PodListed pod next.fields ∧ next.fields ≠ [] := by
  obtain ⟨first, hfirst, hheld⟩ := graph.exists_pickAll_named pod
  have htalked : ∀ target ∈ graph.adjacent pod.1 (.forward Predicate.podEdge) none, ∃ next,
      Selection.pickAll graph target.1 target.2 Picked.nothing
          [nameOnly, .predicate .plain Predicate.interactionCount] = .ok next ∧
        Fields.Hold next.fields target.2.counted ∧ next.fields ≠ [] := by
    intro target htarget
    obtain ⟨next, hnext, hcounted⟩ := graph.exists_pickAll_counted target
    have hname := hnamed.isSome_scalar? (vertex?_of_mem_adjacent htarget)
    exact ⟨next, hnext, hcounted, hcounted.ne_nil Predicate.name hname⟩
  have hserving : ∀ service ∈ graph.adjacent pod.1 (.backward Predicate.podEdge)
      (some (.has Kind.service.marker)), ∃ next,
      Selection.pickAll graph service.1 service.2 Picked.nothing [nameOnly] = .ok next ∧
        Fields.Hold next.fields service.2.named ∧ next.fields ≠ [] := by
    intro service hservice
    obtain ⟨next, hnext, hheld⟩ := graph.exists_pickAll_named service
    have hname := hnamed.isSome_scalar? (vertex?_of_mem_adjacent hservice)
    exact ⟨next, hnext, hheld, hheld.ne_nil Predicate.name hname⟩
  obtain ⟨second, talked, hsecond, hall, hheld⟩ := Selection.exists_pick_row hheld .plain
    (fun target answer => Fields.Hold answer target.2.counted) rfl rfl htalked
  obtain ⟨third, serving, hthird, hservices, hheld⟩ := Selection.exists_pick_row hheld
    (.named "cid") (fun service answer => Fields.Hold answer service.2.named) rfl rfl hserving
  rw [adjacent_forward hpod] at hall
  rw [adjacent_pointingAt] at hservices
  have hname := hnamed.isSome_scalar? (mem_nodes.mp hpod)
  have hrest : Selection.pickAll graph pod.1 pod.2 first
      [.edge .plain (.forward Predicate.podEdge) none
          [nameOnly, .predicate .plain Predicate.interactionCount],
        Request.pointingAtPod (.named "cid") .service [nameOnly]] = .ok third := by
    rw [Selection.pickAll_cons_of_ok hsecond, Request.pointingAtPod,
      Selection.pickAll_cons_of_ok hthird, Selection.pickAll_nil]
  exact ⟨third, (Selection.pickAll_append_of_ok hfirst _).trans hrest,
    ⟨talked, serving, hheld, hall, hservices⟩, hheld.ne_nil Predicate.name hname⟩

/-- The request for the pods that have not ended is answered with these pods, ascending. -/
theorem Named.evaluate_livePods (hnamed : graph.Named) :
    ∃ answers, graph.evaluate Request.livePods =
        .ok (.object [(Request.podsBlock, .array (answers.map .object))]) ∧
      List.Forall₂ graph.PodListed graph.livePods answers := by
  have hstep : ∀ pod ∈ graph.livePods, ∃ next,
      Selection.pickAll graph pod.1 pod.2 Picked.nothing
          [nameOnly,
            .edge .plain (.forward Predicate.podEdge) none
              [nameOnly, .predicate .plain Predicate.interactionCount],
            Request.pointingAtPod (.named "cid") .service [nameOnly]] = .ok next ∧
        graph.PodListed pod next.fields ∧ next.fields ≠ [] := by
    intro pod hpod
    exact hnamed.exists_pickAll_podListed (List.mem_filter.mp hpod).1
  obtain ⟨picks, hpicks, hall⟩ := exists_mapM_eq_ok hstep
  have hfilter : (graph.nodes.filter fun node => node.2.has Kind.pod.marker &&
      Filter.admits (some (.not (.has Predicate.endTime))) node.2) = graph.livePods := by
    simp only [Filter.admits, Filter.accepts, livePods]
  refine ⟨picks.map Picked.fields, ?_, ?_⟩
  · rw [Request.livePods, evaluate_single _ rfl, Request.allOf, runBlock_has, hfilter, hpicks,
      ← Picked.objects_eq_map hall fun _ _ h => h.2]
    rfl
  · rw [List.forall₂_map_right_iff]
    exact hall.imp fun _ _ h => h.1

/-! ## Answers that can be written -/

variable (hdocumented : graph.Documented)
include hdocumented

/-- The name of a recorded node can be written. -/
theorem Documented.finite_named {node : Uid × Vertex} (hnode : graph.vertex? node.1 = some node.2) :
    ∀ name, ∀ value ∈ node.2.named name, value.Finite :=
  Fields.Hold.finite_update (fun _ _ h => by cases h) fun _ hvalue =>
    hdocumented.finite_scalar hnode hvalue

/-- The name and the count of a recorded node can be written. -/
theorem Documented.finite_counted {node : Uid × Vertex}
    (hnode : graph.vertex? node.1 = some node.2) :
    ∀ name, ∀ value ∈ node.2.counted name, value.Finite :=
  Fields.Hold.finite_update (hdocumented.finite_named hnode) fun _ hvalue =>
    hdocumented.finite_scalar hnode hvalue

/-- The answer for a listed pod can be written. -/
theorem PodListed.finite {pod : Uid × Vertex} (hpod : pod ∈ graph.nodes)
    {fields : List (String × Json)} (h : graph.PodListed pod fields) :
    (Json.object fields).Finite := by
  obtain ⟨talked, serving, hheld, hall, hservices⟩ := h
  have htalked : ∀ answer ∈ talked, Json.FieldsFinite answer := by
    intro answer hanswer
    obtain ⟨target, htarget, hcounted⟩ := exists_of_mem_forall₂ hall hanswer
    exact hcounted.finite (hdocumented.finite_counted (mem_located.mp htarget).2)
  have hserving : ∀ answer ∈ serving, Json.FieldsFinite answer := by
    intro answer hanswer
    obtain ⟨service, hservice, hnamed⟩ := exists_of_mem_forall₂ hservices hanswer
    have hnode := mem_nodes.mp (List.mem_filter.mp hservice).1
    exact hnamed.finite (hdocumented.finite_named hnode)
  have hown := hdocumented.finite_named (mem_nodes.mp hpod)
  exact hheld.finite (Fields.Hold.finite_update
    (Fields.Hold.finite_update hown (Selection.finite_row htalked)) (Selection.finite_row hserving))

end Graph

end PodCosts
