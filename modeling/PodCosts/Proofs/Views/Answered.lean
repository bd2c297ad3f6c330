import PodCosts.Proofs.Costs
import PodCosts.Proofs.Graph.Answers
import PodCosts.Proofs.Prices

/-!
# What is answered about a pod

The plain request for a pod and the request for its costs visit the same pods and the same
containers. Both answer the name and the type of each of them. The second one adds numbers, and
nothing else that a view shows.
-/

namespace PodCosts

/-- The names of the fields of a shown node that hold numbers. -/
def Hierarchy.numberNames : List String :=
  ["cpu", "memory", "storage", "cpuCost", "memoryCost", "storageCost"]

namespace Vertex

/-- A node has a name, and whatever else views show of it is recorded in a readable form. -/
structure Presentable (vertex : Vertex) : Prop where
  name : (vertex.text? Predicate.name).isSome
  type : vertex.TextOrNothing Predicate.type
  billable : vertex.Billable

instance (vertex : Vertex) : Decidable vertex.Presentable :=
  decidable_of_iff ((vertex.text? Predicate.name).isSome ∧ vertex.TextOrNothing Predicate.type ∧
      vertex.Billable)
    ⟨fun ⟨name, type, billable⟩ => ⟨name, type, billable⟩, fun h => ⟨h.name, h.type, h.billable⟩⟩

/-- Whether every recorded value of a node can be written in an answer. -/
def Writable (vertex : Vertex) : Prop :=
  ∀ predicate value, vertex.scalar? predicate = some value → value.Finite

/-- The answer for a node has its name and its type, the answers for its children, and under the
names of numbers only such values as are allowed there. -/
structure Described (allowed : Json → Prop) (vertex : Vertex)
    (answers : List (List (String × Json))) (fields : List (String × Json)) : Prop where
  sorted : Fields.Sorted fields
  finite : Json.FieldsFinite fields
  name : Fields.get? Predicate.name fields = vertex.scalar? Predicate.name
  type : Fields.get? Predicate.type fields = vertex.scalar? Predicate.type
  children : Fields.get? "children" fields = childrenAnswer answers
  numbers : ∀ key ∈ Hierarchy.numberNames, ∀ value ∈ Fields.get? key fields, allowed value

/-- The name of a node that can be shown is recorded as a string. -/
theorem Presentable.scalar?_name {vertex : Vertex} (h : vertex.Presentable) :
    ∃ name, vertex.scalar? Predicate.name = some (.string name) ∧
      vertex.text? Predicate.name = some name := by
  obtain ⟨name, hname⟩ := Option.isSome_iff_exists.mp h.name
  refine ⟨name, ?_, hname⟩
  unfold text? at hname
  split at hname
  · rename_i text htext
    rw [htext, Option.some.inj hname]
  · cases hname

end Vertex

namespace Selection

/-- Whether a selection answers values that can be written, and under the names of numbers only such
as are allowed there. -/
def Answers (allowed : Json → Prop) (vertex : Vertex) (selection : Selection) : Prop :=
  ∀ key ∈ selection.key?, ∀ value, selection.MayAnswer vertex value →
    (key ≠ "children" → value.Finite) ∧ (key ∈ Hierarchy.numberNames → allowed value)

/-- Selections that never fail on a node and that answer nothing under the keys of its name, its
type and its children. -/
structure AddNumbers (graph : Graph) (allowed : Json → Prop) (node : Uid × Vertex)
    (selections : List Selection) : Prop where
  run : ∀ picked, Request.AwaitsCosts picked →
    ∃ next, pickAll graph node.1 node.2 picked selections = .ok next ∧
      ∀ key ∉ Request.costKeys, Fields.get? key next.fields = Fields.get? key picked.fields
  answers : ∀ selection ∈ selections, selection.Answers allowed node.2

/-- An empty list of selections adds no numbers. -/
theorem addNumbers_nil (graph : Graph) (node : Uid × Vertex) :
    AddNumbers graph (fun _ => False) node [] where
  run picked _ := ⟨picked, pickAll_nil graph node.1 node.2 picked, fun _ _ => rfl⟩
  answers _ h := absurd h List.not_mem_nil

section

variable {vertex : Vertex}

/-- A number that is worked out is a number of a document. -/
theorem answers_math (tag : Tag) (expr : Expr Float) :
    (math tag expr).Answers Json.IsNumber vertex := by
  rintro key - value ⟨number, hfinite, rfl⟩
  exact ⟨fun _ => hfinite, fun _ => hfinite⟩

/-- A count is a number of a document. -/
theorem answers_count (tag : Tag) (counted : String) :
    (count tag counted).Answers Json.IsNumber vertex := by
  rintro key - value ⟨number, rfl⟩
  exact ⟨fun _ => trivial, fun _ => trivial⟩

/-- A recorded number is answered as such. -/
theorem answers_number (hwritable : vertex.Writable) {name : String}
    (hnumber : vertex.NumberOrNothing name) (tag : Tag) :
    (predicate tag name).Answers Json.IsNumber vertex := by
  intro key _ value (hvalue : vertex.scalar? name = some value)
  have hfinite := hwritable name value hvalue
  obtain ⟨amount, hamount⟩ := Option.isSome_iff_exists.mp (hnumber (by rw [hvalue]; rfl))
  obtain ⟨number, hheld, -⟩ := Vertex.number?_eq_some hamount
  rw [hvalue] at hheld
  cases hheld
  exact ⟨fun _ => hfinite, fun _ => hfinite⟩

/-- Any recorded value may be answered under a key that is not for numbers. -/
theorem answers_of_key (hwritable : vertex.Writable) {allowed : Json → Prop} {tag : Tag}
    {name : String} (hkey : ∀ key ∈ (predicate tag name).key?, key ∉ Hierarchy.numberNames) :
    (predicate tag name).Answers allowed vertex := by
  intro key hheld value (hvalue : vertex.scalar? name = some value)
  exact ⟨fun _ => hwritable name value hvalue, fun hmem => absurd hmem (hkey key hheld)⟩

end

end Selection

namespace Request

open Selection (predicate count math)

/-- The selections for hours answer numbers under the names of numbers. -/
theorem answers_durationSelections {vertex : Vertex} (hwritable : vertex.Writable) (level : Level)
    (elapsed : Float) : ∀ selection ∈ durationSelections level elapsed,
      selection.Answers Json.IsNumber vertex := by
  have hstart : (predicate (.bound (level.var "st")) Predicate.startTime).Answers Json.IsNumber
      vertex := Selection.answers_of_key hwritable (by rintro key ⟨⟩; decide)
  have hend : (predicate (.bound (level.var "et")) Predicate.endTime).Answers Json.IsNumber
      vertex := Selection.answers_of_key hwritable (by rintro key ⟨⟩; decide)
  simp only [durationSelections, List.forall_mem_cons, List.not_mem_nil, false_imp_iff,
    implies_true, hstart, hend, Selection.answers_math, Selection.answers_count, and_self]

/-- The cost selections answer numbers under the names of numbers. -/
theorem answers_costSelections {vertex : Vertex} (hwritable : vertex.Writable)
    (hbillable : vertex.Billable) (level : Level) (elapsed : Float) (rates : Rates) :
    ∀ selection ∈ costSelections level elapsed rates,
      selection.Answers Json.IsNumber vertex := by
  have hcpu := Selection.answers_number hwritable hbillable.cpu
  have hmemory := Selection.answers_number hwritable hbillable.memory
  have hstorage := Selection.answers_number hwritable hbillable.storage
  have hduration := answers_durationSelections hwritable level elapsed
  unfold costSelections
  cases rates.storage <;>
    simp only [List.forall_mem_append, List.forall_mem_cons, List.not_mem_nil, false_imp_iff,
      implies_true, true_and, and_true, and_self, hcpu, hmemory, hstorage,
      Selection.answers_math] <;>
    exact hduration

/-- On a billable node the cost selections add numbers, whatever the window and the prices are. -/
theorem addNumbers_costSelections (graph : Graph) {node : Uid × Vertex}
    (hwritable : node.2.Writable) (hbillable : node.2.Billable) (level : Level) (elapsed : Float)
    (rates : Rates) :
    Selection.AddNumbers graph Json.IsNumber node (costSelections level elapsed rates) where
  run picked hawaits := by
    obtain ⟨next, hnext, -, -, -, hkept, -⟩ := exists_pickAll_costSelections_over graph node.1
      hbillable level elapsed rates picked hawaits
    exact ⟨next, hnext, hkept⟩
  answers := answers_costSelections hwritable hbillable level elapsed rates

/-- An answer that has a name is not left out. -/
theorem fields_ne_nil_of_described {allowed : Json → Prop} {vertex : Vertex}
    (hvertex : vertex.Presentable) {answers : List (List (String × Json))}
    {fields : List (String × Json)} (h : vertex.Described allowed answers fields) :
    fields ≠ [] := by
  obtain ⟨name, hname, -⟩ := hvertex.scalar?_name
  rintro rfl
  have hnone := h.name
  rw [hname] at hnone
  cases hnone

section

variable {graph : Graph} {allowed : Json → Prop}

/-- A run that begins with the name and the type, and that answers numbers beside the children,
leaves a description of the node. -/
theorem described_of_pickAll {node : Uid × Vertex} (hwritable : node.2.Writable)
    {rest : List Selection}
    (hrest : ∀ selection ∈ rest, selection.Answers allowed node.2) {next : Picked}
    (hrun : Selection.pickAll graph node.1 node.2 Picked.nothing
      ([nameOnly, .predicate .plain Predicate.type] ++ rest) = .ok next)
    {answers : List (List (String × Json))}
    (hanswers : ∀ answer ∈ answers, Json.FieldsFinite answer)
    (hname : Fields.get? Predicate.name next.fields = node.2.scalar? Predicate.name)
    (htype : Fields.get? Predicate.type next.fields = node.2.scalar? Predicate.type)
    (hchildren : Fields.get? "children" next.fields = childrenAnswer answers) :
    node.2.Described allowed answers next.fields := by
  have hsorted := Selection.sorted_fields_of_pickAll hrun Picked.sorted_fields_nothing
  have hgood : ∀ field ∈ next.fields, (field.1 ≠ "children" → field.2.Finite) ∧
      (field.1 ∈ Hierarchy.numberNames → allowed field.2) := by
    refine Selection.forall_fields_of_pickAll hrun (fun _ h => absurd h List.not_mem_nil)
      (List.forall_mem_append.mpr ⟨?_, hrest⟩)
    refine List.forall_mem_cons.mpr ⟨?_, List.forall_mem_singleton.mpr ?_⟩
    · exact Selection.answers_of_key hwritable (by rintro key ⟨⟩; decide)
    · exact Selection.answers_of_key hwritable (by rintro key ⟨⟩; decide)
  refine ⟨hsorted, Json.fieldsFinite_iff.mpr fun field hfield => ?_, hname, htype, hchildren,
    fun key hkey value hvalue => (hgood _ (Fields.mem_of_get? hvalue)).2 hkey⟩
  by_cases hkey : field.1 = "children"
  · have hvalue := hsorted.get?_of_mem hfield
    rw [hkey, hchildren, childrenAnswer] at hvalue
    split_ifs at hvalue
    rw [← Option.some.inj hvalue]
    refine Json.itemsFinite_iff.mpr fun item hitem => ?_
    obtain ⟨answer, hanswer, rfl⟩ := List.mem_map.mp hitem
    exact hanswers answer hanswer
  · exact (hgood field hfield).1 hkey

/-- A container is answered with its name, its type and the numbers that are added. -/
theorem exists_pickAll_described {node : Uid × Vertex} (hwritable : node.2.Writable)
    {selections : List Selection} (hadds : Selection.AddNumbers graph allowed node selections) :
    ∃ next, Selection.pickAll graph node.1 node.2 Picked.nothing
        ([nameOnly, .predicate .plain Predicate.type] ++ selections) = .ok next ∧
      node.2.Described allowed [] next.fields := by
  obtain ⟨first, hfirst, hawaits, hchildless, hname, htype⟩ :=
    exists_pickAll_nameAndType graph node.1 node.2
  obtain ⟨next, hnext, hkept⟩ := hadds.run first hawaits
  have hrun := (Selection.pickAll_append_of_ok hfirst selections).trans hnext
  refine ⟨next, hrun, described_of_pickAll hwritable hadds.answers hrun
    (fun _ h => absurd h List.not_mem_nil) ?_ ?_ ?_⟩
  · rw [hkept _ (by decide), hname]
  · rw [hkept _ (by decide), htype]
  · rw [hkept _ (by decide), hchildless]
    rfl

end

end Request

namespace Graph

/-- The answer for a pod describes it and, one after the other, its containers. -/
def PodDescribed (graph : Graph) (allowed : Json → Prop) (pod : Uid × Vertex)
    (fields : List (String × Json)) : Prop :=
  ∃ answers, pod.2.Described allowed answers fields ∧
    List.Forall₂ (fun container answer => container.2.Described allowed [] answer)
      (graph.containersOf pod.1) answers

/-- A node can be presented together with the numbers that are added for it. -/
def Shows (graph : Graph) (allowed : Json → Prop) (selections : List Selection)
    (node : Uid × Vertex) : Prop :=
  node.2.Presentable ∧ Selection.AddNumbers graph allowed node selections

/-- The values of a node of a documented graph can be written. -/
theorem Documented.writable {graph : Graph} (hdocumented : graph.Documented) {node : Uid × Vertex}
    (hnode : node ∈ graph.nodes) : node.2.Writable :=
  fun _ _ hvalue => hdocumented.finite_scalar (mem_nodes.mp hnode) hvalue

section

variable {graph : Graph} {allowed : Json → Prop} {inner own : List Selection}

open Request (nameOnly children)

/-- A pod is answered with its name, its type, its containers and the numbers that are added. -/
theorem exists_pickAll_podDescribed (hdocumented : graph.Documented) {pod : Uid × Vertex}
    (hpod : pod ∈ graph.nodes) (hown : graph.Shows allowed own pod)
    (hinner : ∀ container ∈ graph.containersOf pod.1, graph.Shows allowed inner container) :
    ∃ next, Selection.pickAll graph pod.1 pod.2 Picked.nothing
        ([nameOnly, .predicate .plain Predicate.type] ++ (children inner :: own)) = .ok next ∧
      graph.PodDescribed allowed pod next.fields ∧ next.fields ≠ [] := by
  obtain ⟨first, hfirst, hawaits, hchildless, hname, htype⟩ :=
    Request.exists_pickAll_nameAndType graph pod.1 pod.2
  have hcontainers : ∀ container ∈ graph.containersOf pod.1, ∃ next,
      Selection.pickAll graph container.1 container.2 Picked.nothing
          ([nameOnly, .predicate .plain Predicate.type] ++ inner) = .ok next ∧
        container.2.Described allowed [] next.fields ∧ next.fields ≠ [] := by
    intro container hcontainer
    obtain ⟨hpresentable, hadds⟩ := hinner container hcontainer
    have hwritable := hdocumented.writable (List.mem_filter.mp hcontainer).1
    obtain ⟨next, hnext, hdescribed⟩ := Request.exists_pickAll_described hwritable hadds
    exact ⟨next, hnext, hdescribed, Request.fields_ne_nil_of_described hpresentable hdescribed⟩
  obtain ⟨second, answers, hsecond, hall, hchildren, hother, hscope⟩ :=
    Request.exists_pick_children graph pod inner hchildless hcontainers
  obtain ⟨next, hnext, hkept⟩ :=
    hown.2.run second (hawaits.of_other_key (by decide) hother hscope)
  have hrun : Selection.pickAll graph pod.1 pod.2 Picked.nothing
      ([nameOnly, .predicate .plain Predicate.type] ++ (children inner :: own)) = .ok next := by
    rw [Selection.pickAll_append_of_ok hfirst, Selection.pickAll_cons_of_ok hsecond, hnext]
  have hfinite : ∀ answer ∈ answers, Json.FieldsFinite answer := by
    intro answer hanswer
    obtain ⟨container, -, hdescribed⟩ := exists_of_mem_forall₂ hall hanswer
    exact hdescribed.finite
  have hedge : (children inner).Answers allowed pod.2 := by
    rintro key ⟨⟩ value -
    exact ⟨fun hne => absurd rfl hne, fun hmem => absurd hmem (by decide)⟩
  have hdescribed : pod.2.Described allowed answers next.fields := by
    refine Request.described_of_pickAll (hdocumented.writable hpod)
      (List.forall_mem_cons.mpr ⟨hedge, hown.2.answers⟩) hrun hfinite ?_ ?_ ?_
    · rw [hkept _ (by decide), hother _ (by decide), hname]
    · rw [hkept _ (by decide), hother _ (by decide), htype]
    · rw [hkept _ (by decide), hchildren]
  exact ⟨next, hrun, ⟨answers, hdescribed, hall⟩,
    Request.fields_ne_nil_of_described hown.1 hdescribed⟩

/-- A request for the pods of a name with their containers is answered wherever all of them can be
presented. The answer lists the pods in ascending order. -/
theorem evaluate_parent (hdocumented : graph.Documented) {name : String}
    (hpods : ∀ pod ∈ graph.podsNamed name, graph.Shows allowed own pod ∧
      ∀ container ∈ graph.containersOf pod.1, graph.Shows allowed inner container) :
    ∃ answers,
      graph.evaluate (Request.parent name (children inner :: own)) =
        .ok (.object [(Request.parentBlock, .array (answers.map .object))]) ∧
      List.Forall₂ (graph.PodDescribed allowed) (graph.podsNamed name) answers := by
  have hstep : ∀ pod ∈ graph.podsNamed name, ∃ next,
      Selection.pickAll graph pod.1 pod.2 Picked.nothing
          ([nameOnly, .predicate .plain Predicate.type] ++ (children inner :: own)) = .ok next ∧
        graph.PodDescribed allowed pod next.fields ∧ next.fields ≠ [] := by
    intro pod hpod
    obtain ⟨hown, hinner⟩ := hpods pod hpod
    exact exists_pickAll_podDescribed hdocumented (List.mem_filter.mp hpod).1 hown hinner
  obtain ⟨picks, hpicks, hall⟩ := exists_mapM_eq_ok hstep
  refine ⟨picks.map Picked.fields, ?_, ?_⟩
  · rw [Request.parent, evaluate_single _ rfl, runBlock_podsNamed, hpicks,
      ← Picked.objects_eq_map hall fun _ _ h => h.2]
    rfl
  · rw [List.forall₂_map_right_iff]
    exact hall.imp fun _ _ h => h.1

end

end Graph

end PodCosts
