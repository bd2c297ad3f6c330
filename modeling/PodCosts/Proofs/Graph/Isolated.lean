import PodCosts.Proofs.Costs
import PodCosts.Proofs.Graph.Edges
import PodCosts.Proofs.Graph.InTurn
import PodCosts.Proofs.Graph.Lacking
import PodCosts.Proofs.Typing.Requests

/-!
# Nothing leaks from node to node

Whatever was bound and gathered before a node is visited, by earlier blocks, by its siblings or by
the node an edge leads from, the node is answered as it is in an evaluation of its own. The request
for costs therefore charges no node without a start, whatever starts the nodes around it have.
-/

namespace PodCosts

/-- Nothing is answered as a cost. -/
def Uncharged (fields : List (String × Json)) : Prop :=
  ∀ key ∈ ["cpuCost", "memoryCost", "storageCost"], Fields.get? key fields = none

/-- A node is not charged unless it has started. -/
def Vertex.UnchargedUnlessStarted (vertex : Vertex) (fields : List (String × Json)) : Prop :=
  vertex.scalar? Predicate.startTime = none → Uncharged fields

/-- Neither a pod nor one of its containers is charged unless it has started. -/
structure Graph.UnchargedUnlessStarted (graph : Graph) (pod : Uid × Vertex)
    (fields : List (String × Json)) : Prop where
  own : pod.2.UnchargedUnlessStarted fields
  containers : ∃ answers, Fields.get? "children" fields = childrenAnswer answers ∧
    List.Forall₂ (fun container answer => container.2.UnchargedUnlessStarted answer)
      (graph.containersOf pod.1) answers

namespace Request

/-- The variables that are bound to the start of a node or worked out from it, without the mark of a
level. -/
def startedNames : List String :=
  ["st", "stSeconds", "secondsSinceStart", "durationInHours"]

/-- Without a start there are no hours, and without hours there are no costs. -/
theorem starves_costSelections (level : Level) (window : Float) (rates : Rates) :
    ∀ selection ∈ costSelections level window rates,
      selection.starves [Predicate.startTime] (startedNames.map level.var)
        ["cpuCost", "memoryCost", "storageCost"] = true := by
  rw [← List.all_eq_true]
  obtain ⟨cpu, memory, storage?⟩ := rates
  cases level <;> cases storage? <;> rfl

/-- The cost selections answer nothing about children. -/
theorem children_not_mem_costSelections (level : Level) (window : Float) (rates : Rates) :
    ∀ selection ∈ costSelections level window rates, "children" ∉ selection.key? := by
  have hspares : (costSelections level window rates).all
      (Selection.spares [] ["children"] ·) = true := by
    obtain ⟨cpu, memory, storage?⟩ := rates
    cases level <;> cases storage? <;> rfl
  intro selection hselection hkey
  have hnot := (Selection.not_mem_of_spares (List.all_eq_true.mp hspares selection hselection)).2
  exact hnot _ hkey List.mem_cons_self

section

variable {graph : Graph} {window : Float} {rates : Rates} {next : Picked}

/-- A node without a start is answered without a cost, if nothing that is selected in front of the
costs can be taken for one. -/
theorem unchargedUnlessStarted_of_pickAll {node : Uid × Vertex} {level : Level}
    {before : List Selection}
    (hbefore : ∀ selection ∈ before, selection.spares (startedNames.map level.var)
      ["cpuCost", "memoryCost", "storageCost"] = true)
    (hpick : Selection.pickAll graph node.1 node.2 Picked.nothing
      (before ++ costSelections level window rates) = .ok next) :
    node.2.UnchargedUnlessStarted next.fields := by
  intro hstart
  have habsent : ∀ name ∈ [Predicate.startTime], node.2.scalar? name = none := by
    simpa using hstart
  have hstarves : ∀ selection ∈ before ++ costSelections level window rates,
      selection.starves [Predicate.startTime] (startedNames.map level.var)
        ["cpuCost", "memoryCost", "storageCost"] = true := by
    refine List.forall_mem_append.mpr ⟨fun selection hselection => ?_, ?_⟩
    · exact Bool.or_eq_true_iff.mpr (.inl (hbefore selection hselection))
    · exact starves_costSelections level window rates
  exact (Selection.lacks_of_pickAll habsent hstarves (Picked.lacks_nothing _ _) hpick).unanswered

/-- How often a node has ended is always answered. -/
theorem fields_ne_nil_of_costSelections {node : Uid × Vertex} {level : Level}
    {before : List Selection}
    (hpick : Selection.pickAll graph node.1 node.2 Picked.nothing
      (before ++ costSelections level window rates) = .ok next) : next.fields ≠ [] := by
  have hduration : .count (.bound (level.var "isTerminated")) Predicate.endTime ∈
      durationSelections level window := by
    simp [durationSelections]
  have hcosts : .count (.bound (level.var "isTerminated")) Predicate.endTime ∈
      costSelections level window rates :=
    List.mem_append_left _ (List.mem_append_left _ (List.mem_append_right _ hduration))
  exact Selection.fields_ne_nil_of_count (List.mem_append_right _ hcosts) hpick

/-- A pod is answered without a cost unless it has started, and so is each of its containers. -/
theorem podUnchargedUnlessStarted_of_pickAll {pod : Uid × Vertex}
    (hpick : Selection.pickAll graph pod.1 pod.2 Picked.nothing
      ([nameOnly, .predicate .plain Predicate.type] ++
        (children (costSelections .child window { rates with storage := none }) ::
          costSelections .parent window rates)) = .ok next) :
    graph.UnchargedUnlessStarted pod next.fields ∧ next.fields ≠ [] := by
  -- The children stand in front of the costs of the pod, and none of their variables is the pod's.
  have hrun : Selection.pickAll graph pod.1 pod.2 Picked.nothing
      ([nameOnly, .predicate .plain Predicate.type,
        children (costSelections .child window { rates with storage := none })] ++
          costSelections .parent window rates) = .ok next := hpick
  have hown : pod.2.UnchargedUnlessStarted next.fields := by
    refine unchargedUnlessStarted_of_pickAll ?_ hrun
    rw [← List.all_eq_true]
    rfl
  refine ⟨⟨hown, ?_⟩, fields_ne_nil_of_costSelections hrun⟩
  rw [Selection.pickAll_append] at hpick
  obtain ⟨first, hfirst, hpick⟩ := exists_of_bind_eq_ok hpick
  obtain ⟨second, hchildren, hcosts⟩ := Selection.exists_pick_of_pickAll_cons hpick
  obtain ⟨picks, hall, rfl⟩ := Selection.exists_picks_of_pick_edge hchildren
  rw [Graph.adjacent_containers] at hall
  have hcontainers : List.Forall₂ (fun container found =>
      container.2.UnchargedUnlessStarted found.fields ∧ found.fields ≠ [])
      (graph.containersOf pod.1) picks := by
    refine hall.imp fun container found hfound => ⟨?_, ?_⟩
    · refine unchargedUnlessStarted_of_pickAll ?_ hfound
      rw [← List.all_eq_true]
      rfl
    · exact fields_ne_nil_of_costSelections hfound
  have hobjects : Picked.objects picks = (picks.map Picked.fields).map .object :=
    Picked.objects_eq_map hcontainers fun _ _ h => h.2
  have hfresh : Fields.get? "children" first.fields = none :=
    Selection.get?_fields_of_pickAll (by decide) hfirst
  refine ⟨picks.map Picked.fields, ?_, ?_⟩
  · rw [Selection.get?_fields_of_pickAll (children_not_mem_costSelections _ _ _) hcosts,
      Selection.get?_fields_edgePicked_self _ _ _ rfl hfresh, hobjects, childrenAnswer]
    simp only [List.isEmpty_map]
  · rw [List.forall₂_map_right_iff]
    exact hcontainers.imp fun _ _ h => h.1

end

end Request

namespace Graph

/-- However the nodes are dated, the request for costs charges no node that has not started. -/
theorem unchargedUnlessStarted_of_evaluate {graph : Graph} {name : String} {window : Float}
    {rates : Rates} {document : Json}
    (hevaluate : graph.evaluate (Request.costHierarchy name window rates) = .ok document) :
    ∃ answers, document = .object [(Request.parentBlock, .array (answers.map .object))] ∧
      List.Forall₂ graph.UnchargedUnlessStarted (graph.podsNamed name) answers := by
  rw [Request.costHierarchy, Request.parent, evaluate_single _ rfl, runBlock_podsNamed]
    at hevaluate
  obtain ⟨picks, hpicks, hdocument⟩ := exists_of_bind_eq_ok hevaluate
  have hall : List.Forall₂ (fun pod found =>
      graph.UnchargedUnlessStarted pod found.fields ∧ found.fields ≠ [])
      (graph.podsNamed name) picks :=
    (forall₂_of_mapM_eq_ok hpicks).imp fun _ _ =>
      Request.podUnchargedUnlessStarted_of_pickAll
  refine ⟨picks.map Picked.fields, ?_, ?_⟩
  · rw [← Picked.objects_eq_map hall fun _ _ h => h.2]
    exact (Except.ok.inj hdocument).symm
  · rw [List.forall₂_map_right_iff]
    exact hall.imp fun _ _ h => h.1

/-- A block visits the nodes it accepts among its roots, ascending and each once, and answers each
of them as if it was visited alone. -/
structure AnswersAlone (graph : Graph) (gathered : Gathered) (block : Block)
    (roots : List Uid) : Prop where
  ascending : roots.Pairwise (· < ·)
  visited : ((graph.admitted block roots).map Prod.fst).Sublist roots
  accepted : ∀ node, node ∈ graph.admitted block roots ↔
    node.1 ∈ roots ∧ graph.vertex? node.1 = some node.2 ∧
      Filter.admits block.filter? node.2 = true
  items : (graph.visitBlock gathered block).map Round.objects =
    ((graph.admitted block roots).mapM fun node =>
      Selection.visitAll graph node.1 node.2 Picked.nothing block.selections).map Picked.objects

/-- A block whose roots are known answers each of its nodes alone. -/
theorem answersAlone_of_roots {graph : Graph} {gathered : Gathered} {block : Block}
    {roots : List Uid} (hroots : graph.roots gathered block.root = .ok roots) :
    graph.AnswersAlone gathered block roots where
  ascending := graph.pairwise_uids.sublist (sublist_of_roots hroots)
  visited := by
    rw [admitted_eq]
    exact (List.filter_sublist.map _).trans (sublist_located graph roots)
  accepted node := by
    rw [admitted_eq, List.mem_filter, mem_located, and_assoc]
  items := map_objects_visitBlock hroots

/-- Whatever was visited before, a node is answered as it is in an evaluation of its own. A query is
answered by visits in turn, each after all that came before it. A block answers each of its nodes as
if it was visited alone, and so does an edge whatever the variables of the node it leads from. The
request for costs does not charge a node without a start. -/
theorem evaluate_isolated (graph : Graph) :
    (∀ query, graph.evaluate query =
      (graph.visitBlocks [] [] query.blocks).map fun done => .object done.2) ∧
    (∀ gathered block roots, graph.roots gathered block.root = .ok roots →
      graph.AnswersAlone gathered block roots) ∧
    (∀ uid vertex gathered selections,
      (Selection.visitAll graph uid vertex (Picked.after gathered) selections).map Picked.fields =
        (Selection.visitAll graph uid vertex Picked.nothing selections).map Picked.fields) ∧
    (∀ uid vertex (picked : Picked) scope tag path filter? selections,
      Selection.visit graph uid vertex { picked with scope } (.edge tag path filter? selections) =
        (Selection.visit graph uid vertex picked (.edge tag path filter? selections)).map
          fun next => { next with scope }) ∧
    (∀ name window rates document,
      graph.evaluate (Request.costHierarchy name window rates) = .ok document →
      ∃ answers, document = .object [(Request.parentBlock, .array (answers.map .object))] ∧
        List.Forall₂ graph.UnchargedUnlessStarted (graph.podsNamed name) answers) := by
  refine ⟨fun query => ?_, fun gathered block roots => answersAlone_of_roots,
    Selection.map_fields_visitAll graph, Selection.visit_edge_of_scope graph,
    fun name window rates document => unchargedUnlessStarted_of_evaluate⟩
  rw [evaluate, ← visitBlocks_eq]
  cases graph.visitBlocks [] [] query.blocks <;> rfl

/-- Two pods of one name, one of which has not started. Its container has, while the container of
the other has not. The block starts from both pods, which an earlier block has gathered in a
different order and one of them twice. -/
theorem evaluate_isolated_halfStarted :
    let started : String × Json := ("startTime", .string "2026-10-19T09:00:00+02:00")
    let pod : List (String × Json) := [("cpuRequest", .number (.int 2)), ("isPod", .bool true),
      ("name", .string "web")]
    let container : List (String × Json) := [("isContainer", .bool true),
      ("memoryRequest", .number (.float 0.5))]
    let graph := (empty ⟨20745, 43200, 0, by decide, by decide, by decide⟩).after
      [.insert (.object (pod ++ [started])), .insert (.object pod),
        .insert (.object container), .insert (.object (container ++ [started])),
        .link 3 "pod" 1, .link 4 "pod" 2]
    let gathered : Gathered := [("found", [2, 1]), ("others", [4]), ("found", [2])]
    let block : Block := ⟨"pods", .uid "found", some (.not (.has "endTime")),
      [.predicate (.bound "st") "startTime", .math (.named "age") (.since "st")]⟩
    let rates : Rates := ⟨0.024, 0.01, some 0.00013888888⟩
    graph.roots gathered block.root = .ok [1, 2] ∧ graph.AnswersAlone gathered block [1, 2] ∧
      ∃ document, graph.evaluate (Request.costHierarchy "web" 1598400 rates) = .ok document ∧
        ∃ answers, document = .object [(Request.parentBlock, .array (answers.map .object))] ∧
          List.Forall₂ graph.UnchargedUnlessStarted (graph.podsNamed "web") answers := by
  intro started pod container graph gathered block rates
  let types : Typing := fun predicate =>
    if predicate = "startTime" ∨ predicate = "endTime" then .time
    else if predicate ∈ ["cpuRequest", "memoryRequest", "storageRequest"] then .number
    else .other
  have hgraph : graph.Respects types := by decide +kernel
  have hbilled : types.Billed := ⟨rfl, rfl, rfl, rfl, rfl⟩
  have hroots : graph.roots gathered block.root = .ok [1, 2] := rfl
  -- The costs cannot be computed here, but a well typed request has an answer.
  obtain ⟨document, hdocument⟩ := exists_evaluate hgraph
    (Request.wellTyped_costHierarchy hbilled "web" 1598400 rates)
  obtain ⟨-, hblocks, -, -, hcosts⟩ := evaluate_isolated graph
  exact ⟨hroots, hblocks gathered block _ hroots, document, hdocument, hcosts _ _ _ _ hdocument⟩

end Graph

end PodCosts
