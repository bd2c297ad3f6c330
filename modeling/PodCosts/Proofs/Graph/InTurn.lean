import PodCosts.Proofs.Graph.Selecting

/-!
# One record for all nodes

A query can also be answered with a single record of gathered nodes. It goes from block to block,
from node to node and into every node that an edge leads to, so that each node is selected from
after everything that was visited before it. The answers and the errors are those of selecting from
every node on its own.
-/

namespace PodCosts

namespace Picked

/-- Nothing selected yet, after others have gathered some nodes. -/
def after (gathered : Gathered) : Picked := ⟨[], [], gathered⟩

/-- The same selected after others have gathered some nodes. -/
def behind (picked : Picked) (gathered : Gathered) : Picked :=
  { picked with gathered := gathered ++ picked.gathered }

section

variable (picked : Picked) (gathered : Gathered)

/-- Nothing selected after others is what they have gathered. -/
theorem behind_nothing : nothing.behind gathered = after gathered := by
  rw [behind, nothing, List.append_nil, after]

/-- What others have gathered does not change the variables of a node. -/
@[simp] theorem scope_behind : (picked.behind gathered).scope = picked.scope := rfl

/-- What others have gathered does not change the answer for a node. -/
@[simp] theorem fields_behind : (picked.behind gathered).fields = picked.fields := rfl

/-- What others have gathered comes first. -/
@[simp] theorem gathered_behind :
    (picked.behind gathered).gathered = gathered ++ picked.gathered := rfl

/-- Variables are bound the same after others have gathered some nodes. -/
theorem bind_behind (name? : Option String) (value? : Option (Bound Float)) :
    (picked.behind gathered).bind name? value? = (picked.bind name? value?).behind gathered := by
  unfold bind
  split <;> rfl

/-- Values are answered the same after others have gathered some nodes. -/
theorem answer_behind (key? : Option String) (value? : Option Json) :
    (picked.behind gathered).answer key? value? = (picked.answer key? value?).behind gathered := by
  unfold answer
  split <;> rfl

/-- Values are answered the same whatever the variables are. -/
theorem answer_scope (scope : Scope Float) (key? : Option String) (value? : Option Json) :
    { picked with scope }.answer key? value? = { picked.answer key? value? with scope } := by
  unfold answer
  split <;> rfl

/-- A node is answered the same whatever others have gathered. -/
theorem objects_behind : objects [picked.behind gathered] = objects [picked] := by
  rw [objects, objects, List.filter_singleton, List.filter_singleton, fields_behind]
  cases picked.fields.isEmpty <;> rfl

end

end Picked

/-! ## Nodes that were gathered before are not looked at -/

namespace Selection

variable (graph : Graph) (uid : Uid) (vertex : Vertex) (picked : Picked) (gathered : Gathered)

/-- What edges lead to is added the same after others have gathered some nodes. -/
theorem edgePicked_behind (tag : Tag) (path : EdgePath) (filter? : Option Filter)
    (selections : List Selection) (picks : List Picked) :
    edgePicked graph uid (picked.behind gathered) tag path filter? selections picks =
      (edgePicked graph uid picked tag path filter? selections picks).behind gathered := by
  rw [edgePicked, edgePicked, ← Picked.answer_behind]
  simp only [Picked.behind, List.append_assoc]

/-- What edges lead to is added the same whatever the variables are. -/
theorem edgePicked_scope (scope : Scope Float) (tag : Tag) (path : EdgePath)
    (filter? : Option Filter) (selections : List Selection) (picks : List Picked) :
    edgePicked graph uid { picked with scope } tag path filter? selections picks =
      { edgePicked graph uid picked tag path filter? selections picks with scope } := by
  rw [edgePicked, edgePicked]
  exact Picked.answer_scope { picked with gathered := _ } ..

/-- A selection makes the same of a node whatever was gathered before, and leaves that in front of
what it gathers itself. -/
theorem pick_behind (selection : Selection) :
    pick graph uid vertex (picked.behind gathered) selection =
      (pick graph uid vertex picked selection).map fun next => next.behind gathered := by
  cases selection with
  | uid tag => rw [pick_uid, pick_uid, Picked.answer_behind]; rfl
  | predicate tag name =>
    rw [pick_predicate, pick_predicate, Picked.bind_behind, Picked.answer_behind]
    rfl
  | count tag name =>
    rw [pick_count, pick_count, Picked.bind_behind, Picked.answer_behind]
    rfl
  | math tag expr =>
    cases hvalue : expr.eval graph.now picked.scope with
    | error error =>
      rw [pick, pick, Picked.scope_behind, hvalue]
      rfl
    | ok value? =>
      rw [pick_math_of_eval graph uid vertex picked tag hvalue,
        pick_math_of_eval graph uid vertex (picked.behind gathered) tag hvalue, Picked.bind_behind,
        Picked.answer_behind]
      rfl
  | edge tag path filter? selections =>
    rw [pick_edge, pick_edge]
    cases (graph.adjacent uid path filter?).mapM fun node =>
        pickAll graph node.1 node.2 Picked.nothing selections with
    | error error => rfl
    | ok picks => exact congrArg Except.ok (edgePicked_behind ..)

/-- Selections select the same after others have gathered some nodes. -/
theorem pickAll_behind (selections : List Selection) :
    pickAll graph uid vertex (picked.behind gathered) selections =
      (pickAll graph uid vertex picked selections).map fun next => next.behind gathered := by
  induction selections generalizing picked with
  | nil => rw [pickAll_nil, pickAll_nil]; rfl
  | cons selection rest ih =>
    rw [pickAll_cons, pickAll_cons, pick_behind]
    cases pick graph uid vertex picked selection with
    | error error => rfl
    | ok next => exact ih next

/-- What is selected from a node after others is what is selected from it on its own. -/
theorem pickAll_after (selections : List Selection) :
    pickAll graph uid vertex (Picked.after gathered) selections =
      (pickAll graph uid vertex Picked.nothing selections).map fun next =>
        next.behind gathered := by
  rw [← Picked.behind_nothing, pickAll_behind]

end Selection

/-! ## Visiting in turn -/

/-- What has been answered for the nodes visited so far, and all nodes gathered by then. -/
structure Round where
  objects : List Json
  gathered : Gathered

namespace Round

/-- Visits one more node after all that were visited before it. -/
def visit (round : Round) (select : Picked → Except EvaluationError Picked) :
    Except EvaluationError Round := do
  let found ← select (Picked.after round.gathered)
  .ok ⟨round.objects ++ Picked.objects [found], found.gathered⟩

/-- A round after some more nodes, given what is selected from each of them on its own. -/
def extended (round : Round) (picks : List Picked) : Round :=
  ⟨round.objects ++ Picked.objects picks, round.gathered ++ picks.flatMap Picked.gathered⟩

/-- Without further nodes a round stays as it is. -/
theorem extended_nil (round : Round) : round.extended [] = round := by
  simp [extended, Picked.objects]

/-- Further nodes extend a round one after the other. -/
theorem extended_cons (round : Round) (found : Picked) (picks : List Picked) :
    (round.extended [found]).extended picks = round.extended (found :: picks) := by
  have hobjects : Picked.objects [found] ++ Picked.objects picks =
      Picked.objects (found :: picks) := by
    rw [Picked.objects, Picked.objects, Picked.objects, ← List.map_append, ← List.filter_append]
    rfl
  simp only [extended, List.append_assoc, hobjects, List.flatMap_cons, List.flatMap_nil,
    List.append_nil]

/-- A node that does not look at what was gathered before it adds what is selected from it on its
own. -/
theorem visit_eq {round : Round} {select : Picked → Except EvaluationError Picked}
    (hselect : select (Picked.after round.gathered) =
      (select Picked.nothing).map fun found => found.behind round.gathered) :
    round.visit select = (select Picked.nothing).map fun found => round.extended [found] := by
  rw [visit, hselect]
  cases select Picked.nothing with
  | error error => rfl
  | ok found =>
    have hgathered : (found.behind round.gathered).gathered =
        round.gathered ++ [found].flatMap Picked.gathered := by simp
    refine congrArg Except.ok ?_
    rw [Picked.objects_behind, hgathered]
    rfl

/-- Where no node looks at what was gathered before it, visiting some nodes in turn gives what is
selected from each of them on its own. -/
theorem foldlM_visit (select : Uid × Vertex → Picked → Except EvaluationError Picked)
    (hselect : ∀ node gathered, select node (Picked.after gathered) =
      (select node Picked.nothing).map fun found => found.behind gathered)
    (nodes : List (Uid × Vertex)) (round : Round) :
    nodes.foldlM (fun (round : Round) node => round.visit (select node)) round =
      (nodes.mapM fun node => select node Picked.nothing).map round.extended := by
  -- The round grows with every node, so the claim is about all rounds to start from.
  induction nodes generalizing round with
  | nil => exact congrArg Except.ok round.extended_nil.symm
  | cons node nodes ih =>
    rw [List.foldlM_cons, List.mapM_cons, visit_eq (hselect node round.gathered)]
    cases select node Picked.nothing with
    | error error => rfl
    | ok found =>
      refine (ih (round.extended [found])).trans ?_
      cases nodes.mapM fun node => select node Picked.nothing with
      | error error => rfl
      | ok picks => exact congrArg Except.ok (round.extended_cons found picks)

end Round

namespace Selection

mutual

/-- Selects from a node. The nodes that an edge leads to are visited in turn, with one record of
gathered nodes for all of them and for the node itself. -/
def visit (graph : Graph) (uid : Uid) (vertex : Vertex) (picked : Picked) (selection : Selection) :
    Except EvaluationError Picked :=
  match selection with
  | .uid tag => pick graph uid vertex picked (.uid tag)
  | .predicate tag name => pick graph uid vertex picked (.predicate tag name)
  | .count tag name => pick graph uid vertex picked (.count tag name)
  | .math tag expr => pick graph uid vertex picked (.math tag expr)
  | .edge tag path filter? selections => do
    let own : Gathered :=
      match tag.bind? with
      | some name => [(name, graph.neighbours uid path filter?)]
      | none => []
    let round ← (graph.adjacent uid path filter?).foldlM (fun (round : Round) node =>
      round.visit fun fresh => visitAll graph node.1 node.2 fresh selections)
      ⟨[], picked.gathered ++ own⟩
    .ok ({ picked with gathered := round.gathered }.answer
      (key? (.edge tag path filter? selections))
      (if round.objects.isEmpty then none else some (.array round.objects)))

/-- Selects from a node, one selection after the other. -/
def visitAll (graph : Graph) (uid : Uid) (vertex : Vertex) (picked : Picked)
    (selections : List Selection) : Except EvaluationError Picked :=
  match selections with
  | [] => .ok picked
  | selection :: rest => do
    let next ← visit graph uid vertex picked selection
    visitAll graph uid vertex next rest

end

mutual

/-- Visiting nodes in turn selects the same as selecting from each of them on its own. -/
theorem visit_eq_pick (graph : Graph) (uid : Uid) (vertex : Vertex) (picked : Picked)
    (selection : Selection) :
    visit graph uid vertex picked selection = pick graph uid vertex picked selection := by
  match selection with
  | .uid tag => rw [visit]
  | .predicate tag name => rw [visit]
  | .count tag name => rw [visit]
  | .math tag expr => rw [visit]
  | .edge tag path filter? selections =>
    have hfold := Round.foldlM_visit
      (fun node fresh => pickAll graph node.1 node.2 fresh selections)
      (fun node gathered => pickAll_after graph node.1 node.2 gathered selections)
      (graph.adjacent uid path filter?)
    have hvisit : ∀ (node : Uid × Vertex) fresh,
        visitAll graph node.1 node.2 fresh selections =
          pickAll graph node.1 node.2 fresh selections :=
      fun node fresh => visitAll_eq_pickAll graph node.1 node.2 fresh selections
    rw [visit, pick_edge]
    simp only [hvisit, hfold]
    cases (graph.adjacent uid path filter?).mapM fun node =>
        pickAll graph node.1 node.2 Picked.nothing selections with
    | error error => rfl
    | ok picks => rfl

/-- A row of selections in turn selects the same as the row on its own. -/
theorem visitAll_eq_pickAll (graph : Graph) (uid : Uid) (vertex : Vertex) (picked : Picked)
    (selections : List Selection) :
    visitAll graph uid vertex picked selections = pickAll graph uid vertex picked selections := by
  match selections with
  | [] => rw [visitAll, pickAll_nil]
  | selection :: rest =>
    rw [visitAll, pickAll_cons, visit_eq_pick]
    exact bind_congr fun next => visitAll_eq_pickAll graph uid vertex next rest

end

/-- Selecting after others answers the same, or fails in the same way. -/
theorem map_fields_visitAll (graph : Graph) (uid : Uid) (vertex : Vertex) (gathered : Gathered)
    (selections : List Selection) :
    (visitAll graph uid vertex (Picked.after gathered) selections).map Picked.fields =
      (visitAll graph uid vertex Picked.nothing selections).map Picked.fields := by
  rw [visitAll_eq_pickAll, visitAll_eq_pickAll, pickAll_after]
  cases pickAll graph uid vertex Picked.nothing selections <;> rfl

/-- What an edge leaves behind does not depend on the variables of the node it leads from, and it
leaves them as they are. -/
theorem visit_edge_of_scope (graph : Graph) (uid : Uid) (vertex : Vertex) (picked : Picked)
    (scope : Scope Float) (tag : Tag) (path : EdgePath) (filter? : Option Filter)
    (selections : List Selection) :
    visit graph uid vertex { picked with scope } (.edge tag path filter? selections) =
      (visit graph uid vertex picked (.edge tag path filter? selections)).map fun next =>
        { next with scope } := by
  rw [visit_eq_pick, visit_eq_pick, pick_edge, pick_edge]
  cases (graph.adjacent uid path filter?).mapM fun node =>
      pickAll graph node.1 node.2 Picked.nothing selections with
  | error error => rfl
  | ok picks =>
    exact congrArg Except.ok (edgePicked_scope ..)

end Selection

namespace Graph

/-- Answers a block, its nodes in turn after all that were visited by earlier blocks. -/
def visitBlock (graph : Graph) (gathered : Gathered) (block : Block) :
    Except EvaluationError Round := do
  let roots ← graph.roots gathered block.root
  (graph.admitted block roots).foldlM (fun (round : Round) node =>
    round.visit fun fresh => Selection.visitAll graph node.1 node.2 fresh block.selections)
    ⟨[], gathered⟩

/-- Answers blocks in turn. A block of a name that was answered before replaces that answer. -/
def visitBlocks (graph : Graph) (gathered : Gathered) (output : List (String × Json)) :
    List Block → Except EvaluationError (Gathered × List (String × Json))
  | [] => .ok (gathered, output)
  | block :: blocks => do
    let round ← graph.visitBlock gathered block
    let output :=
      if block.isSilent then output else Fields.insert block.name (.array round.objects) output
    graph.visitBlocks round.gathered output blocks

/-- A block in turn answers what the block answers on its own, behind what was gathered before. -/
theorem visitBlock_eq (graph : Graph) (gathered : Gathered) (block : Block) :
    graph.visitBlock gathered block =
      (graph.runBlock gathered block).map (Round.mk [] gathered).extended := by
  have hfold := Round.foldlM_visit
    (fun node fresh => Selection.pickAll graph node.1 node.2 fresh block.selections)
    (fun node gathered => Selection.pickAll_after graph node.1 node.2 gathered block.selections)
  rw [visitBlock, runBlock]
  cases graph.roots gathered block.root with
  | error error => rfl
  | ok roots =>
    simp only [Selection.visitAll_eq_pickAll]
    exact hfold (graph.admitted block roots) ⟨[], gathered⟩

/-- The items of a block are the answers of its nodes, each on its own. -/
theorem map_objects_visitBlock {graph : Graph} {gathered : Gathered} {block : Block}
    {roots : List Uid} (hroots : graph.roots gathered block.root = .ok roots) :
    (graph.visitBlock gathered block).map Round.objects =
      ((graph.admitted block roots).mapM fun node =>
        Selection.visitAll graph node.1 node.2 Picked.nothing block.selections).map
          Picked.objects := by
  have hrun : graph.runBlock gathered block =
      (graph.admitted block roots).mapM fun node =>
        Selection.pickAll graph node.1 node.2 Picked.nothing block.selections := by
    rw [runBlock, hroots]
    rfl
  rw [visitBlock_eq, hrun]
  simp only [Selection.visitAll_eq_pickAll]
  cases (graph.admitted block roots).mapM fun node =>
      Selection.pickAll graph node.1 node.2 Picked.nothing block.selections <;> rfl

/-- Blocks that are answered in turn are answered as if each node were on its own. -/
theorem visitBlocks_eq (graph : Graph) (blocks : List Block) (gathered : Gathered)
    (output : List (String × Json)) :
    (graph.visitBlocks gathered output blocks).map Prod.snd =
      graph.runBlocks gathered output blocks := by
  induction blocks generalizing gathered output with
  | nil => rw [visitBlocks, runBlocks]; rfl
  | cons block blocks ih =>
    rw [visitBlocks, runBlocks, visitBlock_eq]
    cases graph.runBlock gathered block with
    | error error => rfl
    | ok picks => exact ih _ _

end Graph

end PodCosts
