import PodCosts.Proofs.Fields
import PodCosts.Proofs.Graph.Nodes
import PodCosts.Proofs.Visits

/-!
# What selections leave behind

Each selection binds at most one variable and answers at most one value, so a run of selections can
be followed step by step through the scope and the answer it leaves. A row of nodes is selected from
node by node, and a query of one block answers one list.
-/

namespace PodCosts

namespace Graph

/-- Visiting existing nodes by their numbers is visiting the nodes. -/
theorem mapM_vertex? {ε β : Type} {graph : Graph} (found : List (Uid × Vertex))
    (hfound : ∀ node ∈ found, graph.vertex? node.1 = some node.2)
    (visit : Uid → Vertex → Except ε β) (absent : Except ε β) :
    ((found.map Prod.fst).mapM fun uid =>
      match graph.vertex? uid with
      | some vertex => visit uid vertex
      | none => absent) = found.mapM fun node => visit node.1 node.2 := by
  induction found with
  | nil => rfl
  | cons node found ih =>
    rw [List.map_cons, List.mapM_cons, List.mapM_cons, hfound node List.mem_cons_self,
      ih fun other hother => hfound other (List.mem_cons_of_mem _ hother)]

end Graph

namespace Picked

/-- Binding a variable answers nothing. -/
@[simp] theorem fields_bind (picked : Picked) (name? : Option String)
    (value? : Option (Bound Float)) : (picked.bind name? value?).fields = picked.fields := by
  unfold bind
  split <;> rfl

/-- Binding a variable gathers nothing. -/
@[simp] theorem gathered_bind (picked : Picked) (name? : Option String)
    (value? : Option (Bound Float)) : (picked.bind name? value?).gathered = picked.gathered := by
  unfold bind
  split <;> rfl

/-- Answering a value binds nothing. -/
@[simp] theorem scope_answer (picked : Picked) (key? : Option String) (value? : Option Json) :
    (picked.answer key? value?).scope = picked.scope := by
  unfold answer
  split <;> rfl

/-- Answering a value gathers nothing. -/
@[simp] theorem gathered_answer (picked : Picked) (key? : Option String) (value? : Option Json) :
    (picked.answer key? value?).gathered = picked.gathered := by
  unfold answer
  split <;> rfl

/-- Without a key nothing is answered. -/
@[simp] theorem answer_none (picked : Picked) (value? : Option Json) :
    picked.answer none value? = picked := rfl

/-- The answer depends on nothing but what has been answered. -/
theorem fields_answer_congr {picked other : Picked} (hfields : other.fields = picked.fields)
    (key? : Option String) (value? : Option Json) :
    (other.answer key? value?).fields = (picked.answer key? value?).fields := by
  unfold answer
  split
  · exact congrArg (Fields.insert _ _) hfields
  · exact hfields

/-- A variable that was not bound before holds the value it is bound to, if there is one. -/
theorem get?_scope_bind_self {picked : Picked} {name : String}
    (hfresh : Fields.get? name picked.scope = none) (value? : Option (Bound Float)) :
    Fields.get? name (picked.bind (some name) value?).scope = value? := by
  cases value? with
  | none => exact hfresh
  | some value => exact Fields.get?_cons_self name value _

/-- Binding a variable leaves the others as they were. -/
theorem get?_scope_bind_of_ne {name other : String} (hne : other ≠ name) (picked : Picked)
    (value? : Option (Bound Float)) :
    Fields.get? name (picked.bind (some other) value?).scope = Fields.get? name picked.scope := by
  cases value? with
  | none => rfl
  | some value => exact Fields.get?_cons_of_ne hne value _

/-- A key that was not answered before holds the value it is answered with, if there is one. -/
theorem get?_fields_answer_self {picked : Picked} {key : String}
    (hfresh : Fields.get? key picked.fields = none) (value? : Option Json) :
    Fields.get? key (picked.answer (some key) value?).fields = value? := by
  cases value? with
  | none => exact hfresh
  | some value => exact Fields.get?_insert key value _

/-- Answering under a key leaves the others as they were. -/
theorem get?_fields_answer_of_ne {key other : String} (hne : other ≠ key) (picked : Picked)
    (value? : Option Json) :
    Fields.get? key (picked.answer (some other) value?).fields = Fields.get? key picked.fields := by
  cases value? with
  | none => rfl
  | some value => exact Fields.get?_insert_of_ne hne value _

/-- Nothing that has been answered is taken back. -/
theorem fields_answer_ne_nil {picked : Picked} (hfields : picked.fields ≠ [])
    (key? : Option String) (value? : Option Json) : (picked.answer key? value?).fields ≠ [] := by
  unfold answer
  split
  · exact Fields.insert_ne_nil _ _ _
  · exact hfields

/-- Nodes that all have an answer are all answered. -/
theorem objects_eq_map {α : Type} {related : α → Picked → Prop} {items : List α}
    {picks : List Picked} (hall : List.Forall₂ related items picks)
    (hanswered : ∀ item picked, related item picked → picked.fields ≠ []) :
    objects picks = (picks.map fields).map .object := by
  induction hall with
  | nil => rfl
  | cons hfirst _ ih =>
    have hfields := hanswered _ _ hfirst
    rw [objects] at ih ⊢
    rw [List.filter_cons_of_pos (by simpa using hfields), List.map_cons, ih]
    rfl

/-- One answer goes on from another: apart from some variables and some keys nothing has changed,
and nothing that was answered is gone. -/
structure Extends (picked next : Picked) (names keys : List String) : Prop where
  scope_eq : ∀ name ∉ names, Fields.get? name next.scope = Fields.get? name picked.scope
  fields_eq : ∀ key ∉ keys, Fields.get? key next.fields = Fields.get? key picked.fields
  gathered_eq : next.gathered = picked.gathered
  fields_ne_nil : picked.fields ≠ [] → next.fields ≠ []

namespace Extends

/-- An answer goes on from itself without a change. -/
theorem refl (picked : Picked) : Extends picked picked [] [] :=
  ⟨fun _ _ => rfl, fun _ _ => rfl, rfl, id⟩

/-- What may change may be more than what does. -/
theorem mono {picked next : Picked} {names names' keys keys' : List String}
    (h : Extends picked next names keys) (hnames : names ⊆ names') (hkeys : keys ⊆ keys') :
    Extends picked next names' keys' where
  scope_eq name hname := h.scope_eq name fun hmem => hname (hnames hmem)
  fields_eq key hkey := h.fields_eq key fun hmem => hkey (hkeys hmem)
  gathered_eq := h.gathered_eq
  fields_ne_nil := h.fields_ne_nil

/-- An answer that goes on from a second one goes on from the first one the second goes on from. -/
theorem trans {first second third : Picked} {names names' keys keys' : List String}
    (h : Extends first second names keys) (h' : Extends second third names' keys') :
    Extends first third (names ++ names') (keys ++ keys') where
  scope_eq name hname := by
    rw [List.mem_append, not_or] at hname
    rw [h'.scope_eq name hname.2, h.scope_eq name hname.1]
  fields_eq key hkey := by
    rw [List.mem_append, not_or] at hkey
    rw [h'.fields_eq key hkey.2, h.fields_eq key hkey.1]
  gathered_eq := h'.gathered_eq.trans h.gathered_eq
  fields_ne_nil hfields := h'.fields_ne_nil (h.fields_ne_nil hfields)

end Extends

/-- Binding one variable and answering one key changes nothing else. -/
theorem extends_bind_answer (picked : Picked) (name? key? : Option String)
    (value? : Option (Bound Float)) (answer? : Option Json) :
    Extends picked ((picked.bind name? value?).answer key? answer?) name?.toList key?.toList where
  scope_eq name hname := by
    rw [scope_answer]
    cases name? with
    | none => rfl
    | some bound => exact get?_scope_bind_of_ne (fun heq => hname (by simp [heq])) picked value?
  fields_eq key hkey := by
    cases key? with
    | none => rw [answer_none, fields_bind]
    | some answered =>
      rw [get?_fields_answer_of_ne (fun heq => hkey (by simp [heq])), fields_bind]
  gathered_eq := by rw [gathered_answer, gathered_bind]
  fields_ne_nil hfields := fields_answer_ne_nil (by rwa [fields_bind]) key? answer?

end Picked

namespace Selection

variable (graph : Graph) (uid : Uid) (vertex : Vertex) (picked : Picked)

/-- No selections select nothing. -/
theorem pickAll_nil : pickAll graph uid vertex picked [] = .ok picked := by
  rw [pickAll]

/-- Selections select one after the other. -/
theorem pickAll_cons (selection : Selection) (rest : List Selection) :
    pickAll graph uid vertex picked (selection :: rest) =
      pick graph uid vertex picked selection >>= fun next =>
        pickAll graph uid vertex next rest := by
  rw [pickAll]

/-- Selections are made one after the other. -/
theorem pickAll_append (first second : List Selection) :
    pickAll graph uid vertex picked (first ++ second) =
      pickAll graph uid vertex picked first >>= fun next =>
        pickAll graph uid vertex next second := by
  induction first generalizing picked with
  | nil => rw [List.nil_append, pickAll_nil]; rfl
  | cons selection first ih =>
    rw [List.cons_append, pickAll_cons, pickAll_cons]
    cases pick graph uid vertex picked selection with
    | error error => rfl
    | ok next => exact ih next

/-- A selected number is answered as its text. -/
theorem pick_uid (tag : Tag) :
    pick graph uid vertex picked (.uid tag) =
      .ok (picked.answer (key? (.uid tag)) (some (.string uid.text))) := by
  rw [pick]

/-- A selected predicate is bound and answered with its recorded value. -/
theorem pick_predicate (tag : Tag) (name : String) :
    pick graph uid vertex picked (.predicate tag name) =
      .ok ((picked.bind tag.bind? ((vertex.scalar? name).map Bound.ofJson)).answer
        (key? (.predicate tag name)) (vertex.scalar? name)) := by
  rw [pick]

/-- A selected count is bound and answered. -/
theorem pick_count (tag : Tag) (name : String) :
    pick graph uid vertex picked (.count tag name) =
      .ok ((picked.bind tag.bind? (some (.number (Float.ofNat (vertex.count name))))).answer
        (key? (.count tag name)) (some (.number (.int (vertex.count name))))) := by
  rw [pick]

/-- The number an expression gives is bound as it is, and answered if it is finite. -/
theorem pick_math_of_eval {expr : Expr Float} {value? : Option Float} (tag : Tag)
    (hvalue : expr.eval graph.now picked.scope = .ok value?) :
    pick graph uid vertex picked (.math tag expr) =
      .ok ((picked.bind tag.bind? (value?.map Bound.number)).answer
        (key? (.math tag expr))
        ((value?.filter Float.isFinite).map fun value => .number (.float value))) := by
  rw [pick, hvalue]
  rfl

variable {graph uid vertex picked} in
/-- Where an expression leaves something behind, it has been evaluated. -/
theorem exists_eval_of_pick_math {tag : Tag} {expr : Expr Float} {next : Picked}
    (hpick : pick graph uid vertex picked (.math tag expr) = .ok next) :
    ∃ value?, expr.eval graph.now picked.scope = .ok value? ∧
      next = (picked.bind tag.bind? (value?.map Bound.number)).answer (key? (.math tag expr))
        ((value?.filter Float.isFinite).map fun value => .number (.float value)) := by
  rw [pick] at hpick
  obtain ⟨value?, hvalue, hnext⟩ := exists_of_bind_eq_ok hpick
  cases hnext
  exact ⟨value?, hvalue, rfl⟩

variable {graph uid vertex picked} in
/-- A selection that binds a fresh variable leaves its value in the scope and changes nothing else
but the key it is answered under. -/
theorem exists_pick_bound {selection : Selection} {name : String} {key? : Option String}
    {value? : Option (Bound Float)} {answer? : Option Json}
    (hpick : pick graph uid vertex picked selection =
      .ok ((picked.bind (some name) value?).answer key? answer?))
    (hfresh : Fields.get? name picked.scope = none) :
    ∃ next, pick graph uid vertex picked selection = .ok next ∧
      Picked.Extends picked next [name] key?.toList ∧ Fields.get? name next.scope = value? ∧
      (key?.isSome → answer?.isSome → next.fields ≠ []) := by
  refine ⟨_, hpick, picked.extends_bind_answer (some name) key? value? answer?, ?_, ?_⟩
  · rw [Picked.scope_answer, Picked.get?_scope_bind_self hfresh]
  · intro hkey hanswer
    obtain ⟨key, rfl⟩ := Option.isSome_iff_exists.mp hkey
    obtain ⟨answer, rfl⟩ := Option.isSome_iff_exists.mp hanswer
    exact Fields.insert_ne_nil key answer _

variable {graph uid vertex picked} in
/-- A selection that selects is followed by the others. -/
theorem pickAll_cons_of_ok {selection : Selection} {next : Picked}
    (hpick : pick graph uid vertex picked selection = .ok next) (rest : List Selection) :
    pickAll graph uid vertex picked (selection :: rest) =
      pickAll graph uid vertex next rest := by
  rw [pickAll_cons, hpick]
  rfl

variable {graph uid vertex picked} in
/-- Where several selections are made, the first one is, and then the others. -/
theorem exists_pick_of_pickAll_cons {selection : Selection} {rest : List Selection} {next : Picked}
    (hpick : pickAll graph uid vertex picked (selection :: rest) = .ok next) :
    ∃ between, pick graph uid vertex picked selection = .ok between ∧
      pickAll graph uid vertex between rest = .ok next := by
  rw [pickAll_cons] at hpick
  exact exists_of_bind_eq_ok hpick

variable {graph uid vertex picked} in
/-- Selections that select are followed by the others. -/
theorem pickAll_append_of_ok {first : List Selection} {next : Picked}
    (hpick : pickAll graph uid vertex picked first = .ok next) (second : List Selection) :
    pickAll graph uid vertex picked (first ++ second) =
      pickAll graph uid vertex next second := by
  rw [pickAll_append, hpick]
  rfl

/-- What an edge leaves behind, given what has been selected from the nodes it leads to. -/
def edgePicked (tag : Tag) (path : EdgePath) (filter? : Option Filter)
    (selections : List Selection) (picks : List Picked) : Picked :=
  let own : Gathered :=
    match tag.bind? with
    | some name => [(name, graph.neighbours uid path filter?)]
    | none => []
  let gathered := picked.gathered ++ own ++ picks.flatMap Picked.gathered
  { picked with gathered }.answer (key? (.edge tag path filter? selections))
    (if (Picked.objects picks).isEmpty then none else some (.array (Picked.objects picks)))

/-- An edge selects from each node it leads to on its own. -/
theorem pick_edge (tag : Tag) (path : EdgePath) (filter? : Option Filter)
    (selections : List Selection) :
    pick graph uid vertex picked (.edge tag path filter? selections) =
      ((graph.adjacent uid path filter?).mapM fun node =>
        pickAll graph node.1 node.2 Picked.nothing selections) >>= fun picks =>
          .ok (edgePicked graph uid picked tag path filter? selections picks) := by
  have hvisit := Graph.mapM_vertex? (graph.adjacent uid path filter?)
    (fun node => Graph.vertex?_of_mem_adjacent)
    (fun target child => pickAll graph target child Picked.nothing selections)
    (.ok Picked.nothing)
  rw [← Graph.neighbours_eq] at hvisit
  rw [pick]
  exact congrArg (fun picks? => picks? >>= fun picks =>
    .ok (edgePicked graph uid picked tag path filter? selections picks)) hvisit

variable {graph uid vertex picked} in
/-- Where an edge leaves something behind, each node it leads to has been selected from. -/
theorem exists_picks_of_pick_edge {tag : Tag} {path : EdgePath} {filter? : Option Filter}
    {selections : List Selection} {next : Picked}
    (hpick : pick graph uid vertex picked (.edge tag path filter? selections) = .ok next) :
    ∃ picks, List.Forall₂ (fun node found =>
        pickAll graph node.1 node.2 Picked.nothing selections = .ok found)
          (graph.adjacent uid path filter?) picks ∧
      next = edgePicked graph uid picked tag path filter? selections picks := by
  rw [pick_edge] at hpick
  obtain ⟨picks, hpicks, hnext⟩ := exists_of_bind_eq_ok hpick
  cases hnext
  exact ⟨picks, forall₂_of_mapM_eq_ok hpicks, rfl⟩

/-- An edge answers the objects of the nodes it leads to under its key, if there are any. -/
theorem fields_edgePicked (tag : Tag) (path : EdgePath) (filter? : Option Filter)
    (selections : List Selection) (picks : List Picked) :
    (edgePicked graph uid picked tag path filter? selections picks).fields =
      (picked.answer (key? (.edge tag path filter? selections))
        (if (Picked.objects picks).isEmpty then none
          else some (.array (Picked.objects picks)))).fields := by
  rw [edgePicked]
  apply Picked.fields_answer_congr
  rfl

/-- What edges lead to binds no variable of the node they start from. -/
@[simp] theorem scope_edgePicked (tag : Tag) (path : EdgePath) (filter? : Option Filter)
    (selections : List Selection) (picks : List Picked) :
    (edgePicked graph uid picked tag path filter? selections picks).scope = picked.scope := by
  rw [edgePicked, Picked.scope_answer]

/-- The answers under the key of an edge are the objects of the nodes it leads to. -/
theorem get?_fields_edgePicked_self {tag : Tag} {path : EdgePath} {filter? : Option Filter}
    {selections : List Selection} {key : String}
    (hkey : key? (.edge tag path filter? selections) = some key)
    (hfresh : Fields.get? key picked.fields = none) (picks : List Picked) :
    Fields.get? key (edgePicked graph uid picked tag path filter? selections picks).fields =
      if (Picked.objects picks).isEmpty then none else some (.array (Picked.objects picks)) := by
  rw [edgePicked, hkey]
  apply Picked.get?_fields_answer_self
  exact hfresh

/-- An edge leaves every other key as it was. -/
theorem get?_fields_edgePicked_of_ne {tag : Tag} {path : EdgePath} {filter? : Option Filter}
    {selections : List Selection} {key other : String}
    (hkey : key? (.edge tag path filter? selections) = some other) (hne : other ≠ key)
    (picks : List Picked) :
    Fields.get? key (edgePicked graph uid picked tag path filter? selections picks).fields =
      Fields.get? key picked.fields := by
  rw [edgePicked, hkey]
  apply Picked.get?_fields_answer_of_ne hne

/-- The answer under the key of an edge, which is left out when there is nothing in it. -/
def row (answers : List (List (String × Json))) : Option Json :=
  if answers.isEmpty then none else some (.array (answers.map .object))

variable {graph uid vertex picked} in
/-- The nodes that an edge leads to are answered in their order under its key, wherever each of them
has an answer. Nothing else changes. -/
theorem exists_pick_edge {tag : Tag} {path : EdgePath} {filter? : Option Filter}
    {selections : List Selection} {related : Uid × Vertex → List (String × Json) → Prop}
    {key : String} (hkey : key? (.edge tag path filter? selections) = some key)
    (hfresh : Fields.get? key picked.fields = none)
    (htargets : ∀ target ∈ graph.adjacent uid path filter?, ∃ next,
      pickAll graph target.1 target.2 Picked.nothing selections = .ok next ∧
        related target next.fields ∧ next.fields ≠ []) :
    ∃ next answers, pick graph uid vertex picked (.edge tag path filter? selections) = .ok next ∧
      List.Forall₂ related (graph.adjacent uid path filter?) answers ∧
      Fields.get? key next.fields = row answers ∧
      (∀ other, key ≠ other → Fields.get? other next.fields = Fields.get? other picked.fields) ∧
      next.scope = picked.scope := by
  obtain ⟨picks, hpicks, hall⟩ := exists_mapM_eq_ok htargets
  have hobjects : Picked.objects picks = (picks.map Picked.fields).map .object :=
    Picked.objects_eq_map hall fun _ _ h => h.2
  refine ⟨edgePicked graph uid picked tag path filter? selections picks, picks.map Picked.fields,
    ?_, ?_, ?_, fun other hother => ?_, scope_edgePicked ..⟩
  · rw [pick_edge, hpicks]
    rfl
  · rw [List.forall₂_map_right_iff]
    exact hall.imp fun _ _ h => h.1
  · rw [get?_fields_edgePicked_self graph uid picked hkey hfresh picks, hobjects, row]
    simp only [List.isEmpty_map]
  · exact get?_fields_edgePicked_of_ne graph uid picked hkey hother picks

end Selection

namespace Graph

/-- What a block over all nodes with a predicate selects. -/
theorem runBlock_has (graph : Graph) (gathered : Gathered) (name predicate : String)
    (filter? : Option Filter) (selections : List Selection) :
    graph.runBlock gathered ⟨name, .has predicate, filter?, selections⟩ =
      (graph.nodes.filter fun node =>
        node.2.has predicate && Filter.admits filter? node.2).mapM fun node =>
          Selection.pickAll graph node.1 node.2 Picked.nothing selections := by
  rw [← graph.admitted_withPredicate ⟨name, .has predicate, filter?, selections⟩ predicate]
  rfl

/-- A query of one block is answered by the objects of that block. -/
theorem evaluate_single (graph : Graph) {block : Block} (hanswered : block.isSilent = false) :
    graph.evaluate ⟨[block]⟩ =
      graph.runBlock [] block >>= fun picks =>
        .ok (.object [(block.name, .array (Picked.objects picks))]) := by
  rw [evaluate, runBlocks]
  cases graph.runBlock [] block with
  | error error => rfl
  | ok picks =>
    simp only [bind, Except.bind, hanswered, runBlocks]
    rfl

end Graph

end PodCosts
