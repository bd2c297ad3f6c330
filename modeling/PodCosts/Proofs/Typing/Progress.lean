import PodCosts.Proofs.Graph.Readings
import PodCosts.Proofs.Graph.Selecting
import PodCosts.Proofs.Typing.Basic
import Mathlib.Data.List.Nodup

/-!
# Well typed queries are answered

In front of every selection the scope holds nothing but variables that were bound earlier, each to
something of its type. Every selection keeps that, so no expression meets a variable that it cannot
use, and the evaluation goes on to its end.
-/

namespace PodCosts

/-- A value that a type admits is bound at that type unless it is null. -/
theorem Bound.hasType_ofJson {type : ValueType} {value : Json} (hnull : value ≠ .null)
    (hvalue : type.admits value = true) : (Bound.ofJson value).HasType type := by
  cases type with
  | number =>
      cases value with
      | number number => trivial
      | null => exact absurd rfl hnull
      | _ => cases hvalue
  | time =>
      cases value with
      | string text =>
          obtain ⟨moment, hmoment⟩ := Option.isSome_iff_exists.mp hvalue
          rw [ofJson, hmoment]
          trivial
      | null => exact absurd rfl hnull
      | _ => cases hvalue
  | other => simp [HasType]

/-- A recorded value that is not null has the type of its predicate. -/
theorem Graph.Respects.hasType_scalar {graph : Graph} {types : Typing} (h : graph.Respects types)
    {node : Uid × Vertex} (hnode : node ∈ graph.nodes) {predicate : String} {value : Json}
    (hvalue : node.2.scalar? predicate = some value) :
    (Bound.ofJson value).HasType (types predicate) := by
  unfold Vertex.scalar? at hvalue
  split at hvalue
  · cases hvalue
  · rename_i hnull
    refine Bound.hasType_ofJson ?_ (h node hnode _ (Fields.mem_of_get? hvalue))
    rintro rfl
    exact hnull hvalue

/-- Whether a selection has bound nothing but its own variable, and that one to something of its
type. -/
def Selection.Binds (types : Typing) (before after : Scope Float) (selection : Selection) : Prop :=
  after = before ∨ ∃ name type value, selection.binding? types = some (name, type) ∧
    value.HasType type ∧ after = (name, value) :: before

/-- A scope in front of a list of selections: every variable it holds was bound earlier to something
of its type, and all variables bound so far and later are different. -/
structure Context.Holds (within : Context) (types : Typing) (selections : List Selection)
    (scope : Scope Float) : Prop where
  distinct : ((within.earlier ++ Selection.bindings types selections).map Prod.fst).Nodup
  bound : (within.earlier ++ Selection.bindings types selections).map Prod.fst ⊆ within.bound
  typed : ∀ name value, Fields.get? name scope = some value →
    ∃ type, (name, type) ∈ within.earlier ∧ value.HasType type

namespace Context.Holds

variable {within : Context} {types : Typing} {selection : Selection} {selections : List Selection}
  {scope after : Scope Float}

/-- Nothing is bound in front of the first selection. -/
theorem start (hdistinct : (Selection.context types selections).bound.Nodup) :
    (Selection.context types selections).Holds types selections [] where
  distinct := hdistinct
  bound := List.Subset.refl _
  typed name value hvalue := by cases hvalue

/-- A variable that may be used at a type holds something of that type, or nothing. -/
theorem get?_of_permits (h : within.Holds types selections scope) {name : String}
    {type : ValueType} (hname : within.permits name type = true) :
    ∀ value ∈ Fields.get? name scope, value.HasType type := by
  intro value hvalue
  obtain ⟨held, hearlier, hheld⟩ := h.typed name value hvalue
  have hbound : name ∈ within.bound :=
    h.bound (List.mem_map_of_mem (List.mem_append_left _ hearlier))
  have hmem : (name, type) ∈ within.earlier := by
    simpa [permits, hbound] using hname
  have hdistinct := h.distinct
  rw [List.map_append, List.nodup_append] at hdistinct
  have htypes : (name, held) = (name, type) :=
    List.inj_on_of_nodup_map hdistinct.1 hearlier hmem rfl
  rwa [← (Prod.mk.inj htypes).2]

/-- What holds in front of a selection holds behind it, for whatever it has bound. -/
theorem next (h : within.Holds types (selection :: selections) scope)
    (hbinds : selection.Binds types scope after) :
    (within.extended (selection.binding? types)).Holds types selections after := by
  have hbindings : (within.extended (selection.binding? types)).earlier ++
      Selection.bindings types selections =
        within.earlier ++ Selection.bindings types (selection :: selections) := by
    rw [extended, Selection.bindings, Selection.bindings, List.filterMap_cons, List.append_assoc]
    cases selection.binding? types <;> rfl
  refine ⟨by rw [hbindings]; exact h.distinct, by rw [hbindings]; exact h.bound, ?_⟩
  intro name value hvalue
  have hold : Fields.get? name scope = some value →
      ∃ type, (name, type) ∈ (within.extended (selection.binding? types)).earlier ∧
        value.HasType type := by
    intro hscope
    obtain ⟨type, hearlier, htype⟩ := h.typed name value hscope
    exact ⟨type, List.mem_append_left _ hearlier, htype⟩
  obtain rfl | ⟨fresh, type, bound, hbinding, htype, rfl⟩ := hbinds
  · exact hold hvalue
  · by_cases hname : fresh = name
    · subst hname
      rw [Fields.get?_cons_self] at hvalue
      cases hvalue
      refine ⟨type, List.mem_append_right _ ?_, htype⟩
      rw [hbinding]
      exact List.mem_singleton_self _
    · rw [Fields.get?_cons_of_ne hname] at hvalue
      exact hold hvalue

end Context.Holds

/-! ## Evaluation goes on -/

/-- A well typed expression has a value, or none where a variable is unbound; it is never an
error. -/
theorem Expr.exists_eval (now : Instant) {within : Context} {types : Typing}
    {selections : List Selection} {scope : Scope Float}
    (hscope : within.Holds types selections scope) {expr : Expr Float}
    (hexpr : expr.wellTyped within = true) : ∃ value?, expr.eval now scope = .ok value? := by
  induction expr with
  | literal value => exact ⟨_, eval_literal value⟩
  | var name =>
      have hvalue := hscope.get?_of_permits hexpr
      rw [eval]
      cases hbound : Fields.get? name scope with
      | none => exact ⟨_, rfl⟩
      | some value =>
          cases value with
          | number value => exact ⟨_, rfl⟩
          | _ => exact (hvalue _ hbound).elim
  | since name =>
      have hvalue := hscope.get?_of_permits hexpr
      rw [eval]
      cases hbound : Fields.get? name scope with
      | none => exact ⟨_, rfl⟩
      | some value =>
          cases value with
          | time value => exact ⟨_, rfl⟩
          | _ => exact (hvalue _ hbound).elim
  | binary op left right ihleft ihright =>
      simp only [wellTyped, Bool.and_eq_true] at hexpr
      obtain ⟨x?, hleft⟩ := ihleft hexpr.1.2
      obtain ⟨y?, hright⟩ := ihright hexpr.2
      cases op with
      | sub => exact ⟨_, eval_sub hleft hright⟩
      | mul => exact ⟨_, eval_mul hleft hright⟩
      | div =>
          have hdivisor := hexpr.1.1
          unfold mayFollow at hdivisor
          split at hdivisor
          · exact ⟨_, eval_div_literal hleft (by simpa using hdivisor)⟩
          · cases hdivisor
          · contradiction
  | least left right ihleft ihright =>
      rw [wellTyped, Bool.and_eq_true] at hexpr
      obtain ⟨x?, hleft⟩ := ihleft hexpr.1
      obtain ⟨y?, hright⟩ := ihright hexpr.2
      exact ⟨_, eval_least hleft hright⟩
  | most left right ihleft ihright =>
      rw [wellTyped, Bool.and_eq_true] at hexpr
      obtain ⟨x?, hleft⟩ := ihleft hexpr.1
      obtain ⟨y?, hright⟩ := ihright hexpr.2
      exact ⟨_, eval_most hleft hright⟩
  | choose left right yes no ihleft ihright ihyes ihno =>
      simp only [wellTyped, Bool.and_eq_true] at hexpr
      obtain ⟨⟨⟨hleft, hright⟩, hyes⟩, hno⟩ := hexpr
      obtain ⟨x?, hx⟩ := ihleft hleft
      obtain ⟨y?, hy⟩ := ihright hright
      obtain ⟨yes?, hyes⟩ := ihyes hyes
      obtain ⟨no?, hno⟩ := ihno hno
      cases x? with
      | none => exact ⟨none, by rw [eval, hx, hy]; rfl⟩
      | some x =>
          cases y? with
          | none => exact ⟨none, by rw [eval, hx, hy]; rfl⟩
          | some y =>
              rw [eval_choose hx hy]
              split
              · exact ⟨yes?, hyes⟩
              · exact ⟨no?, hno⟩

namespace Selection

variable {types : Typing} {graph : Graph} {node : Uid × Vertex} {picked next : Picked}

/-- A selection binds its variable to a value of its type, or nothing. -/
theorem binds_bind {selection : Selection} {name? : Option String} {type : ValueType}
    {value? : Option (Bound Float)}
    (hbinding : selection.binding? types = name?.map fun name => (name, type))
    (hvalue : ∀ value ∈ value?, value.HasType type) :
    selection.Binds types picked.scope (picked.bind name? value?).scope := by
  cases name? with
  | none => exact .inl rfl
  | some name =>
      cases value? with
      | none => exact .inl rfl
      | some value => exact .inr ⟨name, type, value, hbinding, hvalue value rfl, rfl⟩

/-- A selection binds nothing but its own variable, and that one to something of its type. -/
theorem binds_of_pick (hgraph : graph.Respects types) (hnode : node ∈ graph.nodes)
    {selection : Selection} (hpick : pick graph node.1 node.2 picked selection = .ok next) :
    selection.Binds types picked.scope next.scope := by
  cases selection with
  | uid tag =>
      rw [pick_uid] at hpick
      cases hpick
      exact .inl (picked.scope_answer _ _)
  | predicate tag name =>
      rw [pick_predicate] at hpick
      cases hpick
      rw [Picked.scope_answer]
      refine binds_bind rfl fun bound hbound => ?_
      obtain ⟨value, hvalue, rfl⟩ := Option.map_eq_some_iff.mp hbound
      exact hgraph.hasType_scalar hnode hvalue
  | count tag name =>
      rw [pick_count] at hpick
      cases hpick
      rw [Picked.scope_answer]
      refine binds_bind rfl ?_
      rintro bound ⟨⟩
      trivial
  | math tag expr =>
      obtain ⟨value?, -, rfl⟩ := exists_eval_of_pick_math hpick
      rw [Picked.scope_answer]
      refine binds_bind rfl fun bound hbound => ?_
      obtain ⟨number, -, rfl⟩ := Option.map_eq_some_iff.mp hbound
      trivial
  | edge tag path filter? selections =>
      obtain ⟨picks, -, rfl⟩ := exists_picks_of_pick_edge hpick
      exact .inl (scope_edgePicked ..)

mutual

/-- A well typed selection is made from every node. -/
theorem exists_pick (hgraph : graph.Respects types) (node : Uid × Vertex) {within : Context}
    {picked : Picked} {selections : List Selection} (selection : Selection)
    (htyped : selection.wellTyped types within = true)
    (hscope : within.Holds types selections picked.scope) :
    ∃ next, pick graph node.1 node.2 picked selection = .ok next := by
  match selection with
  | .uid tag => exact ⟨_, pick_uid ..⟩
  | .predicate tag name => exact ⟨_, pick_predicate ..⟩
  | .count tag name => exact ⟨_, pick_count ..⟩
  | .math tag expr =>
      obtain ⟨value?, hvalue⟩ := Expr.exists_eval graph.now hscope htyped
      exact ⟨_, pick_math_of_eval graph node.1 node.2 picked tag hvalue⟩
  | .edge tag path filter? inner =>
      rw [wellTyped, Bool.and_eq_true, decide_eq_true_eq] at htyped
      have hstep : ∀ target ∈ graph.adjacent node.1 path filter?, ∃ next,
          pickAll graph target.1 target.2 Picked.nothing inner = .ok next ∧ True := by
        intro target htarget
        have htarget := Graph.mem_nodes.mpr (Graph.vertex?_of_mem_adjacent htarget)
        have hstart : (context types inner).Holds types inner Picked.nothing.scope :=
          Context.Holds.start htyped.1
        obtain ⟨next, hnext⟩ := exists_pickAll hgraph htarget inner htyped.2 hstart
        exact ⟨next, hnext, trivial⟩
      obtain ⟨picks, hpicks, -⟩ := exists_mapM_eq_ok hstep
      exact ⟨_, by rw [pick_edge, hpicks]; rfl⟩

/-- Well typed selections are made one after the other from every node. -/
theorem exists_pickAll (hgraph : graph.Respects types) {node : Uid × Vertex}
    (hnode : node ∈ graph.nodes) {within : Context} {picked : Picked} (selections : List Selection)
    (htyped : allWellTyped types within selections = true)
    (hscope : within.Holds types selections picked.scope) :
    ∃ next, pickAll graph node.1 node.2 picked selections = .ok next := by
  match selections with
  | [] => exact ⟨picked, pickAll_nil ..⟩
  | selection :: rest =>
      rw [allWellTyped, Bool.and_eq_true] at htyped
      obtain ⟨next, hnext⟩ := exists_pick hgraph node selection htyped.1 hscope
      rw [pickAll_cons_of_ok hnext]
      exact exists_pickAll hgraph hnode rest htyped.2
        (hscope.next (binds_of_pick hgraph hnode hnext))

end

end Selection

namespace Graph

variable {types : Typing} {graph : Graph}

/-- A block over the nodes with a predicate selects from each of them. -/
theorem exists_runBlock (hgraph : graph.Respects types) (gathered : Gathered) {block : Block}
    (hroot : block.root.isPredicate = true)
    (htyped : Selection.listWellTyped types block.selections = true) :
    ∃ picks, graph.runBlock gathered block = .ok picks := by
  obtain ⟨name, root, filter?, selections⟩ := block
  cases root with
  | uid variableName => cases hroot
  | has predicate =>
      rw [Selection.listWellTyped, Bool.and_eq_true, decide_eq_true_eq] at htyped
      have hstart : (Selection.context types selections).Holds types selections
        Picked.nothing.scope := Context.Holds.start htyped.1
      have hstep : ∀ node ∈ graph.nodes.filter fun node =>
          node.2.has predicate && Filter.admits filter? node.2, ∃ next,
          Selection.pickAll graph node.1 node.2 Picked.nothing selections = .ok next ∧ True := by
        intro node hnode
        obtain ⟨next, hnext⟩ := Selection.exists_pickAll hgraph (List.mem_filter.mp hnode).1
          selections htyped.2 hstart
        exact ⟨next, hnext, trivial⟩
      obtain ⟨picks, hpicks, -⟩ := exists_mapM_eq_ok hstep
      exact ⟨picks, by rw [runBlock_has, hpicks]⟩

/-- Well typed blocks are answered one after the other. -/
theorem exists_runBlocks (hgraph : graph.Respects types) (blocks : List Block)
    (htyped : Query.wellTyped types ⟨blocks⟩ = true) (gathered : Gathered)
    (output : List (String × Json)) :
    ∃ fields, graph.runBlocks gathered output blocks = .ok fields := by
  induction blocks generalizing gathered output with
  | nil => exact ⟨output, rfl⟩
  | cons block blocks ih =>
      rw [Query.wellTyped, List.all_cons, Bool.and_eq_true, Bool.and_eq_true] at htyped
      obtain ⟨⟨hroot, hselections⟩, hblocks⟩ := htyped
      obtain ⟨picks, hpicks⟩ := exists_runBlock hgraph gathered hroot hselections
      rw [runBlocks, hpicks]
      exact ih hblocks _ _

/-- A well typed query is answered. -/
theorem exists_evaluate (hgraph : graph.Respects types) {query : Query}
    (htyped : query.wellTyped types = true) : ∃ document, graph.evaluate query = .ok document := by
  obtain ⟨fields, hfields⟩ := exists_runBlocks hgraph query.blocks htyped [] []
  exact ⟨.object fields, by rw [evaluate, hfields]; rfl⟩

end Graph

end PodCosts
