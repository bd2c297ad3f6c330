import PodCosts.Proofs.Failures
import PodCosts.Proofs.Records.Hierarchies
import PodCosts.Proofs.Views.Answered

/-!
# What views show

The cost view of a pod is its plain view with numbers. Both are read from the answers to different
requests. The reader passes over what a view does not show, and fails on nothing else as long as the
numbers in the answer can be read back.
-/

namespace PodCosts

namespace Hierarchy

mutual

/-- A node with zero in place of every number, and so are its children. -/
def withoutNumbers : Hierarchy → Hierarchy
  | .mk name type children _ _ _ _ _ _ => .mk name type (withoutNumbersAll children) 0 0 0 0 0 0

/-- Nodes with zero in place of every number. -/
def withoutNumbersAll : List Hierarchy → List Hierarchy
  | [] => []
  | node :: nodes => node.withoutNumbers :: withoutNumbersAll nodes

end

/-- Nodes are without numbers where each of them is. -/
theorem withoutNumbersAll_eq_map (nodes : List Hierarchy) :
    withoutNumbersAll nodes = nodes.map withoutNumbers := by
  induction nodes with
  | nil => rfl
  | cons node nodes ih => rw [withoutNumbersAll, ih, List.map_cons]

end Hierarchy

/-- A view with zero in place of every number. -/
def HierarchyView.withoutNumbers (view : HierarchyView) : HierarchyView :=
  ⟨view.data.withoutNumbers⟩

namespace Vertex

/-- What is shown of a node besides its numbers. -/
def bare (vertex : Vertex) (children : List Hierarchy) : Hierarchy :=
  .mk ((vertex.text? Predicate.name).getD "") ((vertex.text? Predicate.type).getD "") children
    0 0 0 0 0 0

variable {vertex : Vertex} {allowed : Json → Prop} {answers : List (List (String × Json))}
  {fields : List (String × Json)}

/-- With the answer for a node the answers for its children can be read back. -/
theorem Described.readable_of_mem (h : vertex.Described allowed answers fields)
    (hreadable : (Json.object fields).readable = true) {answer : List (String × Json)}
    (hanswer : answer ∈ answers) : (Json.object answer).readable = true :=
  Json.readable_of_mem_row hreadable h.children hanswer

/-- Under the name of a number a description is read as some number, and as zero if none are
allowed. -/
theorem Described.exists_field?_number (h : vertex.Described allowed answers fields)
    (hallowed : ∀ value, allowed value → value.IsNumber)
    (hreadable : (∃ value, allowed value) → (Json.object fields).readable = true)
    {known : List (String × Node)} {key : String} (hkey : key ∈ Hierarchy.numberNames)
    (hknown : Fields.get? key known = (Fields.get? key fields).map Json.toNode) :
    ∃ x, Node.field? known key 0 Node.float? = some x ∧ ((∀ value, ¬allowed value) → x = 0) := by
  rw [Node.field?, hknown]
  cases hvalue : Fields.get? key fields with
  | none => exact ⟨0, rfl, fun _ => rfl⟩
  | some value =>
      have hheld := h.numbers key hkey value hvalue
      have hback := Json.readable_of_mem_fields (hreadable ⟨value, hheld⟩) _
        (Fields.mem_of_get? hvalue)
      obtain ⟨x, hx⟩ :=
        Option.isSome_iff_exists.mp (Json.float?_of_readable (hallowed value hheld) hback)
      exact ⟨x, hx, fun hnone => absurd hheld (hnone value)⟩

/-- A description is read as the node with some numbers, and with zeros if none are allowed. -/
theorem Described.exists_ofNode? (h : vertex.Described allowed answers fields)
    (hvertex : vertex.Presentable) (hallowed : ∀ value, allowed value → value.IsNumber)
    (hreadable : (∃ value, allowed value) → (Json.object fields).readable = true) {depth : Nat}
    {children : List Hierarchy}
    (hanswers : answers.mapM (fun answer => Hierarchy.ofNode? depth (Json.object answer).toNode) =
      some children) :
    ∃ shown, Hierarchy.ofNode? (depth + 2) (Json.object fields).toNode = some shown ∧
      shown.withoutNumbers = vertex.bare (children.map Hierarchy.withoutNumbers) ∧
      ((∀ value, ¬allowed value) → shown = vertex.bare children) := by
  obtain ⟨known, hknown, hfields⟩ := Node.fields?_toNode h.sorted Hierarchy.fieldNames
  have hname : Node.field? known "name" "" Node.text? =
      some ((vertex.text? Predicate.name).getD "") :=
    field?_text (fun _ => hvertex.name)
      ((hfields "name" (by decide)).trans (congrArg (Option.map Json.toNode) h.name))
  have htype : Node.field? known "type" "" Node.text? =
      some ((vertex.text? Predicate.type).getD "") :=
    field?_text hvertex.type
      ((hfields "type" (by decide)).trans (congrArg (Option.map Json.toNode) h.type))
  have hchildren : Node.field? known "children" []
      (Node.list? Hierarchy.ofNode? (depth + 1)) = some children :=
    Node.field?_row hanswers
      ((hfields "children" (by decide)).trans (congrArg (Option.map Json.toNode) h.children))
  have hnumber (key : String) (hfield : key ∈ Hierarchy.fieldNames)
      (hkey : key ∈ Hierarchy.numberNames) :=
    h.exists_field?_number hallowed hreadable hkey (hfields key hfield)
  obtain ⟨cpu, hcpu, hcpu0⟩ := hnumber "cpu" (by decide) (by decide)
  obtain ⟨memory, hmemory, hmemory0⟩ := hnumber "memory" (by decide) (by decide)
  obtain ⟨storage, hstorage, hstorage0⟩ := hnumber "storage" (by decide) (by decide)
  obtain ⟨cpuCost, hcpuCost, hcpuCost0⟩ := hnumber "cpuCost" (by decide) (by decide)
  obtain ⟨memoryCost, hmemoryCost, hmemoryCost0⟩ := hnumber "memoryCost" (by decide) (by decide)
  obtain ⟨storageCost, hstorageCost, hstorageCost0⟩ :=
    hnumber "storageCost" (by decide) (by decide)
  refine ⟨.mk ((vertex.text? Predicate.name).getD "") ((vertex.text? Predicate.type).getD "")
    children cpu memory storage cpuCost memoryCost storageCost, ?_, ?_, fun hnone => ?_⟩
  · rw [Hierarchy.ofNode?_eq_record?, Node.record?_of_fields? hknown, Hierarchy.ofFields?, hname,
      htype, hchildren, hcpu, hmemory, hstorage, hcpuCost, hmemoryCost, hstorageCost]
    rfl
  · rw [Hierarchy.withoutNumbers, Hierarchy.withoutNumbersAll_eq_map]
    rfl
  · rw [hcpu0 hnone, hmemory0 hnone, hstorage0 hnone, hcpuCost0 hnone, hmemoryCost0 hnone,
      hstorageCost0 hnone]
    rfl

end Vertex

namespace Graph

/-- What is shown of a pod and its containers besides their numbers. -/
def bare (graph : Graph) (pod : Uid × Vertex) : Hierarchy :=
  pod.2.bare ((graph.containersOf pod.1).map fun container => container.2.bare [])

/-- What is shown for a target besides numbers: the first pod of its name, if there is one. -/
def bareView (graph : Graph) : Target → HierarchyView
  | .all => HierarchyView.blank
  | .named name =>
    match graph.podsNamed name with
    | pod :: _ => ⟨graph.bare pod⟩
    | [] => HierarchyView.blank

/-- A node is shown as it is besides its numbers, and has none if none are allowed. -/
def ShownAs (allowed : Json → Prop) (bare shown : Hierarchy) : Prop :=
  shown.withoutNumbers = bare ∧ ((∀ value, ¬allowed value) → shown = bare)

section

variable {graph : Graph} {allowed : Json → Prop}

/-- Containers that are shown are, besides their numbers, the containers of the graph. -/
theorem map_eq_of_shownAs {containers : List (Uid × Vertex)} {children : List Hierarchy}
    (hall : List.Forall₂ (fun container shown => ShownAs allowed (container.2.bare []) shown)
      containers children) :
    children.map Hierarchy.withoutNumbers =
        containers.map (fun container => container.2.bare []) ∧
      ((∀ value, ¬allowed value) →
        children = containers.map fun container => container.2.bare []) := by
  induction hall with
  | nil => exact ⟨rfl, fun _ => rfl⟩
  | cons hfirst _ ih =>
      rw [List.map_cons, List.map_cons, hfirst.1, ih.1]
      exact ⟨rfl, fun hnone => by rw [hfirst.2 hnone, ih.2 hnone]⟩

/-- The answer for a pod is read as the pod with its containers. -/
theorem PodDescribed.exists_ofNode? {pod : Uid × Vertex} {fields : List (String × Json)}
    (h : graph.PodDescribed allowed pod fields) (hpod : pod.2.Presentable)
    (hcontainers : ∀ container ∈ graph.containersOf pod.1, container.2.Presentable)
    (hallowed : ∀ value, allowed value → value.IsNumber)
    (hreadable : (∃ value, allowed value) → (Json.object fields).readable = true) (depth : Nat) :
    ∃ shown, Hierarchy.ofNode? (depth + 4) (Json.object fields).toNode = some shown ∧
      ShownAs allowed (graph.bare pod) shown := by
  obtain ⟨answers, hdescribed, hall⟩ := h
  have hstep : ∀ container ∈ graph.containersOf pod.1, ∀ answer ∈ answers,
      container.2.Described allowed [] answer →
        ∃ shown, Hierarchy.ofNode? (depth + 2) (Json.object answer).toNode = some shown ∧
          ShownAs allowed (container.2.bare []) shown := by
    intro container hcontainer answer hanswer hcontained
    exact hcontained.exists_ofNode? (hcontainers container hcontainer) hallowed
      (fun hsome => hdescribed.readable_of_mem (hreadable hsome) hanswer) rfl
  obtain ⟨children, hchildren, hshown⟩ := exists_mapM_of_forall₂ hall hstep
  obtain ⟨hbare, hzero⟩ := map_eq_of_shownAs hshown
  obtain ⟨shown, hread, hwithout, hnumbers⟩ :=
    hdescribed.exists_ofNode? hpod hallowed hreadable hchildren
  refine ⟨shown, hread, ?_, fun hnone => ?_⟩
  · rw [hwithout, hbare, bare]
  · rw [hnumbers hnone, hzero hnone, bare]

/-- The records of the answer are the pods of the name, in ascending order. -/
theorem exists_records_parent (hdocumented : graph.Documented) {name : String}
    {inner own : List Selection}
    (hpods : ∀ pod ∈ graph.podsNamed name, graph.Shows allowed own pod ∧
      ∀ container ∈ graph.containersOf pod.1, graph.Shows allowed inner container)
    (hallowed : ∀ value, allowed value → value.IsNumber)
    (hreadable : (∃ value, allowed value) →
      graph.PrintsReadable (Request.parent name (Request.children inner :: own))) :
    ∃ records, Lookup.recordsOf Request.parentBlock Hierarchy.ofNode?
        (graph.reply (Request.parent name (Request.children inner :: own))) = .ok records ∧
      List.Forall₂ (fun pod shown => ShownAs allowed (graph.bare pod) shown)
        (graph.podsNamed name) records := by
  obtain ⟨answers, hevaluate, hall⟩ := evaluate_parent hdocumented hpods
  have hback (hsome : ∃ value, allowed value) :
      ∀ answer ∈ answers, (Json.object answer).readable = true := by
    intro answer hanswer
    have harray := Json.readable_of_mem_fields (hreadable hsome _ hevaluate) _ List.mem_cons_self
    exact Json.readable_of_mem_items harray _ (List.mem_map_of_mem hanswer)
  have hfinite : ∀ item ∈ answers.map Json.object, item.Finite := by
    intro item hitem
    obtain ⟨answer, hanswer, rfl⟩ := List.mem_map.mp hitem
    obtain ⟨pod, -, _, hdescribed, -⟩ := exists_of_mem_forall₂ hall hanswer
    exact hdescribed.finite
  have hstep : ∀ pod ∈ graph.podsNamed name, ∀ answer ∈ answers,
      graph.PodDescribed allowed pod answer →
        ∃ shown, Hierarchy.ofNode? (Node.depthLimit - 2) (Json.object answer).toNode = some shown ∧
          ShownAs allowed (graph.bare pod) shown := by
    intro pod hpod answer hanswer hdescribed
    obtain ⟨hown, hinner⟩ := hpods pod hpod
    exact hdescribed.exists_ofNode? hown.1 (fun container hmem => (hinner container hmem).1)
      hallowed (fun hsome => hback hsome answer hanswer) (Node.depthLimit - 6)
  obtain ⟨records, hrecords, hshown⟩ := exists_mapM_of_forall₂ hall hstep
  refine ⟨records, ?_, hshown⟩
  rw [reply, hevaluate]
  dsimp only
  rw [Lookup.recordsOf, readAnswer_encode _ _ hfinite, List.mapM_map, Function.comp_def, hrecords]

/-- A view of the records shows the first pod of the name, or nothing if there is none. -/
theorem shownAs_of_shownFrom (hdocumented : graph.Documented) {name : String}
    {inner own : List Selection}
    (hpods : ∀ pod ∈ graph.podsNamed name, graph.Shows allowed own pod ∧
      ∀ container ∈ graph.containersOf pod.1, graph.Shows allowed inner container)
    (hallowed : ∀ value, allowed value → value.IsNumber)
    (hreadable : (∃ value, allowed value) →
      graph.PrintsReadable (Request.parent name (Request.children inner :: own)))
    {view : HierarchyView}
    (hview : Lookup.ShownFrom
      (graph.reply (Request.parent name (Request.children inner :: own))) view) :
    ShownAs allowed (graph.bareView (.named name)).data view.data := by
  obtain ⟨records, hrecords, hshown⟩ :=
    exists_records_parent hdocumented hpods hallowed hreadable
  obtain ⟨hfirst, hnothing, -⟩ := hview
  rw [bareView]
  generalize graph.podsNamed name = pods at hshown
  cases hshown with
  | nil =>
      rw [hnothing hrecords]
      exact ⟨rfl, fun _ => rfl⟩
  | cons hdata hothers =>
      rw [hfirst _ _ hrecords]
      exact hdata

end

end Graph

/-- A single target has a name. -/
theorem Target.ne_empty_of_ofText {text name : String} (h : ofText text = .named name) :
    name ≠ "" := by
  unfold ofText at h
  dsimp only at h
  split_ifs at h with hall
  cases h
  exact fun hempty => hall (.inl hempty)

/-- A view without numbers is empty exactly if no pod has the name, or if no single pod is meant. -/
theorem Graph.isEmpty_bareView_iff (graph : Graph) (text : String) :
    (graph.bareView (Target.ofText text)).isEmpty = true ↔
      Target.ofText text = .all ∨
        ∃ name, Target.ofText text = .named name ∧ graph.podsNamed name = [] := by
  cases htarget : Target.ofText text with
  | all => exact ⟨fun _ => .inl rfl, fun _ => rfl⟩
  | named name =>
      have hname := Target.ne_empty_of_ofText htarget
      rw [bareView]
      cases hpods : graph.podsNamed name with
      | nil => exact ⟨fun _ => .inr ⟨name, rfl, hpods⟩, fun _ => rfl⟩
      | cons pod others =>
          have hpod : pod ∈ graph.podsNamed name := hpods ▸ List.mem_cons_self
          have hheld : pod.2.text? Predicate.name = some name := by
            have hfound := (List.mem_filter.mp hpod).2
            simp only [Bool.and_eq_true, beq_iff_eq] at hfound
            exact hfound.2
          have hshown : (graph.bare pod).name = name := by
            rw [bare, Vertex.bare, hheld]
            rfl
          refine ⟨fun hempty => absurd (hshown.symm.trans (of_decide_eq_true hempty)) hname, ?_⟩
          rintro (hall | ⟨other, hother, hnone⟩)
          · cases hall
          · cases hother
            rw [hpods] at hnone
            cases hnone

/-- Whether every pod and every container of a graph can be presented. -/
def Graph.Presentable (graph : Graph) : Prop :=
  ∀ node ∈ graph.nodes,
    node.2.has Kind.pod.marker = true ∨ node.2.has Kind.container.marker = true →
      node.2.Presentable

instance (graph : Graph) : Decidable graph.Presentable :=
  inferInstanceAs (Decidable (∀ node ∈ graph.nodes,
    node.2.has Kind.pod.marker = true ∨ node.2.has Kind.container.marker = true →
      node.2.Presentable))

/-- The pods of a name can be shown. -/
theorem Graph.Presentable.of_podsNamed {graph : Graph} (h : graph.Presentable) {name : String}
    {pod : Uid × Vertex} (hpod : pod ∈ graph.podsNamed name) :
    pod ∈ graph.nodes ∧ pod.2.Presentable := by
  obtain ⟨hmem, hfound⟩ := List.mem_filter.mp hpod
  rw [Bool.and_eq_true] at hfound
  exact ⟨hmem, h pod hmem (.inl hfound.1)⟩

/-- The containers of a pod can be shown. -/
theorem Graph.Presentable.of_containersOf {graph : Graph} (h : graph.Presentable) {pod : Uid}
    {container : Uid × Vertex} (hcontainer : container ∈ graph.containersOf pod) :
    container ∈ graph.nodes ∧ container.2.Presentable := by
  obtain ⟨hmem, hfound⟩ := List.mem_filter.mp hcontainer
  rw [Bool.and_eq_true] at hfound
  exact ⟨hmem, h container hmem (.inr hfound.2)⟩

namespace Lookup

section

variable {graph : Graph} (hdocumented : graph.Documented) (hpresentable : graph.Presentable)
include hdocumented hpresentable

/-- The plain view of a name. -/
theorem hierarchy_eq_bareView (name : String) (journal : Journal) :
    ((hierarchy (.named name)).run (Store.ofGraph graph) journal).1 =
      graph.bareView (.named name) := by
  have hpods : ∀ pod ∈ graph.podsNamed name, graph.Shows (fun _ => False) [] pod ∧
      ∀ container ∈ graph.containersOf pod.1, graph.Shows (fun _ => False) [] container := by
    intro pod hpod
    refine ⟨⟨(hpresentable.of_podsNamed hpod).2, Selection.addNumbers_nil graph pod⟩, ?_⟩
    intro container hcontainer
    exact ⟨(hpresentable.of_containersOf hcontainer).2, Selection.addNumbers_nil graph container⟩
  have hview := (shownFrom_view (Store.ofGraph graph) journal (Request.hierarchy name)
    "hierarchy" name).1
  have hshown := Graph.shownAs_of_shownFrom hdocumented hpods (fun _ h => h.elim)
    (fun ⟨_, h⟩ => h.elim) hview
  exact congrArg HierarchyView.mk (hshown.2 fun _ h => h)

/-- The cost view of a name, provided that the numbers in the answer can be read back. -/
theorem costHierarchy_eq_bareView (terms : Terms) (name : String)
    (hprinted : ∀ query ∈ ((costHierarchy terms (.named name)).run (Store.ofGraph graph)
      Journal.empty).2.sent, graph.PrintsReadable query) (journal : Journal) :
    ((costHierarchy terms (.named name)).run (Store.ofGraph graph) journal).1.withoutNumbers =
      graph.bareView (.named name) := by
  have hadds (level : Level) (rates : Rates) {node : Uid × Vertex}
      (hnode : node ∈ graph.nodes ∧ node.2.Presentable) : graph.Shows Json.IsNumber
        (Request.costSelections level terms.window.elapsedSeconds rates) node :=
    ⟨hnode.2, Request.addNumbers_costSelections graph (hdocumented.writable hnode.1)
      hnode.2.billable level terms.window.elapsedSeconds rates⟩
  obtain ⟨hsent, -, -⟩ := run_costHierarchy_named (Store.ofGraph graph) Journal.empty terms name
  obtain ⟨-, hview, -⟩ := run_costHierarchy_named (Store.ofGraph graph) journal terms name
  rw [hsent] at hprinted
  -- A graph in memory replies the same whatever it was sent before, so the requests are the same.
  have hreadable := hprinted _ (List.mem_append_right _ (List.mem_cons_of_mem _ List.mem_cons_self))
  have hshown := Graph.shownAs_of_shownFrom hdocumented
    (fun pod hpod => ⟨hadds .parent _ (hpresentable.of_podsNamed hpod), fun container hcontainer =>
      hadds .child _ (hpresentable.of_containersOf hcontainer)⟩)
    (fun _ h => h) (fun _ => hreadable) hview
  exact congrArg HierarchyView.mk hshown.1

end

/-- Wherever pods and containers can be presented, the cost view of a target is its plain view with
numbers: with zero in place of every number it shows the same pod with the same containers in the
same order. It is empty exactly if no pod has the name or no single pod is meant. Of the numbers
that are printed in answer to the requests for costs it is only required that they can be read
back. -/
theorem costHierarchy_withoutNumbers {graph : Graph} (hdocumented : graph.Documented)
    (hpresentable : graph.Presentable) (terms : Terms) (text : String)
    (hprinted : ∀ query ∈ ((costHierarchy terms (Target.ofText text)).run (Store.ofGraph graph)
      Journal.empty).2.sent, graph.PrintsReadable query)
    (journal journal' : Journal) :
    let costs := ((costHierarchy terms (Target.ofText text)).run (Store.ofGraph graph) journal).1
    let plain := ((hierarchy (Target.ofText text)).run (Store.ofGraph graph) journal').1
    costs.withoutNumbers = plain ∧ plain = graph.bareView (Target.ofText text) ∧
      (plain.isEmpty = true ↔ Target.ofText text = .all ∨
        ∃ name, Target.ofText text = .named name ∧ graph.podsNamed name = []) := by
  intro costs plain
  have hviews : costs.withoutNumbers = graph.bareView (Target.ofText text) ∧
      plain = graph.bareView (Target.ofText text) := by
    revert costs plain hprinted
    cases Target.ofText text with
    | all => exact fun _ => ⟨rfl, rfl⟩
    | named name =>
        intro hprinted costs plain
        exact ⟨costHierarchy_eq_bareView hdocumented hpresentable terms name hprinted journal,
          hierarchy_eq_bareView hdocumented hpresentable name journal'⟩
  exact ⟨hviews.1.trans hviews.2.symm, hviews.2, hviews.2 ▸ graph.isEmpty_bareView_iff text⟩

/-- Two pods of one name, of which the first has a price, a container without a type that has ended,
and another one that has not started. -/
theorem costHierarchy_withoutNumbers_sidecars :
    let pod : Json := .object [("cpuPrice", .number (.int 3)), ("cpuRequest", .number (.int 2)),
      ("isPod", .bool true), ("name", .string "web"), ("type", .string "pod")]
    let ended : Json := .object [("endTime", .string "2026-10-19T11:00:00Z"),
      ("isContainer", .bool true), ("memoryRequest", .number (.float 0.5)),
      ("name", .string "init"), ("startTime", .string "2026-10-19T09:00:00+02:00")]
    let waiting : Json := .object [("isContainer", .bool true), ("name", .string "proxy"),
      ("type", .string "container")]
    let other : Json := .object [("isPod", .bool true), ("name", .string "web")]
    let graph := ((((((Graph.empty ⟨20745, 43200, 0, by decide, by decide, by decide⟩).insert
      pod).insert ended).insert waiting).insert other).link 2 "pod" 1).link 3 "pod" 1
    let terms : Terms := ⟨Pricing.standard, graph.now⟩
    let costs := ((costHierarchy terms (Target.ofText " web ")).run (Store.ofGraph graph)
      Journal.empty).1
    let plain := ((hierarchy (Target.ofText " web ")).run (Store.ofGraph graph) Journal.empty).1
    graph.Documented ∧ graph.Presentable ∧
      (∀ query ∈ ((costHierarchy terms (Target.ofText " web ")).run (Store.ofGraph graph)
        Journal.empty).2.sent, graph.PrintsReadable query) ∧
      costs.withoutNumbers = plain ∧ plain.isEmpty = false ∧
      plain = ⟨.mk "web" "pod" [.mk "init" "" [] 0 0 0 0 0 0,
        .mk "proxy" "container" [] 0 0 0 0 0 0] 0 0 0 0 0 0⟩ := by
  intro pod ended waiting other graph terms costs plain
  have hpod : pod.Finite := ⟨trivial, trivial, trivial, trivial, trivial, trivial⟩
  have hended : ended.Finite := ⟨trivial, trivial, rfl, trivial, trivial, trivial⟩
  have hwaiting : waiting.Finite := ⟨trivial, trivial, trivial, trivial⟩
  have hother : other.Finite := ⟨trivial, trivial, trivial⟩
  have hreachable : Graph.Reachable _ graph :=
    (((((Graph.Reachable.empty.insert _ hpod).insert _ hended).insert _ hwaiting).insert _
      hother).link 2 "pod" 1).link 3 "pod" 1
  have hdocumented := hreachable.documented
  have hpresentable : graph.Presentable := by decide +kernel
  have happlied : pricesFrom terms.pricing.unitPrices
      (Store.ofGraph graph Journal.empty.sent (Request.priceLookup "web")) = ⟨3, 0.01⟩ :=
    Graph.pricesFrom_reply (by decide +kernel) terms.pricing.unitPrices
  have hprinted : ∀ query ∈ ((costHierarchy terms (Target.ofText " web ")).run
      (Store.ofGraph graph) Journal.empty).2.sent, graph.PrintsReadable query := by
    rw [show Target.ofText " web " = .named "web" from rfl, sent_costHierarchy, happlied]
    decide +kernel
  obtain ⟨hsame, hbare, -⟩ := costHierarchy_withoutNumbers hdocumented hpresentable terms
    " web " hprinted Journal.empty Journal.empty
  have hshown : plain.isEmpty = false := congrArg HierarchyView.isEmpty hbare
  exact ⟨hdocumented, hpresentable, hprinted, hsame, hshown, hbare⟩

end Lookup

end PodCosts
