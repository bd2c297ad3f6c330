import PodCosts.Proofs.Graph.Pods
import PodCosts.Proofs.Hours

/-!
# The costs a store works out

The request for the costs of a pod makes the store compute what billing computes directly. On nodes
with readable times and amounts the request is answered, and every cost in the answer is the amount
times the hours of the billing window times the price.
-/

namespace PodCosts

namespace Vertex

/-- A node records times and amounts in a form that costs can be worked out from. -/
structure Billable (vertex : Vertex) : Prop where
  start : vertex.TimeOrNothing Predicate.startTime
  ending : vertex.TimeOrNothing Predicate.endTime
  /-- The end is a recorded value and never an edge. -/
  no_end_edge : vertex.targets Predicate.endTime = []
  cpu : vertex.NumberOrNothing Predicate.cpuRequest
  memory : vertex.NumberOrNothing Predicate.memoryRequest
  storage : vertex.NumberOrNothing Predicate.storageRequest

instance (vertex : Vertex) : Decidable vertex.Billable :=
  decidable_of_iff
    (vertex.TimeOrNothing Predicate.startTime ∧ vertex.TimeOrNothing Predicate.endTime ∧
      vertex.targets Predicate.endTime = [] ∧ vertex.NumberOrNothing Predicate.cpuRequest ∧
      vertex.NumberOrNothing Predicate.memoryRequest ∧
      vertex.NumberOrNothing Predicate.storageRequest)
    ⟨fun ⟨start, ending, no_end_edge, cpu, memory, storage⟩ =>
      ⟨start, ending, no_end_edge, cpu, memory, storage⟩,
    fun h => ⟨h.start, h.ending, h.no_end_edge, h.cpu, h.memory, h.storage⟩⟩

/-- What a node costs by the rule of billing: the requested amount, times the hours of the window,
times the price. There is no cost without an amount or without a start. -/
def cost? (vertex : Vertex) (window : Window) (request : String) (price : Float) : Option Float :=
  match vertex.number? request, vertex.moment? Predicate.startTime with
  | some amount, some started =>
    some (amount * window.proratedHours started (vertex.moment? Predicate.endTime) * price)
  | _, _ => none

/-- The cost in the order in which the store multiplies. -/
theorem cost?_eq (vertex : Vertex) (window : Window) (request : String) (price : Float) :
    vertex.cost? window request price =
      Option.map₂ Arithmetic.mul
        (Option.map₂ Arithmetic.mul (vertex.number? request) (vertex.hours? window))
        (some price) := by
  rw [cost?, hours?]
  cases vertex.number? request with
  | none => rfl
  | some amount => cases vertex.moment? Predicate.startTime <;> rfl

end Vertex

/-- A cost as it is answered; a cost that is not finite is left out. -/
def costAnswer (cost? : Option Float) : Option Json :=
  (cost?.filter Float.isFinite).map fun cost => .number (.float cost)

/-- The costs in the answer for a node are those of billing. -/
structure Charged (window : Window) (rates : Rates) (vertex : Vertex)
    (fields : List (String × Json)) : Prop where
  cpu : Fields.get? "cpuCost" fields =
    costAnswer (vertex.cost? window Predicate.cpuRequest rates.cpu)
  memory : Fields.get? "memoryCost" fields =
    costAnswer (vertex.cost? window Predicate.memoryRequest rates.memory)
  storage : Fields.get? "storageCost" fields =
    costAnswer (rates.storage.bind (vertex.cost? window Predicate.storageRequest))

/-- The answer under `children`, which is left out when there are none. -/
def childrenAnswer (answers : List (List (String × Json))) : Option Json :=
  if answers.isEmpty then none else some (.array (answers.map .object))

/-- The answer for a pod has the costs of billing for the pod and, one after the other, for its
containers. Storage is charged to the pod alone. -/
structure ChargedWithContainers (graph : Graph) (rates : Rates) (pod : Uid × Vertex)
    (fields : List (String × Json)) : Prop where
  name : Fields.get? Predicate.name fields = pod.2.scalar? Predicate.name
  own : Charged (Window.currentMonth graph.now) rates pod.2 fields
  containers : ∃ answers, Fields.get? "children" fields = childrenAnswer answers ∧
    List.Forall₂ (fun container answer => Charged (Window.currentMonth graph.now)
      { rates with storage := none } container.2 answer) (graph.containersOf pod.1) answers

namespace Request

/-- The keys under which the amounts are answered, and the names of their variables. -/
def amountKeys : List String :=
  ["cpu", "memory", "storage"]

/-- The keys under which the cost selections answer. -/
def costKeys : List String :=
  amountKeys ++ durationKeys ++ ["cpuCost", "memoryCost", "storageCost"]

/-- Nothing has been bound and nothing has been answered under the keys of costs, as in front of the
cost selections. -/
structure AwaitsCosts (picked : Picked) : Prop where
  unbound : ∀ name, Fields.get? name picked.scope = none
  fresh : ∀ key ∈ costKeys, Fields.get? key picked.fields = none

/-- An answer under another key leaves room for costs. -/
theorem AwaitsCosts.of_other_key {first second : Picked} (h : AwaitsCosts first) {key : String}
    (hkey : key ∉ costKeys)
    (hother : ∀ other, key ≠ other →
      Fields.get? other second.fields = Fields.get? other first.fields)
    (hscope : second.scope = first.scope) : AwaitsCosts second where
  unbound name := by
    rw [hscope]
    exact h.unbound name
  fresh other hmem := by
    have hne : key ≠ other := fun heq => hkey (heq ▸ hmem)
    rw [hother other hne]
    exact h.fresh other hmem

/-- A cost is answered as billing computes it, once the amount and the hours are bound. -/
private theorem exists_pick_cost (graph : Graph) (uid : Uid) (vertex : Vertex) {picked : Picked}
    (level : Level) (key : String) {amount : String} {amount? hours? : Option Float} (price : Float)
    (hamount : Fields.get? amount picked.scope = amount?.map Bound.number)
    (hhours : Fields.get? level.hours picked.scope = hours?.map Bound.number)
    (hfresh : Fields.get? key picked.fields = none) :
    ∃ next, Selection.pick graph uid vertex picked
        (.math (.named key) (cost level amount price)) = .ok next ∧
      Picked.Extends picked next [] [key] ∧
      Fields.get? key next.fields = costAnswer (Option.map₂ Arithmetic.mul
        (Option.map₂ Arithmetic.mul amount? hours?) (some price)) := by
  refine ⟨_, Selection.pick_math_of_eval graph uid vertex picked (.named key)
    (Expr.eval_mul (Expr.eval_mul (Expr.eval_var hamount) (Expr.eval_var hhours))
      (Expr.eval_literal price)), picked.extends_bind_answer none (some key) _ _, ?_⟩
  exact Picked.get?_fields_answer_self hfresh _

/-- The amount of storage is bound where storage has a price, and not even read elsewhere. -/
private theorem exists_pickAll_storageAmount (graph : Graph) (uid : Uid) {vertex : Vertex}
    (hstorage : vertex.NumberOrNothing Predicate.storageRequest) (level : Level)
    (price? : Option Float) {picked : Picked}
    (hfresh : Fields.get? (level.var "storage") picked.scope = none) :
    ∃ next, Selection.pickAll graph uid vertex picked (match price? with
        | some _ => [.predicate (.both "storage" (level.var "storage")) Predicate.storageRequest]
        | none => []) = .ok next ∧
      Picked.Extends picked next [level.var "storage"] ["storage"] ∧
      (price?.isSome → Fields.get? (level.var "storage") next.scope =
        (vertex.number? Predicate.storageRequest).map Bound.number) := by
  cases price? with
  | none =>
    refine ⟨picked, Selection.pickAll_nil graph uid vertex picked, ?_, fun h => by cases h⟩
    exact (Picked.Extends.refl picked).mono (List.nil_subset _) (List.nil_subset _)
  | some price =>
    obtain ⟨next, hpick, hext, hbound, _⟩ := Selection.exists_pick_bound
      (Selection.pick_predicate graph uid vertex picked (.both "storage" (level.var "storage"))
        Predicate.storageRequest) hfresh
    rw [Vertex.map_ofJson_of_number hstorage] at hbound
    refine ⟨next, ?_, hext, fun _ => hbound⟩
    rw [Selection.pickAll_cons_of_ok hpick, Selection.pickAll_nil]

/-- The cost of storage is answered where storage has a price. -/
private theorem exists_pickAll_storageCost (graph : Graph) (uid : Uid) (vertex : Vertex)
    {picked : Picked} (level : Level) {amount? hours? : Option Float} (price? : Option Float)
    (hamount : price?.isSome → Fields.get? (level.var "storage") picked.scope =
      amount?.map Bound.number)
    (hhours : Fields.get? level.hours picked.scope = hours?.map Bound.number)
    (hfresh : Fields.get? "storageCost" picked.fields = none) :
    ∃ next, Selection.pickAll graph uid vertex picked (match price? with
        | some price => [.math (.named "storageCost") (cost level (level.var "storage") price)]
        | none => []) = .ok next ∧
      Picked.Extends picked next [] ["storageCost"] ∧
      Fields.get? "storageCost" next.fields = costAnswer (price?.bind fun price =>
        Option.map₂ Arithmetic.mul (Option.map₂ Arithmetic.mul amount? hours?) (some price)) := by
  cases price? with
  | none =>
    refine ⟨picked, Selection.pickAll_nil graph uid vertex picked, ?_, hfresh⟩
    exact (Picked.Extends.refl picked).mono (List.nil_subset _) (List.nil_subset _)
  | some price =>
    obtain ⟨next, hpick, hext, hanswer⟩ :=
      exists_pick_cost graph uid vertex level "storageCost" price (hamount rfl) hhours hfresh
    refine ⟨next, ?_, hext, hanswer⟩
    rw [Selection.pickAll_cons_of_ok hpick, Selection.pickAll_nil]

/-- The first selections bind the amounts that a billable node requests. -/
private theorem exists_pickAll_amounts (graph : Graph) (uid : Uid) {vertex : Vertex}
    (hvertex : vertex.Billable) (level : Level) (storagePrice? : Option Float) (picked : Picked)
    (hunbound : ∀ name ∈ amountKeys, Fields.get? (level.var name) picked.scope = none) :
    ∃ next, Selection.pickAll graph uid vertex picked
        ([.predicate (.both "cpu" (level.var "cpu")) Predicate.cpuRequest,
          .predicate (.both "memory" (level.var "memory")) Predicate.memoryRequest] ++
        match storagePrice? with
        | some _ => [.predicate (.both "storage" (level.var "storage")) Predicate.storageRequest]
        | none => []) = .ok next ∧
      Picked.Extends picked next (amountKeys.map level.var) amountKeys ∧
      Fields.get? (level.var "cpu") next.scope =
        (vertex.number? Predicate.cpuRequest).map Bound.number ∧
      Fields.get? (level.var "memory") next.scope =
        (vertex.number? Predicate.memoryRequest).map Bound.number ∧
      (storagePrice?.isSome → Fields.get? (level.var "storage") next.scope =
        (vertex.number? Predicate.storageRequest).map Bound.number) := by
  obtain ⟨p1, hp1, he1, hcpu, _⟩ := Selection.exists_pick_bound
    (Selection.pick_predicate graph uid vertex picked (.both "cpu" (level.var "cpu"))
      Predicate.cpuRequest) (hunbound "cpu" (by decide))
  rw [Vertex.map_ofJson_of_number hvertex.cpu] at hcpu
  have h1 : Picked.Extends picked p1 (["cpu"].map level.var) ["cpu"] := he1
  obtain ⟨p2, hp2, he2, hmemory, _⟩ := Selection.exists_pick_bound
    (Selection.pick_predicate graph uid vertex p1 (.both "memory" (level.var "memory"))
      Predicate.memoryRequest) (get?_of_extends hunbound (by decide) h1 (by decide))
  rw [Vertex.map_ofJson_of_number hvertex.memory] at hmemory
  have h2 : Picked.Extends picked p2 (["cpu", "memory"].map level.var) ["cpu", "memory"] :=
    h1.trans he2
  obtain ⟨p3, hp3, he3, hstorage⟩ := exists_pickAll_storageAmount graph uid hvertex.storage level
    storagePrice? (get?_of_extends hunbound (by decide) h2 (by decide))
  refine ⟨p3, ?_, h2.trans he3, ?_, ?_, hstorage⟩
  · rw [List.cons_append, List.cons_append, List.nil_append, Selection.pickAll_cons_of_ok hp1,
      Selection.pickAll_cons_of_ok hp2]
    exact hp3
  · rw [he3.scope_eq _ (var_not_mem ["storage"] (by decide)),
      he2.scope_eq _ (var_not_mem ["memory"] (by decide)), hcpu]
  · rw [he3.scope_eq _ (var_not_mem ["storage"] (by decide)), hmemory]

/-- The last selections answer the costs, once the amounts and the hours are bound. -/
private theorem exists_pickAll_costs (graph : Graph) (uid : Uid) (vertex : Vertex) (level : Level)
    (rates : Rates) {picked : Picked} {cpu? memory? storage? hours? : Option Float}
    (hcpu : Fields.get? (level.var "cpu") picked.scope = cpu?.map Bound.number)
    (hmemory : Fields.get? (level.var "memory") picked.scope = memory?.map Bound.number)
    (hstorage : rates.storage.isSome →
      Fields.get? (level.var "storage") picked.scope = storage?.map Bound.number)
    (hhours : Fields.get? level.hours picked.scope = hours?.map Bound.number)
    (hfresh : ∀ key ∈ ["cpuCost", "memoryCost", "storageCost"],
      Fields.get? key picked.fields = none) :
    ∃ next, Selection.pickAll graph uid vertex picked
        ([.math (.named "cpuCost") (cost level (level.var "cpu") rates.cpu),
          .math (.named "memoryCost") (cost level (level.var "memory") rates.memory)] ++
        match rates.storage with
        | some price => [.math (.named "storageCost") (cost level (level.var "storage") price)]
        | none => []) = .ok next ∧
      Picked.Extends picked next [] ["cpuCost", "memoryCost", "storageCost"] ∧
      Fields.get? "cpuCost" next.fields = costAnswer (Option.map₂ Arithmetic.mul
        (Option.map₂ Arithmetic.mul cpu? hours?) (some rates.cpu)) ∧
      Fields.get? "memoryCost" next.fields = costAnswer (Option.map₂ Arithmetic.mul
        (Option.map₂ Arithmetic.mul memory? hours?) (some rates.memory)) ∧
      Fields.get? "storageCost" next.fields = costAnswer (rates.storage.bind fun price =>
        Option.map₂ Arithmetic.mul (Option.map₂ Arithmetic.mul storage? hours?) (some price)) := by
  obtain ⟨p1, hp1, he1, hcpuCost⟩ := exists_pick_cost graph uid vertex level "cpuCost" rates.cpu
    hcpu hhours (hfresh _ (by decide))
  have hscope1 (name : String) : Fields.get? name p1.scope = Fields.get? name picked.scope :=
    he1.scope_eq name List.not_mem_nil
  obtain ⟨p2, hp2, he2, hmemoryCost⟩ := exists_pick_cost graph uid vertex level "memoryCost"
    rates.memory ((hscope1 _).trans hmemory) ((hscope1 _).trans hhours)
    ((he1.fields_eq _ (by decide)).trans (hfresh _ (by decide)))
  have h2 := he1.trans he2
  have hscope2 (name : String) : Fields.get? name p2.scope = Fields.get? name picked.scope :=
    h2.scope_eq name List.not_mem_nil
  obtain ⟨p3, hp3, he3, hstorageCost⟩ := exists_pickAll_storageCost graph uid vertex level
    rates.storage (fun hprice => (hscope2 _).trans (hstorage hprice)) ((hscope2 _).trans hhours)
    ((h2.fields_eq _ (by decide)).trans (hfresh _ (by decide)))
  refine ⟨p3, ?_, h2.trans he3, ?_, ?_, hstorageCost⟩
  · rw [List.cons_append, List.cons_append, List.nil_append, Selection.pickAll_cons_of_ok hp1,
      Selection.pickAll_cons_of_ok hp2]
    exact hp3
  · rw [he3.fields_eq _ (by decide), he2.fields_eq _ (by decide), hcpuCost]
  · rw [he3.fields_eq _ (by decide), hmemoryCost]

/-- On a billable node the cost selections are answered over any number of seconds. No key but their
own changes, and every cost is the amount times the hours over these seconds times the price. -/
theorem exists_pickAll_costSelections_over (graph : Graph) (uid : Uid) {vertex : Vertex}
    (hvertex : vertex.Billable) (level : Level) (elapsed : Float) (rates : Rates) (picked : Picked)
    (hawaits : AwaitsCosts picked) :
    let cost? (request : String) (price : Float) := Option.map₂ Arithmetic.mul
      (Option.map₂ Arithmetic.mul (vertex.number? request) (vertex.hoursOver? graph.now elapsed))
      (some price)
    ∃ next, Selection.pickAll graph uid vertex picked (costSelections level elapsed rates) =
        .ok next ∧
      Fields.get? "cpuCost" next.fields = costAnswer (cost? Predicate.cpuRequest rates.cpu) ∧
      Fields.get? "memoryCost" next.fields =
        costAnswer (cost? Predicate.memoryRequest rates.memory) ∧
      Fields.get? "storageCost" next.fields =
        costAnswer (rates.storage.bind (cost? Predicate.storageRequest)) ∧
      (∀ key ∉ costKeys, Fields.get? key next.fields = Fields.get? key picked.fields) ∧
      next.fields ≠ [] := by
  intro cost?
  obtain ⟨p1, hp1, he1, hcpu, hmemory, hstorage⟩ := exists_pickAll_amounts graph uid hvertex level
    rates.storage picked fun name _ => hawaits.unbound (level.var name)
  obtain ⟨p2, hp2, he2, hhours, hanswered⟩ := exists_pickAll_durationSelections graph uid
    hvertex.start hvertex.ending hvertex.no_end_edge level elapsed p1 fun name hname =>
      (he1.scope_eq _ (var_not_mem _ (by revert name; decide))).trans
        (hawaits.unbound _)
  have hkeys : ∀ key ∈ ["cpuCost", "memoryCost", "storageCost"],
      Fields.get? key p2.fields = none := fun key hkey =>
    ((he1.trans he2).fields_eq key (by revert key; decide)).trans
      (hawaits.fresh key (List.mem_append_right _ hkey))
  obtain ⟨p3, hp3, he3, hcpuCost, hmemoryCost, hstorageCost⟩ := exists_pickAll_costs graph uid
    vertex level rates ((he2.scope_eq _ (var_not_mem _ (by decide))).trans hcpu)
    ((he2.scope_eq _ (var_not_mem _ (by decide))).trans hmemory)
    (fun hprice => (he2.scope_eq _ (var_not_mem _ (by decide))).trans (hstorage hprice))
    hhours hkeys
  refine ⟨p3, ?_, hcpuCost, hmemoryCost, hstorageCost, ((he1.trans he2).trans he3).fields_eq,
    he3.fields_ne_nil hanswered⟩
  rw [costSelections, List.append_assoc, List.append_assoc]
  refine (Selection.pickAll_append_of_ok hp1 _).trans ?_
  rw [Selection.pickAll_append_of_ok hp2]
  exact hp3

/-- On a billable node the cost selections answer the costs of billing, and no key but their own
changes. -/
theorem exists_pickAll_costSelections (graph : Graph) (uid : Uid) {vertex : Vertex}
    (hvertex : vertex.Billable) (level : Level) (rates : Rates) (picked : Picked)
    (hawaits : AwaitsCosts picked) :
    ∃ next, Selection.pickAll graph uid vertex picked
        (costSelections level (Window.currentMonth graph.now).elapsedSeconds rates) = .ok next ∧
      Charged (Window.currentMonth graph.now) rates vertex next.fields ∧
      (∀ key ∉ costKeys, Fields.get? key next.fields = Fields.get? key picked.fields) ∧
      next.fields ≠ [] := by
  obtain ⟨next, hnext, hcpuCost, hmemoryCost, hstorageCost, hkept, hanswered⟩ :=
    exists_pickAll_costSelections_over graph uid hvertex level
      (Window.currentMonth graph.now).elapsedSeconds rates picked hawaits
  have hcost (request : String) (price : Float) :
      vertex.cost? (Window.currentMonth graph.now) request price =
        Option.map₂ Arithmetic.mul (Option.map₂ Arithmetic.mul (vertex.number? request)
          (vertex.hoursOver? graph.now (Window.currentMonth graph.now).elapsedSeconds))
          (some price) := by
    rw [Vertex.cost?_eq, Vertex.hours?_eq]
    rfl
  refine ⟨next, hnext, ⟨?_, ?_, ?_⟩, hkept, hanswered⟩
  · rw [hcpuCost, hcost]
  · rw [hmemoryCost, hcost]
  · rw [hstorageCost]
    congr 2
    funext price
    rw [hcost]

/-- Every node is answered with its name and its type first, and with nothing else. -/
theorem exists_pickAll_nameAndType (graph : Graph) (uid : Uid) (vertex : Vertex) :
    ∃ next, Selection.pickAll graph uid vertex Picked.nothing
        [nameOnly, .predicate .plain Predicate.type] = .ok next ∧
      AwaitsCosts next ∧ Fields.get? "children" next.fields = none ∧
      Fields.get? Predicate.name next.fields = vertex.scalar? Predicate.name ∧
      Fields.get? Predicate.type next.fields = vertex.scalar? Predicate.type := by
  let p1 := Picked.nothing.answer (some Predicate.name) (vertex.scalar? Predicate.name)
  let p2 := p1.answer (some Predicate.type) (vertex.scalar? Predicate.type)
  have h1 : Picked.Extends Picked.nothing p1 [] [Predicate.name] :=
    Picked.nothing.extends_bind_answer none (some Predicate.name) none _
  have h2 : Picked.Extends p1 p2 [] [Predicate.type] :=
    p1.extends_bind_answer none (some Predicate.type) none _
  have hext := h1.trans h2
  have hawaits : AwaitsCosts p2 := by
    refine ⟨fun name => hext.scope_eq name List.not_mem_nil, fun key hkey => ?_⟩
    have hother : key ∉ [Predicate.name] ++ [Predicate.type] := by
      revert key
      decide
    exact hext.fields_eq key hother
  refine ⟨p2, ?_, hawaits, hext.fields_eq _ (by decide), ?_, ?_⟩
  · rw [nameOnly, Selection.pickAll_cons_of_ok (Selection.pick_predicate _ _ _ _ _ _),
      Selection.pickAll_cons_of_ok (Selection.pick_predicate _ _ _ _ _ _), Selection.pickAll_nil]
    rfl
  · rw [h2.fields_eq _ (by decide)]
    exact Picked.get?_fields_answer_self rfl _
  · exact Picked.get?_fields_answer_self (h1.fields_eq _ (by decide)) _

/-- The containers of a pod are answered in their order under one key, wherever each of them has an
answer. -/
theorem exists_pick_children (graph : Graph) (pod : Uid × Vertex) {first : Picked}
    (inner : List Selection) {related : Uid × Vertex → List (String × Json) → Prop}
    (hfresh : Fields.get? "children" first.fields = none)
    (hcontainers : ∀ container ∈ graph.containersOf pod.1, ∃ next,
      Selection.pickAll graph container.1 container.2 Picked.nothing
          ([nameOnly, .predicate .plain Predicate.type] ++ inner) = .ok next ∧
        related container next.fields ∧ next.fields ≠ []) :
    ∃ second answers, Selection.pick graph pod.1 pod.2 first (children inner) = .ok second ∧
      List.Forall₂ related (graph.containersOf pod.1) answers ∧
      Fields.get? "children" second.fields = childrenAnswer answers ∧
      (∀ key, "children" ≠ key → Fields.get? key second.fields = Fields.get? key first.fields) ∧
      second.scope = first.scope := by
  rw [← Graph.adjacent_containers] at hcontainers ⊢
  exact Selection.exists_pick_edge rfl hfresh hcontainers

/-- A billable container is answered with its costs, and without a cost of storage. -/
private theorem exists_pickAll_container (graph : Graph) (uid : Uid) {vertex : Vertex}
    (hvertex : vertex.Billable) (rates : Rates) :
    ∃ next, Selection.pickAll graph uid vertex Picked.nothing
        ([nameOnly, .predicate .plain Predicate.type] ++
          costSelections .child (Window.currentMonth graph.now).elapsedSeconds
            { rates with storage := none }) = .ok next ∧
      Charged (Window.currentMonth graph.now) { rates with storage := none } vertex next.fields ∧
      next.fields ≠ [] := by
  obtain ⟨first, hfirst, hawaits, _⟩ := exists_pickAll_nameAndType graph uid vertex
  obtain ⟨next, hnext, hcharged, _, hanswered⟩ := exists_pickAll_costSelections graph uid hvertex
    .child { rates with storage := none } first hawaits
  refine ⟨next, ?_, hcharged, hanswered⟩
  rw [Selection.pickAll_append_of_ok hfirst, hnext]

/-- A billable pod with billable containers is answered under its name, with its costs and with
those of its containers. -/
private theorem exists_pickAll_pod (graph : Graph) {pod : Uid × Vertex} (hpod : pod.2.Billable)
    (hcontainers : ∀ container ∈ graph.containersOf pod.1, container.2.Billable) (rates : Rates) :
    ∃ next, Selection.pickAll graph pod.1 pod.2 Picked.nothing
        ([nameOnly, .predicate .plain Predicate.type] ++
          (children (costSelections .child (Window.currentMonth graph.now).elapsedSeconds
            { rates with storage := none }) ::
          costSelections .parent (Window.currentMonth graph.now).elapsedSeconds rates)) = .ok next ∧
      ChargedWithContainers graph rates pod next.fields ∧ next.fields ≠ [] := by
  obtain ⟨first, hfirst, hawaits, hchildless, hname, _⟩ :=
    exists_pickAll_nameAndType graph pod.1 pod.2
  obtain ⟨second, answers, hsecond, hall, hchildren, hother, hscope⟩ := exists_pick_children graph
    pod _ hchildless fun container hcontainer =>
      exists_pickAll_container graph container.1 (hcontainers container hcontainer) rates
  obtain ⟨next, hnext, hcharged, hkept, hanswered⟩ := exists_pickAll_costSelections graph pod.1
    hpod .parent rates second (hawaits.of_other_key (by decide) hother hscope)
  refine ⟨next, ?_, ⟨?_, hcharged, answers, ?_, hall⟩, hanswered⟩
  · rw [Selection.pickAll_append_of_ok hfirst, Selection.pickAll_cons_of_ok hsecond, hnext]
  · rw [hkept _ (by decide), hother _ (by decide), hname]
  · rw [hkept _ (by decide), hchildren]

end Request

/-- The request for the costs of a pod is answered wherever the pods of that name and their
containers are billable. The answer lists the pods in ascending order, each with the costs that
billing works out for it and for its containers. -/
theorem Graph.evaluate_costHierarchy (graph : Graph) (name : String) (rates : Rates)
    (hpods : ∀ pod ∈ graph.podsNamed name, pod.2.Billable ∧
      ∀ container ∈ graph.containersOf pod.1, container.2.Billable) :
    ∃ answers,
      graph.evaluate (Request.costHierarchy name
          (Window.currentMonth graph.now).elapsedSeconds rates) =
        .ok (.object [(Request.parentBlock, .array (answers.map .object))]) ∧
      List.Forall₂ (ChargedWithContainers graph rates) (graph.podsNamed name) answers := by
  obtain ⟨picks, hpicks, hall⟩ := exists_mapM_eq_ok fun pod hpod =>
    Request.exists_pickAll_pod graph (hpods pod hpod).1 (hpods pod hpod).2 rates
  refine ⟨picks.map Picked.fields, ?_, ?_⟩
  · rw [Request.costHierarchy, Request.parent, evaluate_single _ rfl, runBlock_podsNamed, hpicks,
      ← Picked.objects_eq_map hall fun _ _ h => h.2]
    rfl
  · rw [List.forall₂_map_right_iff]
    exact hall.imp fun _ _ h => h.1

/-- A pod that runs since before the month, with a container that has ended and one that has not
started. -/
theorem Graph.evaluate_costHierarchy_sidecars :
    let graph := ((((((Graph.empty ⟨20745, 43200, 0, by decide, by decide, by decide⟩).insert
      (.object [("cpuRequest", .number (.int 2)), ("isPod", .bool true), ("name", .string "web-1"),
        ("startTime", .string "2026-08-01T00:00:00Z")])).insert
      (.object [("endTime", .string "2026-10-19T11:00:00Z"), ("isContainer", .bool true),
        ("memoryRequest", .number (.float 0.5)), ("name", .string "init"),
        ("startTime", .string "2026-10-19T09:00:00+02:00")])).insert
      (.object [("cpuRequest", .number (.int 1)), ("isContainer", .bool true)])).link
      2 "pod" 1).link 3 "pod" 1)
    let rates : Rates := ⟨0.024, 0.01, some 0.00013888888⟩
    (∀ pod ∈ graph.podsNamed "web-1", pod.2.Billable ∧
      ∀ container ∈ graph.containersOf pod.1, container.2.Billable) ∧
    ∃ answers,
      graph.evaluate (Request.costHierarchy "web-1"
          (Window.currentMonth graph.now).elapsedSeconds rates) =
        .ok (.object [(Request.parentBlock, .array (answers.map .object))]) ∧
      List.Forall₂ (ChargedWithContainers graph rates) (graph.podsNamed "web-1") answers := by
  intro graph rates
  have hpods : ∀ pod ∈ graph.podsNamed "web-1", pod.2.Billable ∧
      ∀ container ∈ graph.containersOf pod.1, container.2.Billable := by decide +kernel
  exact ⟨hpods, graph.evaluate_costHierarchy "web-1" rates hpods⟩

end PodCosts
