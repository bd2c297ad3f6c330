import PodCosts.Proofs.Hours
import PodCosts.Proofs.Typing.Progress
import PodCosts.Request.Topology

/-!
# The requests are well typed

Whatever the name, the billing window and the prices, the requests about pods use every variable at
the type of what it was bound to. The cost request needs times where it reads times and numbers
where it reads resources; the other requests compute nothing.
-/

namespace PodCosts

/-- The types that the cost request relies on. -/
structure Typing.Billed (types : Typing) : Prop where
  startTime : types Predicate.startTime = .time
  endTime : types Predicate.endTime = .time
  cpuRequest : types Predicate.cpuRequest = .number
  memoryRequest : types Predicate.memoryRequest = .number
  storageRequest : types Predicate.storageRequest = .number

namespace Context

/-- What has been bound may be used at the type of what it was bound to. -/
theorem permits_of_mem {within : Context} {name : String} {type : ValueType}
    (h : (name, type) ∈ within.earlier) : within.permits name type = true := by
  rw [permits, List.contains_iff_mem.mpr h, Bool.or_true]

end Context

namespace Selection

variable {types : Typing}

/-- An edge is well typed if its selections are. -/
theorem wellTyped_edge (types : Typing) (within : Context) (tag : Tag) (path : EdgePath)
    (filter? : Option Filter) (selections : List Selection) :
    (edge tag path filter? selections).wellTyped types within = listWellTyped types selections := by
  rw [wellTyped, listWellTyped]

/-- The first selection binds before the others. -/
theorem bindings_cons (types : Typing) (selection : Selection) (rest : List Selection) :
    bindings types (selection :: rest) =
      (selection.binding? types).toList ++ bindings types rest := by
  rw [bindings, List.filterMap_cons]
  cases selection.binding? types <;> rfl

/-- Selections bind what the first of them bind and then what the others bind. -/
theorem bindings_append (types : Typing) (first second : List Selection) :
    bindings types (first ++ second) = bindings types first ++ bindings types second :=
  List.filterMap_append ..

/-- Selections are well typed behind others when they are behind all that those have bound. -/
theorem allWellTyped_append (types : Typing) (within : Context) (first second : List Selection) :
    allWellTyped types within (first ++ second) = (allWellTyped types within first &&
      allWellTyped types ⟨within.bound, within.earlier ++ bindings types first⟩ second) := by
  induction first generalizing within with
  | nil => simp [allWellTyped, bindings]
  | cons selection rest ih =>
      rw [List.cons_append, allWellTyped, allWellTyped, ih, Bool.and_assoc, bindings_cons,
        Context.extended, List.append_assoc]

end Selection

namespace Request

open Selection (allWellTyped bindings)

variable {types : Typing}

/-- The duration selections use only what they have bound themselves. -/
theorem allWellTyped_durationSelections (h : types.Billed) (within : Context) (level : Level)
    (window : Float) : allWellTyped types within (durationSelections level window) = true := by
  have hunit : Arithmetic.isZero (Arithmetic.ofInt Window.secondsPerHour : Float) = false := by
    decide
  simp [durationSelections, allWellTyped, Selection.wellTyped, Expr.wellTyped, Expr.mayFollow,
    Context.extended, Selection.binding?, Tag.bound, Context.permits_of_mem, h.startTime, h.endTime,
    hunit]

/-- The duration selections bind the hours to a number. -/
theorem hours_mem_bindings (types : Typing) (level : Level) (window : Float) :
    (level.hours, .number) ∈ bindings types (durationSelections level window) := by
  simp [bindings, durationSelections, Selection.binding?, Tag.bound]

/-- A cost may be worked out from a number and the hours. -/
theorem wellTyped_cost {within : Context} {level : Level} {amount : String}
    (hamount : (amount, .number) ∈ within.earlier)
    (hhours : (level.hours, .number) ∈ within.earlier) (price : Float) :
    (cost level amount price).wellTyped within = true := by
  simp [cost, Expr.wellTyped, Expr.mayFollow, Context.permits_of_mem hamount,
    Context.permits_of_mem hhours]

/-- The names of the variables that the cost selections bind, without the mark of a level. -/
def costNames (rates : Rates) : List String :=
  ["cpu", "memory"] ++ (rates.storage.elim [] fun _ => ["storage"]) ++ durationNames

/-- The cost selections bind their names at their level. -/
theorem bindings_costSelections (types : Typing) (level : Level) (window : Float) (rates : Rates) :
    (bindings types (costSelections level window rates)).map Prod.fst =
      (costNames rates).map level.var := by
  unfold costSelections costNames
  cases rates.storage <;> rfl

/-- No two variables of the cost selections have the same name. -/
theorem nodup_costNames (rates : Rates) : (costNames rates).Nodup := by
  unfold costNames
  cases rates.storage with
  | none => decide
  | some _ => simp only [Option.elim_some]; decide

/-- The cost selections use only what they have bound themselves. -/
theorem allWellTyped_costSelections (h : types.Billed) (within : Context) (level : Level)
    (window : Float) (rates : Rates) :
    allWellTyped types within (costSelections level window rates) = true := by
  have hhours := hours_mem_bindings types level window
  cases hstorage : rates.storage with
  | none =>
    simp only [costSelections, hstorage, Selection.allWellTyped_append,
      allWellTyped_durationSelections h, Bool.and_eq_true]
    simp [allWellTyped, Selection.wellTyped, wellTyped_cost, hhours, Selection.bindings_cons,
      Context.extended, Selection.binding?, Tag.both, Tag.named, h.cpuRequest, h.memoryRequest]
  | some price =>
    simp only [costSelections, hstorage, Selection.allWellTyped_append,
      allWellTyped_durationSelections h, Bool.and_eq_true]
    simp [allWellTyped, Selection.wellTyped, wellTyped_cost, hhours, Selection.bindings_cons,
      Selection.bindings_append, Context.extended, Selection.binding?, Tag.both, Tag.named,
      h.cpuRequest, h.memoryRequest, h.storageRequest]

/-- Behind a name and a type, which bind nothing, cost selections are a well typed list. -/
theorem listWellTyped_costSelections (h : types.Billed) (level : Level) (window : Float)
    (rates : Rates) (leading : List Selection) (hbindings : bindings types leading = [])
    (hleading : ∀ within, allWellTyped types within leading = true) :
    Selection.listWellTyped types (leading ++ costSelections level window rates) = true := by
  have hbound : (Selection.context types
      (leading ++ costSelections level window rates)).bound = (costNames rates).map level.var := by
    rw [Selection.context, Selection.bindings_append, hbindings, List.nil_append,
      bindings_costSelections]
  rw [Selection.listWellTyped, Selection.allWellTyped_append, hleading,
    allWellTyped_costSelections h, hbound, decide_eq_true
      ((nodup_costNames rates).map level.var_injective)]
  rfl

/-- The request for a hierarchy with costs is well typed at the types that it relies on. -/
theorem wellTyped_costHierarchy (h : types.Billed) (name : String) (window : Float)
    (rates : Rates) : (costHierarchy name window rates).wellTyped types = true := by
  have hchildren := listWellTyped_costSelections h .child window { rates with storage := none }
    [nameOnly, .predicate .plain Predicate.type] rfl fun _ => rfl
  have hparent := listWellTyped_costSelections h .parent window rates
    [nameOnly, .predicate .plain Predicate.type,
      children (costSelections .child window { rates with storage := none })] rfl fun within => by
        rw [allWellTyped, allWellTyped, allWellTyped, allWellTyped, children, pointingAtPod,
          Selection.wellTyped_edge]
        exact congrArg (· && true) hchildren
  simpa [Query.wellTyped, costHierarchy, parent, allOf, Root.isPredicate] using hparent

/-! The other requests compute nothing. -/

/-- The request for interactions is well typed. -/
theorem wellTyped_interactions (types : Typing) (target : Target) (orphansOnly : Bool) :
    (interactions target orphansOnly).wellTyped types = true :=
  rfl

/-- The request for a hierarchy is well typed. -/
theorem wellTyped_hierarchy (types : Typing) (name : String) :
    (hierarchy name).wellTyped types = true :=
  rfl

/-- The request for prices is well typed. -/
theorem wellTyped_priceLookup (types : Typing) (name : String) :
    (priceLookup name).wellTyped types = true :=
  rfl

/-- The request for live pods is well typed. -/
theorem wellTyped_livePods (types : Typing) : livePods.wellTyped types = true :=
  rfl

end Request

namespace Graph

/-- Whether a query is well typed and has an answer. -/
def AnswersTyped (graph : Graph) (types : Typing) (query : Query) : Prop :=
  query.wellTyped types = true ∧ ∃ document, graph.evaluate query = .ok document

variable {graph : Graph} {types : Typing}

/-- A well typed query is answered with well typed values in a graph that respects the types. -/
theorem answersTyped_of_wellTyped (hgraph : graph.Respects types) {query : Query}
    (htyped : query.wellTyped types = true) : graph.AnswersTyped types query :=
  ⟨htyped, exists_evaluate hgraph htyped⟩

/-- A graph whose values have the types of their predicates answers every well typed query, and all
requests about pods are well typed. The cost request needs the types that it relies on. -/
theorem evaluate_wellTyped (hgraph : graph.Respects types) :
    (∀ query, query.wellTyped types = true → ∃ document, graph.evaluate query = .ok document) ∧
      (∀ target orphansOnly,
        graph.AnswersTyped types (Request.interactions target orphansOnly)) ∧
      (∀ name, graph.AnswersTyped types (Request.hierarchy name)) ∧
      (∀ name, graph.AnswersTyped types (Request.priceLookup name)) ∧
      graph.AnswersTyped types Request.livePods ∧
      (types.Billed → ∀ name window rates,
        graph.AnswersTyped types (Request.costHierarchy name window rates)) := by
  refine ⟨fun query htyped => exists_evaluate hgraph htyped, ?_, ?_, ?_, ?_, ?_⟩
  · intro target orphansOnly
    exact answersTyped_of_wellTyped hgraph (Request.wellTyped_interactions types target orphansOnly)
  · intro name
    exact answersTyped_of_wellTyped hgraph (Request.wellTyped_hierarchy types name)
  · intro name
    exact answersTyped_of_wellTyped hgraph (Request.wellTyped_priceLookup types name)
  · exact answersTyped_of_wellTyped hgraph (Request.wellTyped_livePods types)
  · intro hbilled name window rates
    exact answersTyped_of_wellTyped hgraph
      (Request.wellTyped_costHierarchy hbilled name window rates)

/-- A pod that has started, with a null end, and two containers, of which one has no start. The
query divides by a literal, chooses by the age of a pod, and uses one variable name for a time of
the pod and for a number of its containers. -/
theorem evaluate_wellTyped_nested :
    let types : Typing := fun predicate =>
      if predicate = "startTime" ∨ predicate = "endTime" then .time
      else if predicate ∈ ["cpuRequest", "memoryRequest", "storageRequest"] then .number
      else .other
    let pod : Json := .object [("cpuRequest", .number (.int 2)), ("endTime", .null),
      ("isPod", .bool true), ("name", .string "web"),
      ("startTime", .string "2026-10-19T09:00:00+02:00")]
    let container : Json := .object [("isContainer", .bool true),
      ("memoryRequest", .number (.float 0.5)), ("name", .string "proxy")]
    let graph := (((((Graph.empty ⟨20745, 43200, 0, by decide, by decide, by decide⟩).insert
      pod).insert container).insert container).link 2 "pod" 1).link 3 "pod" 1
    let query : Query := ⟨[⟨"pods", .has "isPod", some (.not (.has "endTime")),
      [.predicate (.bound "started") "startTime",
        .math (.named "age") (.choose (.since "started") (.literal 60)
          (.binary .div (.since "started") (.literal 3600)) (.var "unknown")),
        .edge .plain (.backward "pod") none
          [.count (.bound "started") "pod",
            .math (.named "twice") (.binary .mul (.var "started") (.literal 2))]]⟩]⟩
    graph.Respects types ∧ types.Billed ∧ query.wellTyped types = true ∧
      (∃ document, graph.evaluate query = .ok document) ∧
      ∀ window rates, graph.AnswersTyped types (Request.costHierarchy "web" window rates) := by
  intro types pod container graph query
  have hgraph : graph.Respects types := by decide +kernel
  have hbilled : types.Billed := ⟨rfl, rfl, rfl, rfl, rfl⟩
  have htyped : query.wellTyped types = true := by decide +kernel
  obtain ⟨hquery, -, -, -, -, hcosts⟩ := evaluate_wellTyped hgraph
  exact ⟨hgraph, hbilled, htyped, hquery query htyped, hcosts hbilled "web"⟩

end Graph

end PodCosts
