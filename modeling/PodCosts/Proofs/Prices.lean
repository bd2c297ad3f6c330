import PodCosts.Proofs.Graph.Answers
import PodCosts.Proofs.Graph.Readings
import PodCosts.Proofs.Graph.Reread
import PodCosts.Proofs.Lookup

/-!
# Which prices are applied

The prices of a pod are looked up by its name, in an answer that leaves out pods without prices of
their own. Where several pods share the name, the first one in that answer need not be the first one
of the name. This file says exactly which prices a cost view is worked out with, and when they are
those of the pod it shows.
-/

namespace PodCosts

namespace Vertex

/-- The predicates that record prices. -/
def priceNames : List String :=
  [Predicate.cpuPrice, Predicate.memoryPrice]

/-- Whether a node records a price of its own. -/
def priced (vertex : Vertex) : Bool :=
  (vertex.scalar? Predicate.cpuPrice).isSome || (vertex.scalar? Predicate.memoryPrice).isSome

/-- The prices of a node: the ones it records, and the usual ones where it records none. -/
def ownPrices (usual : UnitPrices) (vertex : Vertex) : UnitPrices :=
  ⟨(vertex.number? Predicate.cpuPrice).getD usual.cpu,
    (vertex.number? Predicate.memoryPrice).getD usual.memory⟩

/-- What is recorded under a predicate once it has been written and read again, if it can be read as
a number. -/
def reread? (vertex : Vertex) (predicate : String) : Option (Option Float) :=
  match vertex.scalar? predicate with
  | some value => Node.optional? Node.float? value.toNode
  | none => some none

/-- The prices of a node once they have been written and read again. -/
def rereadPrices? (usual : UnitPrices) (vertex : Vertex) : Option UnitPrices := do
  let cpu ← vertex.reread? Predicate.cpuPrice
  let memory ← vertex.reread? Predicate.memoryPrice
  some ⟨cpu.getD usual.cpu, memory.getD usual.memory⟩

/-- Whether every recorded price is a number of a document. -/
def PricesRecorded (vertex : Vertex) : Prop :=
  ∀ predicate ∈ priceNames, ∀ value ∈ vertex.scalar? predicate, value.IsNumber

instance : DecidablePred PricesRecorded :=
  fun vertex => inferInstanceAs (Decidable (∀ predicate ∈ priceNames,
    ∀ value ∈ vertex.scalar? predicate, value.IsNumber))

/-- Whether every recorded price is read as the price that was written. -/
def PricesKept (vertex : Vertex) : Prop :=
  ∀ predicate ∈ priceNames, vertex.reread? predicate = some (vertex.number? predicate)

variable {vertex : Vertex}

instance : DecidablePred PricesKept :=
  fun vertex => inferInstanceAs (Decidable (∀ predicate ∈ priceNames,
    vertex.reread? predicate = some (vertex.number? predicate)))

/-- Prices that come back as they were written are the ones that are charged. -/
theorem rereadPrices?_of_kept (hkept : vertex.PricesKept) (usual : UnitPrices) :
    vertex.rereadPrices? usual = some (vertex.ownPrices usual) := by
  rw [rereadPrices?, hkept Predicate.cpuPrice (by simp [priceNames]),
    hkept Predicate.memoryPrice (by simp [priceNames])]
  rfl

/-- A node without a price of its own has the usual prices. -/
theorem ownPrices_of_not_priced (hpriced : vertex.priced = false) (usual : UnitPrices) :
    vertex.ownPrices usual = usual := by
  simp only [priced, Bool.or_eq_false_iff, Option.isSome_eq_false_iff, Option.isNone_iff_eq_none]
    at hpriced
  rw [ownPrices, number?_eq_none hpriced.1, number?_eq_none hpriced.2]
  rfl

/-- What the request for prices answers for a node. -/
def priceAnswer (vertex : Vertex) : Picked :=
  (Picked.nothing.answer (some Predicate.cpuPrice) (vertex.scalar? Predicate.cpuPrice)).answer
    (some Predicate.memoryPrice) (vertex.scalar? Predicate.memoryPrice)

/-- The answer for a node holds the prices that it records. -/
theorem get?_priceAnswer {predicate : String} (hpredicate : predicate ∈ priceNames) :
    Fields.get? predicate vertex.priceAnswer.fields = vertex.scalar? predicate := by
  have hne : Predicate.memoryPrice ≠ Predicate.cpuPrice := by decide
  simp only [priceNames, List.mem_cons, List.not_mem_nil, or_false] at hpredicate
  obtain rfl | rfl := hpredicate
  · rw [priceAnswer, Picked.get?_fields_answer_of_ne hne, Picked.get?_fields_answer_self rfl]
  · refine Picked.get?_fields_answer_self ?_ _
    rw [Picked.get?_fields_answer_of_ne hne.symm]
    rfl

/-- The answer for a node holds nothing but prices. -/
theorem get?_priceAnswer_of_not_mem {name : String} (hname : name ∉ priceNames) :
    Fields.get? name vertex.priceAnswer.fields = none := by
  simp only [priceNames, List.mem_cons, List.not_mem_nil, or_false, not_or] at hname
  rw [priceAnswer, Picked.get?_fields_answer_of_ne (Ne.symm hname.2),
    Picked.get?_fields_answer_of_ne (Ne.symm hname.1)]
  rfl

/-- The keys of the answer for a node ascend. -/
theorem sorted_priceAnswer (vertex : Vertex) : Fields.Sorted vertex.priceAnswer.fields :=
  Picked.sorted_fields_answer (Picked.sorted_fields_answer Picked.sorted_fields_nothing _ _) _ _

/-- The answer for a node can be written if its prices are numbers of a document. -/
theorem finite_priceAnswer (hrecorded : vertex.PricesRecorded) :
    (Json.object vertex.priceAnswer.fields).Finite := by
  have hprice (predicate : String) (hpredicate : predicate ∈ priceNames) :
      ∀ value ∈ vertex.scalar? predicate, value.Finite :=
    fun value hvalue => Json.finite_of_isNumber (hrecorded predicate hpredicate value hvalue)
  have hcpu := hprice Predicate.cpuPrice (by simp [priceNames])
  have hmemory := hprice Predicate.memoryPrice (by simp [priceNames])
  have hfirst := Picked.finite_fields_answer Picked.finite_fields_nothing (some Predicate.cpuPrice)
    hcpu
  exact Picked.finite_fields_answer hfirst (some Predicate.memoryPrice) hmemory

/-- A node is answered exactly if it records a price. -/
theorem priceAnswer_fields_eq_nil : vertex.priceAnswer.fields = [] ↔ vertex.priced = false := by
  rw [Fields.eq_nil_iff, priced, Bool.or_eq_false_iff, Option.isSome_eq_false_iff,
    Option.isSome_eq_false_iff, Option.isNone_iff_eq_none, Option.isNone_iff_eq_none]
  constructor
  · intro hnone
    rw [← get?_priceAnswer (by simp [priceNames]), ← get?_priceAnswer (by simp [priceNames])]
    exact ⟨hnone _, hnone _⟩
  · rintro ⟨hcpu, hmemory⟩ name
    by_cases hname : name ∈ priceNames
    · rw [get?_priceAnswer hname]
      simp only [priceNames, List.mem_cons, List.not_mem_nil, or_false] at hname
      obtain rfl | rfl := hname
      · exact hcpu
      · exact hmemory
    · exact get?_priceAnswer_of_not_mem hname

/-- The record of a node is read from its answer with the prices that come back. -/
theorem ofNode?_priceAnswer (depth : Nat) :
    Pod.ofNode? (depth + 1) (Json.object vertex.priceAnswer.fields).toNode =
      (vertex.reread? Predicate.cpuPrice).bind fun cpu =>
        (vertex.reread? Predicate.memoryPrice).bind fun memory =>
          some { Pod.blank with cpuPrice := cpu, memoryPrice := memory } := by
  obtain ⟨known, hknown, hfields⟩ :=
    Node.fields?_toNode vertex.sorted_priceAnswer Pod.fieldNames
  have habsent (name : String) (hname : name ∈ Pod.fieldNames) (hother : name ∉ priceNames) :
      Fields.get? name known = none := by
    rw [hfields name hname, get?_priceAnswer_of_not_mem hother, Option.map_none]
  have hprice (predicate : String) (hname : predicate ∈ Pod.fieldNames)
      (hpredicate : predicate ∈ priceNames) :
      Node.field? known predicate none (Node.optional? Node.float?) = vertex.reread? predicate := by
    rw [Node.field?, hfields predicate hname, get?_priceAnswer hpredicate, reread?]
    cases vertex.scalar? predicate <;> rfl
  have hcpu := hprice "cpuPrice" (by decide) (by decide)
  have hmemory := hprice "memoryPrice" (by decide) (by decide)
  rw [Pod.ofNode?, Node.record?, hknown]
  simp only [Option.bind_eq_bind, Option.bind_some]
  rw [hcpu, hmemory]
  simp only [Node.field?, habsent "uid" (by decide) (by decide),
    habsent "name" (by decide) (by decide), habsent "startTime" (by decide) (by decide),
    habsent "endTime" (by decide) (by decide), habsent "pod" (by decide) (by decide),
    habsent "cid" (by decide) (by decide), Option.bind_some]
  rfl

/-- The prices that come back for a node are those of its record. -/
theorem rereadPrices?_eq (vertex : Vertex) (usual : UnitPrices) (depth : Nat) :
    vertex.rereadPrices? usual =
      (Pod.ofNode? (depth + 1) (Json.object vertex.priceAnswer.fields).toNode).map fun record =>
        Lookup.mergedPrices usual [record] := by
  rw [ofNode?_priceAnswer, rereadPrices?]
  cases vertex.reread? Predicate.cpuPrice with
  | none => rfl
  | some cpu => cases vertex.reread? Predicate.memoryPrice <;> rfl

end Vertex

namespace Graph

/-- The first pod of a name that records a price of its own. -/
def firstPriced? (graph : Graph) (name : String) : Option (Uid × Vertex) :=
  (graph.podsNamed name).find? fun pod => pod.2.priced

/-- The prices a lookup by name comes to: those of the first pod of the name that records one,
unless some pod of the name has a price that cannot be read again. -/
def appliedPrices (graph : Graph) (usual : UnitPrices) (name : String) : UnitPrices :=
  let priced := (graph.podsNamed name).filter fun pod => pod.2.priced
  match priced.mapM fun pod => pod.2.rereadPrices? usual with
  | some (first :: _) => first
  | _ => usual

/-- The pods of a name that record prices are answered, the others are left out. -/
theorem reply_priceLookup (graph : Graph) (name : String) :
    graph.reply (Request.priceLookup name) =
      .ok (Text.encode (Json.object [(Request.priceBlock, .array
        (((graph.podsNamed name).filter fun pod => pod.2.priced).map fun pod =>
          .object pod.2.priceAnswer.fields))]).compact) := by
  have hpicks : graph.runBlock [] ⟨Request.priceBlock, Request.allOf .pod,
      some (.eq Predicate.name name), [Selection.predicate .plain Predicate.cpuPrice,
        Selection.predicate .plain Predicate.memoryPrice]⟩ =
      .ok ((graph.podsNamed name).map fun pod => pod.2.priceAnswer) := by
    rw [runBlock_podsNamed]
    simp only [Selection.pickAll_cons, Selection.pick_predicate, Selection.pickAll_nil]
    exact List.mapM_pure
  have hobjects : Picked.objects ((graph.podsNamed name).map fun pod => pod.2.priceAnswer) =
      ((graph.podsNamed name).filter fun pod => pod.2.priced).map fun pod =>
        .object pod.2.priceAnswer.fields := by
    rw [Picked.objects, List.filter_map, List.map_map]
    congr 1
    refine List.filter_congr fun pod _ => ?_
    rw [Function.comp_apply, Bool.eq_iff_iff, Bool.not_eq_true', List.isEmpty_eq_false_iff, ne_eq,
      Vertex.priceAnswer_fields_eq_nil, Bool.not_eq_false]
  rw [reply, Request.priceLookup, evaluate_single graph rfl, hpicks]
  simp only [bind, Except.bind, hobjects]

/-- The prices that come back from a graph. -/
theorem pricesFrom_reply {graph : Graph} {name : String}
    (hrecorded : ∀ pod ∈ graph.podsNamed name, pod.2.PricesRecorded) (usual : UnitPrices) :
    Lookup.pricesFrom usual (graph.reply (Request.priceLookup name)) =
      graph.appliedPrices usual name := by
  have hfinite : ∀ item ∈ ((graph.podsNamed name).filter fun pod => pod.2.priced).map
      (fun pod => Json.object pod.2.priceAnswer.fields), item.Finite := by
    intro item hitem
    obtain ⟨pod, hpod, rfl⟩ := List.mem_map.mp hitem
    exact Vertex.finite_priceAnswer (hrecorded pod (List.mem_filter.mp hpod).1)
  rw [reply_priceLookup, Lookup.pricesFrom, Lookup.recordsOf, readAnswer_encode _ _ hfinite,
    List.mapM_map, appliedPrices]
  have hreread (pod : Uid × Vertex) : pod.2.rereadPrices? usual =
      (Pod.ofNode? (Node.depthLimit - 2) (Json.object pod.2.priceAnswer.fields).toNode).map
        fun record => Lookup.mergedPrices usual [record] :=
    pod.2.rereadPrices?_eq usual (Node.depthLimit - 3)
  simp only [hreread, mapM_map_eq, Function.comp_def]
  generalize (((graph.podsNamed name).filter fun pod => pod.2.priced).mapM fun pod =>
    Pod.ofNode? (Node.depthLimit - 2) (Json.object pod.2.priceAnswer.fields).toNode) = records
  obtain _ | _ | ⟨first, others⟩ := records <;> rfl

/-- Where prices are kept, the first pod of a name that records one decides. -/
theorem appliedPrices_of_kept {graph : Graph} {name : String}
    (hkept : ∀ pod ∈ graph.podsNamed name, pod.2.PricesKept) (usual : UnitPrices) :
    graph.appliedPrices usual name =
      ((graph.firstPriced? name).map fun pod => pod.2.ownPrices usual).getD usual := by
  have hreread : (((graph.podsNamed name).filter fun pod => pod.2.priced).mapM fun pod =>
      pod.2.rereadPrices? usual) =
        some (((graph.podsNamed name).filter fun pod => pod.2.priced).map fun pod =>
          pod.2.ownPrices usual) := by
    refine mapM_eq_some_map fun pod hpod => ?_
    exact Vertex.rereadPrices?_of_kept (hkept pod (List.mem_filter.mp hpod).1) usual
  rw [appliedPrices, firstPriced?, ← List.head?_filter, hreread]
  cases (graph.podsNamed name).filter fun pod => pod.2.priced <;> rfl

end Graph

/-- The request for the costs of a pod carries the prices that the lookup by name comes to. Where
recorded prices are kept by writing and reading them, these are the prices of the pod itself exactly
if it records a price, or if the first pod of the name that does records the usual ones. -/
theorem Lookup.costHierarchy_prices {graph : Graph} {name : String} {pod : Uid × Vertex}
    {others : List (Uid × Vertex)} (hpods : graph.podsNamed name = pod :: others)
    (hrecorded : ∀ other ∈ graph.podsNamed name, other.2.PricesRecorded) (terms : Terms)
    (journal : Journal) :
    ∃ applied : UnitPrices,
      ((costHierarchy terms (.named name)).run (Store.ofGraph graph) journal).2.sent =
        journal.sent ++
          [ Request.priceLookup name,
            Request.costHierarchy name terms.window.elapsedSeconds
              (rates terms.pricing applied) ] ∧
      applied = graph.appliedPrices terms.pricing.unitPrices name ∧
      ((∀ other ∈ graph.podsNamed name, other.2.PricesKept) →
        (applied = pod.2.ownPrices terms.pricing.unitPrices ↔
          pod.2.priced = true ∨ ∀ first, graph.firstPriced? name = some first →
            first.2.ownPrices terms.pricing.unitPrices = terms.pricing.unitPrices)) := by
  have happlied := Graph.pricesFrom_reply hrecorded terms.pricing.unitPrices
  refine ⟨_, ?_, rfl, fun hkept => ?_⟩
  · rw [sent_costHierarchy, ← happlied]
    rfl
  · rw [Graph.appliedPrices_of_kept hkept, Graph.firstPriced?, hpods]
    cases hpriced : pod.2.priced with
    | true => simp [hpriced]
    | false =>
        rw [List.find?_cons_of_neg (by simp [hpriced]), Vertex.ownPrices_of_not_priced hpriced]
        cases others.find? fun other => other.2.priced <;> simp

/-- Two pods of one name, each with a price of its own. -/
theorem Lookup.costHierarchy_prices_both_priced :
    let graph := ((Graph.empty ⟨20745, 43200, 0, by decide, by decide, by decide⟩).insert
      (.object [("cpuPrice", .number (.int 3)), ("isPod", .bool true),
        ("name", .string "web")])).insert
      (.object [("isPod", .bool true), ("memoryPrice", .number (.int 1)),
        ("name", .string "web")])
    let terms : Terms := ⟨Pricing.standard, graph.now⟩
    ∃ pod others, graph.podsNamed "web" = pod :: others ∧
      (∀ other ∈ graph.podsNamed "web", other.2.PricesRecorded ∧ other.2.PricesKept) ∧
      ∃ applied : UnitPrices,
        ((costHierarchy terms (.named "web")).run (Store.ofGraph graph) Journal.empty).2.sent =
          Journal.empty.sent ++
            [ Request.priceLookup "web",
              Request.costHierarchy "web" terms.window.elapsedSeconds
                (rates terms.pricing applied) ] ∧
        applied = graph.appliedPrices terms.pricing.unitPrices "web" ∧
        ((∀ other ∈ graph.podsNamed "web", other.2.PricesKept) →
          (applied = pod.2.ownPrices terms.pricing.unitPrices ↔
            pod.2.priced = true ∨ ∀ first, graph.firstPriced? "web" = some first →
              first.2.ownPrices terms.pricing.unitPrices = terms.pricing.unitPrices)) := by
  intro graph terms
  have hprices : ∀ other ∈ graph.podsNamed "web",
      other.2.PricesRecorded ∧ other.2.PricesKept := by decide +kernel
  have hrecorded : ∀ other ∈ graph.podsNamed "web", other.2.PricesRecorded :=
    fun other hother => (hprices other hother).1
  exact ⟨_, _, rfl, hprices, costHierarchy_prices rfl hrecorded terms Journal.empty⟩

/-- A pod without prices is charged at the prices of a later pod of its name, and not at the usual
ones. -/
theorem Lookup.costHierarchy_prices_shared_name :
    let graph := ((Graph.empty ⟨20745, 43200, 0, by decide, by decide, by decide⟩).insert
      (.object [("isPod", .bool true), ("name", .string "web")])).insert
      (.object [("cpuPrice", .number (.int 5)), ("isPod", .bool true), ("name", .string "web")])
    let terms : Terms := ⟨Pricing.standard, graph.now⟩
    ((costHierarchy terms (.named "web")).run (Store.ofGraph graph) Journal.empty).2.sent =
        [ Request.priceLookup "web",
          Request.costHierarchy "web" terms.window.elapsedSeconds
            (rates terms.pricing ⟨5, 0.01⟩) ] ∧
      ((graph.podsNamed "web").head?.map fun pod =>
        pod.2.ownPrices terms.pricing.unitPrices) = some ⟨0.024, 0.01⟩ ∧
      (5 : Float) ≠ 0.024 := by
  intro graph terms
  have hrecorded : ∀ other ∈ graph.podsNamed "web", other.2.PricesRecorded := by decide +kernel
  have happlied : Lookup.pricesFrom terms.pricing.unitPrices
      (graph.reply (Request.priceLookup "web")) = ⟨5, 0.01⟩ :=
    Graph.pricesFrom_reply hrecorded terms.pricing.unitPrices
  refine ⟨?_, rfl, by decide +kernel⟩
  rw [sent_costHierarchy, ← happlied]
  rfl

end PodCosts
