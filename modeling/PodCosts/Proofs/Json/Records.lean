import PodCosts.Prices
import PodCosts.Proofs.Fields
import PodCosts.Proofs.Json.RoundTrip
import PodCosts.Proofs.Visits
import Mathlib.Data.List.Nodup

/-!
# Records from written documents

A record is read from the text of an object whose names ascend: none of its fields stands twice, and
each of them holds what the object holds under its name. An answer is an object with one list, and
its records are those of the items of that list.
-/

namespace PodCosts

namespace Fields

variable {α β : Type}

/-- Values that are changed by the same function are looked up as before. -/
theorem get?_map (f : α → β) (name : String) (fields : List (String × α)) :
    get? name (fields.map fun field => (field.1, f field.2)) = (get? name fields).map f := by
  induction fields with
  | nil => rfl
  | cons field fields ih =>
      obtain ⟨other, value⟩ := field
      rw [List.map_cons]
      by_cases heq : other = name
      · rw [heq, get?_cons_self, get?_cons_self, Option.map_some]
      · rw [get?_cons_of_ne heq, get?_cons_of_ne heq, ih]

/-- Names that are kept are looked up as before. -/
theorem get?_filter {names : List String} {name : String} (hname : name ∈ names)
    (fields : List (String × α)) :
    get? name (fields.filter fun field => names.contains field.1) = get? name fields := by
  induction fields with
  | nil => rfl
  | cons field fields ih =>
      obtain ⟨other, value⟩ := field
      rw [List.filter_cons]
      by_cases heq : other = name
      · rw [if_pos (by simpa [heq] using hname), heq, get?_cons_self, get?_cons_self]
      · rw [get?_cons_of_ne heq, ← ih]
        split_ifs
        · exact get?_cons_of_ne heq _ _
        · rfl

end Fields

namespace Node

/-- Names that differ from one another are distinct. -/
theorem distinct_of_nodup {names : List String} (hnodup : names.Nodup) : distinct names = true := by
  induction names with
  | nil => rfl
  | cons name names ih =>
      obtain ⟨hname, hnames⟩ := List.nodup_cons.mp hnodup
      simp [distinct, hname, ih hnames]

/-- The members of a written object all have readable names. -/
theorem mapM_toMembers (fields : List (String × Json)) :
    ((Json.toMembers fields).mapM fun member => member.1.map fun name => (name, member.2)) =
      some (fields.map fun field => (field.1, field.2.toNode)) := by
  rw [Json.toMembers_eq_map, List.mapM_map]
  exact mapM_eq_some_map fun _ _ => rfl

/-- The given fields of a record hold what the written object holds under their names, if no name
stands twice in it. -/
theorem fields?_toNode_of_nodup {fields : List (String × Json)}
    (hnodup : (fields.map Prod.fst).Nodup) (names : List String) :
    ∃ known, fields? names (Json.object fields).toNode = some known ∧
      ∀ name ∈ names, Fields.get? name known = (Fields.get? name fields).map Json.toNode := by
  have hdistinct : distinct (((fields.map fun field => (field.1, field.2.toNode)).filter
      fun member => names.contains member.1).map Prod.fst) = true := by
    refine distinct_of_nodup (List.Nodup.sublist (List.filter_sublist.map _) ?_)
    rw [List.map_map]
    exact hnodup
  refine ⟨(fields.map fun field => (field.1, field.2.toNode)).filter
    fun member => names.contains member.1, ?_, fun name hname => ?_⟩
  · rw [Json.toNode, fields?, mapM_toMembers]
    exact if_pos hdistinct
  · rw [Fields.get?_filter hname, Fields.get?_map]

/-- The given fields of a record hold what the written object holds under their names, if its names
ascend. -/
theorem fields?_toNode {fields : List (String × Json)} (hsorted : Fields.Sorted fields)
    (names : List String) :
    ∃ known, fields? names (Json.object fields).toNode = some known ∧
      ∀ name ∈ names, Fields.get? name known = (Fields.get? name fields).map Json.toNode :=
  fields?_toNode_of_nodup hsorted.nodup names

/-- Names of which each stands at most once among some members do not repeat. -/
theorem nodup_names_filter {names : List String} {members : List (String × Node)}
    (hnames : ∀ name ∈ names, (members.filter fun member => member.1 == name).length ≤ 1) :
    ((members.filter fun member => names.contains member.1).map Prod.fst).Nodup := by
  rw [List.nodup_iff_count_le_one]
  intro name
  by_cases hname : name ∈ names
  · have hkept : (members.filter fun member => names.contains member.1).Sublist members :=
      List.filter_sublist
    have hless := (hkept.filter fun member => member.1 == name).length_le
    rw [List.count_eq_countP, List.countP_map, List.countP_eq_length_filter]
    exact le_trans hless (hnames name hname)
  · have habsent :
        name ∉ (members.filter fun member => names.contains member.1).map Prod.fst := by
      intro hmem
      obtain ⟨member, hmember, rfl⟩ := List.mem_map.mp hmem
      exact hname (by simpa using (List.mem_filter.mp hmember).2)
    rw [List.count_eq_zero.mpr habsent]
    exact Nat.zero_le 1

/-- The members of an object are the fields of a record if no field of the record stands twice. -/
theorem exists_fields?_of_filter {names : List String} {members : List (String × Node)}
    (hnames : ∀ name ∈ names, (members.filter fun member => member.1 == name).length ≤ 1) :
    ∃ known,
      fields? names (.object (members.map fun member => (some member.1, member.2))) = some known ∧
        ∀ name ∈ names, Fields.get? name known =
          (members.filter fun member => member.1 == name).head?.map Prod.snd := by
  have hnamed : ((members.map fun member => (some member.1, member.2)).mapM fun member =>
      member.1.map fun name => (name, member.2)) = some (members.map id) := by
    rw [List.mapM_map]
    exact mapM_eq_some_map fun _ _ => rfl
  refine ⟨members.filter fun member => names.contains member.1, ?_, fun name hname => ?_⟩
  · rw [fields?, hnamed, List.map_id]
    exact if_pos (distinct_of_nodup (nodup_names_filter hnames))
  · rw [Fields.get?_filter hname, Fields.get?_eq_head?]

/-- A record is read from its fields, one level deeper. -/
theorem record?_of_fields? {α : Type} {names : List String} {node : Node}
    {known : List (String × Node)} (hknown : fields? names node = some known)
    (read : Nat → List (String × Node) → Option α) (depth : Nat) :
    record? names read (depth + 1) node = read depth known := by
  rw [record?, hknown]
  rfl

/-- The one field of a record is read from what an object holds under its name, whatever other
members the object has. -/
theorem record?_of_filter {α : Type} {name : String} {members : List (String × Node)} {node : Node}
    (hname : (members.filter fun member => member.1 == name) = [(name, node)]) (absent : α)
    (read : Nat → Node → Option α) (depth : Nat) :
    record? [name] (fun depth fields => field? fields name absent (read depth)) (depth + 1)
      (.object (members.map fun member => (some member.1, member.2))) = read depth node := by
  have honce : ∀ other ∈ [name],
      (members.filter fun member => member.1 == other).length ≤ 1 := by
    intro other hother
    rw [List.mem_singleton.mp hother, hname]
    exact Nat.le_refl 1
  obtain ⟨known, hknown, hvalue⟩ := exists_fields?_of_filter honce
  rw [record?_of_fields? hknown, field?, hvalue name List.mem_cons_self, hname]
  rfl

/-- The records of an answer are those of the list under its key, whatever other members the answer
has. -/
theorem answer?_of_filter {α : Type} {key : String} {members : List (String × Node)}
    {items : List Node}
    (hkey : (members.filter fun member => member.1 == key) = [(key, .array items)])
    (read : Nat → Node → Option α) (depth : Nat) :
    answer? key read (depth + 2)
        (.object (members.map fun member => (some member.1, member.2))) =
      items.mapM (read depth) :=
  record?_of_filter hkey [] (list? read) (depth + 1)

/-- The items of a list in a written document. -/
theorem list?_toNode {α : Type} (read : Nat → Node → Option α) (depth : Nat) (items : List Json) :
    list? read (depth + 1) (Json.array items).toNode =
      items.mapM fun item => read depth item.toNode := by
  rw [Json.toNode, list?, Json.toNodes_eq_map, List.mapM_map]
  rfl

end Node

/-- The records of an answer with one list are those of its items. -/
theorem readAnswer_encode {α : Type} (key : String) (read : Nat → Node → Option α)
    {items : List Json} (hfinite : ∀ item ∈ items, item.Finite) :
    readAnswer key read (Text.encode (Json.object [(key, .array items)]).compact) =
      match items.mapM fun item => read (Node.depthLimit - 2) item.toNode with
      | some records => .ok records
      | none => .error .decode := by
  have hdocument : (Json.object [(key, .array items)]).Finite :=
    ⟨Json.itemsFinite_iff.mpr hfinite, trivial⟩
  have hlist : (Json.array items).toNode = .array (items.map Json.toNode) := by
    rw [Json.toNode, Json.toNodes_eq_map]
  have hkey : ([(key, Node.array (items.map Json.toNode))].filter fun member =>
      member.1 == key) = [(key, .array (items.map Json.toNode))] :=
    List.filter_cons_of_pos (beq_self_eq_true key)
  have hread : Node.decode? (Node.answer? key read)
      (Text.encode (Json.object [(key, .array items)]).compact) =
        items.mapM fun item => read (Node.depthLimit - 2) item.toNode := by
    have hitems := Node.answer?_of_filter hkey read (Node.depthLimit - 2)
    rw [List.mapM_map] at hitems
    rw [Node.decode?, Json.read?_compact hdocument, Json.toNode, Json.toMembers_eq_map,
      List.map_singleton, hlist]
    exact hitems
  cases h : items.mapM fun item => read (Node.depthLimit - 2) item.toNode with
  | none => simp only [readAnswer, hread, h]
  | some records => simp only [readAnswer, hread, h]

end PodCosts
