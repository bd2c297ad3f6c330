import PodCosts.Json.Basic
import Mathlib.Data.String.Basic

/-!
# Lists of named values

What a list of named values holds under a name after another name has been set. Scopes, answers and
the edges of a node are all such lists. Lists that are only built by setting names are sorted, so no
name stands twice in them.
-/

namespace PodCosts.Fields

variable {α : Type}

/-- Nothing is found in the empty list. -/
@[simp] theorem get?_nil (name : String) : get? name ([] : List (String × α)) = none := rfl

/-- The first value under a name is the one that is found. -/
@[simp] theorem get?_cons_self (name : String) (value : α) (fields : List (String × α)) :
    get? name ((name, value) :: fields) = some value := by
  simp [get?]

/-- A value under another name is passed over. -/
theorem get?_cons_of_ne {name other : String} (hne : other ≠ name) (value : α)
    (fields : List (String × α)) : get? name ((other, value) :: fields) = get? name fields := by
  unfold get?
  rw [List.find?_cons_of_neg (by simpa using hne)]

/-- Setting a name leaves every other name as it was. -/
theorem get?_insert_of_ne {name other : String} (hne : other ≠ name) (value : α)
    (fields : List (String × α)) : get? name (insert other value fields) = get? name fields := by
  induction fields with
  | nil => exact get?_cons_of_ne hne value []
  | cons field rest ih =>
    obtain ⟨third, held⟩ := field
    unfold insert
    split
    · exact get?_cons_of_ne hne value _
    · split
      · rename_i hthird
        subst hthird
        rw [get?_cons_of_ne hne, get?_cons_of_ne hne]
      · by_cases hname : third = name
        · rw [hname, get?_cons_self, get?_cons_self]
        · rw [get?_cons_of_ne hname, get?_cons_of_ne hname, ih]

/-- Where a name has been set there is something. -/
theorem insert_ne_nil (name : String) (value : α) (fields : List (String × α)) :
    insert name value fields ≠ [] := by
  intro hnil
  have hfound := get?_insert name value fields
  rw [hnil] at hfound
  cases hfound

/-- Only the empty list holds nothing. -/
theorem eq_nil_iff {fields : List (String × α)} :
    fields = [] ↔ ∀ name, get? name fields = none := by
  cases fields with
  | nil => simp
  | cons field fields =>
    refine ⟨fun hnil => absurd hnil (List.cons_ne_nil _ _), fun hnone => ?_⟩
    have hfirst := hnone field.1
    rw [get?_cons_self field.1 field.2 fields] at hfirst
    cases hfirst

/-- A name holds what it holds first. -/
theorem get?_eq_head? (name : String) (fields : List (String × α)) :
    get? name fields = (fields.filter fun field => field.1 == name).head?.map Prod.snd := by
  rw [List.head?_filter]
  rfl

/-- There are no fields of a name that does not stand in a list. -/
theorem filter_eq_nil {name : String} {fields : List (String × α)}
    (hname : name ∉ fields.map Prod.fst) : (fields.filter fun field => field.1 == name) = [] := by
  rw [List.filter_eq_nil_iff]
  intro field hfield heq
  exact hname (List.mem_map.mpr ⟨field, hfield, by simpa using heq⟩)

/-- A name that does not stand in a list holds nothing. -/
theorem get?_eq_none {name : String} {fields : List (String × α)}
    (hname : name ∉ fields.map Prod.fst) : get? name fields = none := by
  rw [get?_eq_head?, filter_eq_nil hname]
  rfl

/-- What is found under a name stands in the list with it. -/
theorem mem_of_get? {name : String} {value : α} {fields : List (String × α)}
    (hvalue : get? name fields = some value) : (name, value) ∈ fields := by
  obtain ⟨field, hfound, rfl⟩ := Option.map_eq_some_iff.mp hvalue
  have hname : field.1 = name := by simpa using List.find?_some hfound
  exact hname ▸ List.mem_of_find?_eq_some hfound

/-- A name behind all others is added at the end. -/
theorem insert_of_forall_lt {name : String} (value : α) {fields : List (String × α)}
    (hbehind : ∀ field ∈ fields, field.1 < name) :
    insert name value fields = fields ++ [(name, value)] := by
  induction fields with
  | nil => rfl
  | cons field rest ih =>
    have hlt := hbehind field List.mem_cons_self
    have hrest := ih fun other hother => hbehind other (List.mem_cons_of_mem _ hother)
    rw [insert, if_neg (not_lt_of_gt hlt), if_neg (ne_of_gt hlt), hrest, List.cons_append]

/-- Setting a name adds nothing but the new value. -/
theorem mem_of_mem_insert {name : String} {value : α} {fields : List (String × α)}
    {field : String × α} (hfield : field ∈ insert name value fields) :
    field = (name, value) ∨ field ∈ fields := by
  induction fields with
  | nil => exact .inl (List.mem_singleton.mp hfield)
  | cons other rest ih =>
    obtain ⟨other, held⟩ := other
    unfold insert at hfield
    split_ifs at hfield
    · exact List.mem_cons.mp hfield
    · exact (List.mem_cons.mp hfield).imp_right (List.mem_cons_of_mem _)
    · obtain rfl | hfield := List.mem_cons.mp hfield
      · exact .inr List.mem_cons_self
      · exact (ih hfield).imp_right (List.mem_cons_of_mem _)

/-- Whether the names of a list ascend. -/
def Sorted (fields : List (String × α)) : Prop :=
  fields.Pairwise fun field other => field.1 < other.1

/-- The empty list is sorted. -/
theorem sorted_nil : Sorted ([] : List (String × α)) :=
  List.Pairwise.nil

/-- Setting a name keeps the names ascending. -/
theorem Sorted.insert {fields : List (String × α)} (hsorted : Sorted fields) (name : String)
    (value : α) : Sorted (insert name value fields) := by
  induction fields with
  | nil => exact List.pairwise_singleton _ _
  | cons field rest ih =>
    obtain ⟨other, held⟩ := field
    obtain ⟨hother, hrest⟩ := List.pairwise_cons.mp hsorted
    unfold Fields.insert
    split_ifs with hlt heq
    · refine List.pairwise_cons.mpr ⟨fun field hfield => ?_, hsorted⟩
      obtain rfl | hfield := List.mem_cons.mp hfield
      · exact hlt
      · exact hlt.trans (hother field hfield)
    · exact List.pairwise_cons.mpr ⟨fun field hfield => heq ▸ hother field hfield, hrest⟩
    · refine List.pairwise_cons.mpr ⟨fun field hfield => ?_, ih hrest⟩
      obtain rfl | hfield := mem_of_mem_insert hfield
      · exact lt_of_le_of_ne (not_lt.mp hlt) (Ne.symm heq)
      · exact hother field hfield

/-- No name stands twice in a sorted list. -/
theorem Sorted.nodup {fields : List (String × α)} (hsorted : Sorted fields) :
    (fields.map Prod.fst).Nodup :=
  List.pairwise_map.mpr (hsorted.imp fun hlt => ne_of_lt hlt)

/-- A value of a sorted list is the one its name stands for. -/
theorem Sorted.get?_of_mem {fields : List (String × α)} (hsorted : Sorted fields)
    {field : String × α} (hfield : field ∈ fields) : get? field.1 fields = some field.2 := by
  induction fields with
  | nil => cases hfield
  | cons first rest ih =>
    obtain ⟨hfirst, hrest⟩ := List.pairwise_cons.mp hsorted
    obtain rfl | hfield := List.mem_cons.mp hfield
    · exact get?_cons_self _ _ _
    · exact (get?_cons_of_ne (ne_of_lt (hfirst field hfield)) first.2 rest).trans (ih hrest hfield)

end PodCosts.Fields
