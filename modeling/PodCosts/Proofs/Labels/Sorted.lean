import PodCosts.Proofs.Labels.Wanted
import PodCosts.Proofs.Text.Order

/-!
# Grouped labels are sorted labels

Grouping pairs by key and taking the groups apart again sorts the pairs by key. The sort is stable:
for every key, the pairs of that key are the same list before and after. A list that is sorted by
key is determined by these lists, so it is enough to follow them through the grouping.
-/

namespace PodCosts

namespace Fields

variable {α : Type}

/-- Whether the names of a list never descend. -/
def Ascending (fields : List (String × α)) : Prop :=
  fields.Pairwise fun field other => field.1 ≤ other.1

/-- Of two lists with the same fields for every name, the first field of one stands in the other. -/
theorem mem_of_filter_eq {fields others : List (String × α)}
    (hsame : ∀ name, (fields.filter fun field => field.1 == name) =
      others.filter fun field => field.1 == name)
    {field : String × α} (hfield : field ∈ fields) : field ∈ others := by
  have hfound : field ∈ fields.filter fun other => other.1 == field.1 :=
    List.mem_filter.mpr ⟨hfield, beq_self_eq_true _⟩
  rw [hsame] at hfound
  exact (List.mem_filter.mp hfound).1

/-- Lists whose names never descend are equal if they have the same fields for every name. -/
theorem Ascending.eq_of_filter_eq {fields others : List (String × α)} (hfields : Ascending fields)
    (hothers : Ascending others)
    (hsame : ∀ name, (fields.filter fun field => field.1 == name) =
      others.filter fun field => field.1 == name) : fields = others := by
  induction fields generalizing others with
  | nil =>
    cases others with
    | nil => rfl
    | cons other others =>
      exact absurd (mem_of_filter_eq (fun name => (hsame name).symm) List.mem_cons_self)
        List.not_mem_nil
  | cons field fields ih =>
    cases others with
    | nil => exact absurd (mem_of_filter_eq hsame List.mem_cons_self) List.not_mem_nil
    | cons other others =>
      obtain ⟨hfirst, hrest⟩ := List.pairwise_cons.mp hfields
      obtain ⟨hotherFirst, hotherRest⟩ := List.pairwise_cons.mp hothers
      -- Each of the two first fields stands in the other list, so their names are equal.
      have hle : field.1 ≤ other.1 := by
        rcases List.mem_cons.mp (mem_of_filter_eq (fun name => (hsame name).symm)
          List.mem_cons_self) with heq | hmem
        · exact le_of_eq (congrArg Prod.fst heq.symm)
        · exact hfirst other hmem
      have hge : other.1 ≤ field.1 := by
        rcases List.mem_cons.mp (mem_of_filter_eq hsame List.mem_cons_self) with heq | hmem
        · exact le_of_eq (congrArg Prod.fst heq.symm)
        · exact hotherFirst field hmem
      have hname : field.1 = other.1 := le_antisymm hle hge
      have hfields := hsame field.1
      rw [List.filter_cons_of_pos (by simp), List.filter_cons_of_pos (by simp [hname])] at hfields
      obtain rfl : field = other := (List.cons.inj hfields).1
      refine congrArg (field :: ·) (ih hrest hotherRest fun name => ?_)
      have hboth := hsame name
      rw [List.filter_cons, List.filter_cons] at hboth
      split_ifs at hboth
      · exact (List.cons.inj hboth).2
      · exact hboth

end Fields

namespace LabelMap

/-! ## Grouping -/

/-- The pairs of one key in a label map are those of its group. -/
theorem filter_pairs {labels : LabelMap} (hsorted : Fields.Sorted labels) (key : String) :
    (labels.pairs.filter fun pair => pair.1 == key) =
      ((Fields.get? key labels).getD []).map fun value => (key, value) := by
  induction labels with
  | nil => rfl
  | cons entry labels ih =>
    obtain ⟨other, values⟩ := entry
    obtain ⟨hother, hrest⟩ := List.pairwise_cons.mp hsorted
    have hpairs : pairs ((other, values) :: labels) =
        (values.map fun value => (other, value)) ++ pairs labels := List.flatMap_cons
    rw [hpairs, List.filter_append, ih hrest]
    by_cases hkey : other = key
    · subst hkey
      have habsent : Fields.get? other labels = none := by
        refine Fields.get?_eq_none fun hmem => ?_
        obtain ⟨entry, hentry, hname⟩ := List.mem_map.mp hmem
        exact absurd (hother entry hentry) (by simp [hname])
      rw [habsent, Fields.get?_cons_self, List.filter_eq_self.mpr (by simp)]
      simp
    · rw [Fields.get?_cons_of_ne hkey, List.filter_eq_nil_iff.mpr (by simp [hkey]),
        List.nil_append]

/-- The pairs of a label map whose keys ascend are sorted by key. -/
theorem ascending_pairs {labels : LabelMap} (hsorted : Fields.Sorted labels) :
    Fields.Ascending labels.pairs := by
  refine List.pairwise_flatMap.mpr ⟨fun entry _ => ?_, ?_⟩
  · exact List.pairwise_map.mpr (List.pairwise_of_forall fun _ _ => le_refl entry.1)
  · refine hsorted.imp fun {entry other} hlt pair hpair next hnext => ?_
    obtain ⟨_, -, rfl⟩ := List.mem_map.mp hpair
    obtain ⟨_, -, rfl⟩ := List.mem_map.mp hnext
    exact le_of_lt hlt

/-- A group gets the values of the given pairs of its key, in the order in which they are given. -/
theorem getD_get?_foldl_add (given : List (String × String)) (labels : LabelMap) (key : String) :
    (Fields.get? key (given.foldl add labels)).getD [] =
      (Fields.get? key labels).getD [] ++
        (given.filter fun pair => pair.1 == key).map Prod.snd := by
  induction given generalizing labels with
  | nil => simp
  | cons pair given ih =>
    rw [List.foldl_cons, ih, add]
    by_cases hkey : pair.1 = key
    · subst hkey
      rw [Fields.get?_insert, Option.getD_some, List.filter_cons_of_pos (by simp), List.map_cons,
        List.append_assoc, List.singleton_append]
    · rw [Fields.get?_insert_of_ne hkey, List.filter_cons_of_neg (by simpa using hkey)]

/-- The keys of groups ascend whatever pairs are added to them. -/
theorem sorted_foldl_add (given : List (String × String)) {labels : LabelMap}
    (hsorted : Fields.Sorted labels) : Fields.Sorted (given.foldl add labels) := by
  induction given generalizing labels with
  | nil => exact hsorted
  | cons pair given ih => exact ih (sorted_add hsorted pair)

/-- Grouping keeps the pairs of every key as they are given. -/
theorem filter_pairs_ofPairs (given : List (String × String)) (key : String) :
    ((ofPairs given).pairs.filter fun pair => pair.1 == key) =
      given.filter fun pair => pair.1 == key := by
  have hsorted : Fields.Sorted (ofPairs given) := sorted_foldl_add given Fields.sorted_nil
  rw [filter_pairs hsorted, ofPairs, getD_get?_foldl_add, Fields.get?_nil, Option.getD_none,
    List.nil_append, List.map_map]
  refine (List.map_congr_left fun pair hpair => ?_).trans (List.map_id _)
  have hkey : pair.1 = key := by simpa using (List.mem_filter.mp hpair).2
  exact Prod.ext hkey.symm rfl

/-! ## Sorting -/

/-- Whether the key of a pair has the smaller bytes, or the same ones. -/
def keyLE (pair other : String × String) : Bool :=
  decide (Text.encode pair.1 ≤ Text.encode other.1)

/-- The stable sort of pairs by the bytes of their keys. -/
def sortedByKey (given : List (String × String)) : List (String × String) :=
  given.mergeSort keyLE

/-- The bytes of keys are in the order of the keys. -/
theorem keyLE_iff {pair other : String × String} : keyLE pair other = true ↔ pair.1 ≤ other.1 :=
  decide_eq_true_iff.trans Text.encode_le_encode_iff

/-- The order of keys passes on. -/
theorem keyLE_trans (first second third : String × String) (hfirst : keyLE first second = true)
    (hsecond : keyLE second third = true) : keyLE first third = true :=
  keyLE_iff.mpr ((keyLE_iff.mp hfirst).trans (keyLE_iff.mp hsecond))

/-- Of two keys one comes first, or they are the same. -/
theorem keyLE_total (first second : String × String) :
    (keyLE first second || keyLE second first) = true := by
  rw [Bool.or_eq_true, keyLE_iff, keyLE_iff]
  exact le_total _ _

/-- Sorted pairs have ascending keys. -/
theorem ascending_sortedByKey (given : List (String × String)) :
    Fields.Ascending (sortedByKey given) :=
  (List.pairwise_mergeSort keyLE_trans keyLE_total given).imp keyLE_iff.mp

/-- Sorting keeps the pairs of every key as they are given. -/
theorem filter_sortedByKey (given : List (String × String)) (key : String) :
    ((sortedByKey given).filter fun pair => pair.1 == key) =
      given.filter fun pair => pair.1 == key := by
  have hequal : (given.filter fun pair => pair.1 == key).Pairwise
      fun pair other => keyLE pair other = true := by
    refine List.pairwise_of_forall_mem_list fun pair hpair other hother => keyLE_iff.mpr ?_
    have hpair : pair.1 = key := by simpa using (List.mem_filter.mp hpair).2
    have hother : other.1 = key := by simpa using (List.mem_filter.mp hother).2
    exact le_of_eq (hpair.trans hother.symm)
  have hsublist := List.sublist_mergeSort keyLE_trans keyLE_total hequal List.filter_sublist
  have hfiltered := hsublist.filter fun pair => pair.1 == key
  rw [List.filter_filter] at hfiltered
  simp only [Bool.and_self] at hfiltered
  exact (hfiltered.eq_of_length ((List.mergeSort_perm given keyLE).filter _).length_eq.symm).symm

/-- Grouping pairs and taking the groups apart sorts the pairs by key. -/
theorem pairs_ofPairs (given : List (String × String)) :
    (ofPairs given).pairs = sortedByKey given := by
  have hgrouped := ascending_pairs (sorted_foldl_add given Fields.sorted_nil)
  refine hgrouped.eq_of_filter_eq (ascending_sortedByKey given) fun key => ?_
  rw [filter_sortedByKey]
  exact filter_pairs_ofPairs given key

/-- One key begins another and one is not ASCII; a repeated pair stays. -/
example :
    (ofPairs [("é", "1"), ("env", "b"), ("en", "x"), ("env", "a"), ("env", "b")]).pairs =
      [("en", "x"), ("env", "b"), ("env", "a"), ("env", "b"), ("é", "1")] := by decide

end LabelMap

/-- There is no filter without a pair, and otherwise it asks for any of the given pairs, each as
often as it is given. They stand in the order of the stable sort by key: keys ascend by their bytes,
and the pairs of one key stay in the order in which they are given. -/
theorem Request.labelFilter?_ofPairs (given : List (String × String)) :
    (labelFilter? (LabelMap.ofPairs given) = none ↔ given = []) ∧
      labelFilter? (LabelMap.ofPairs given) = (if given = [] then none else
        some (.or ((LabelMap.sortedByKey given).map fun pair =>
          .and [.eq Predicate.labelKey pair.1, .eq Predicate.labelValue pair.2]))) ∧
      (LabelMap.sortedByKey given).Perm given ∧
      ((LabelMap.sortedByKey given).Pairwise fun pair other =>
        Text.encode pair.1 ≤ Text.encode other.1) ∧
      ∀ key, ((LabelMap.sortedByKey given).filter fun pair => pair.1 == key) =
        given.filter fun pair => pair.1 == key := by
  have hperm : (LabelMap.sortedByKey given).Perm given := List.mergeSort_perm given _
  have hempty : (LabelMap.sortedByKey given).isEmpty = true ↔ given = [] := by
    rw [List.isEmpty_iff]
    constructor
    · intro hnil
      rw [hnil] at hperm
      exact hperm.nil_eq.symm
    · rintro rfl
      exact hperm.eq_nil
  have hfilter : labelFilter? (LabelMap.ofPairs given) =
      if given = [] then none else some (.or ((LabelMap.sortedByKey given).map pairFilter)) := by
    rw [labelFilter?, LabelMap.pairs_ofPairs]
    exact if_congr hempty rfl rfl
  refine ⟨?_, hfilter, hperm, ?_, LabelMap.filter_sortedByKey given⟩
  · rw [hfilter]
    split_ifs with hnil
    · exact iff_of_true rfl hnil
    · exact iff_of_false nofun hnil
  · exact (LabelMap.ascending_sortedByKey given).imp Text.encode_le_encode_iff.mpr

end PodCosts
