import PodCosts.Pod
import Mathlib.Data.List.Nodup

/-!
# Numbers without repetitions

The numbers of a list of pods are kept where they stand first. Starting with some numbers that have
been seen keeps the same ones as starting with none, apart from those seen. The numbers kept from a
list are therefore its first one and those kept from the rest that differ from it, and all the laws
below are by induction on this.
-/

namespace PodCosts.Pod

/-- Of what is kept otherwise, only the numbers seen before are left out. -/
theorem go_eq_filter (seen uids : List String) :
    distinctUids.go seen uids = (distinctUids.go [] uids).filter fun uid => uid ∉ seen := by
  induction uids generalizing seen with
  | nil => rfl
  | cons uid uids ih =>
    -- the right side goes on with the first number seen, so the hypothesis is used there too
    have hright : distinctUids.go [] (uid :: uids) =
        uid :: (distinctUids.go [] uids).filter fun other => other ∉ [uid] := by
      rw [distinctUids.go, if_neg (by simp), ih [uid]]
    rw [hright, distinctUids.go, List.filter_cons, List.filter_filter]
    by_cases hseen : uid ∈ seen
    · rw [if_pos (by simpa using hseen), if_neg (by simpa using hseen), ih seen]
      refine List.filter_congr fun other _ => ?_
      have hother : other ∉ seen → other ≠ uid := fun hfresh heq => hfresh (heq ▸ hseen)
      simpa using hother
    · rw [if_neg (by simpa using hseen), if_pos (by simpa using hseen), ih (uid :: seen)]
      congr 1
      refine List.filter_congr fun other _ => ?_
      simp [Bool.and_comm]

/-- The first number is kept, and no later one that equals it. -/
theorem go_cons (uid : String) (uids : List String) :
    distinctUids.go [] (uid :: uids) =
      uid :: (distinctUids.go [] uids).filter fun other => other ≠ uid := by
  rw [distinctUids.go, if_neg (by simp), go_eq_filter [uid]]
  simp only [List.mem_singleton, ne_eq]

/-- No number is lost, and none is made up. -/
theorem mem_go {uid : String} {uids : List String} :
    uid ∈ distinctUids.go [] uids ↔ uid ∈ uids := by
  induction uids with
  | nil => exact Iff.rfl
  | cons first uids ih =>
    rw [go_cons, List.mem_cons, List.mem_cons, List.mem_filter, ih]
    by_cases heq : uid = first <;> simp [heq]

/-- No number is kept twice. -/
theorem nodup_go (uids : List String) : (distinctUids.go [] uids).Nodup := by
  induction uids with
  | nil => exact List.nodup_nil
  | cons uid uids ih =>
    rw [go_cons, List.nodup_cons]
    exact ⟨by simp [List.mem_filter], ih.filter _⟩

/-- The numbers stand in the order of their first occurrences. -/
theorem pairwise_go (uids : List String) :
    (distinctUids.go [] uids).Pairwise fun uid later => uids.idxOf uid < uids.idxOf later := by
  induction uids with
  | nil => exact List.Pairwise.nil
  | cons uid uids ih =>
    rw [go_cons, List.pairwise_cons]
    constructor
    · intro later hlater
      have hne : later ≠ uid := by simpa using (List.mem_filter.mp hlater).2
      rw [List.idxOf_cons_self, List.idxOf_cons_ne _ hne.symm]
      exact Nat.succ_pos _
    · refine (ih.filter _).imp_of_mem ?_
      intro first later hfirst hlater hlt
      have hfirst : first ≠ uid := by simpa using (List.mem_filter.mp hfirst).2
      have hlater : later ≠ uid := by simpa using (List.mem_filter.mp hlater).2
      rw [List.idxOf_cons_ne _ hfirst.symm, List.idxOf_cons_ne _ hlater.symm]
      exact Nat.succ_lt_succ hlt

/-- What follows a list adds the numbers that do not occur in it. -/
theorem go_append (uids more : List String) :
    distinctUids.go [] (uids ++ more) =
      distinctUids.go [] uids ++ (distinctUids.go [] more).filter fun uid => uid ∉ uids := by
  induction uids with
  | nil => simp [distinctUids.go]
  | cons uid uids ih =>
    rw [List.cons_append, go_cons, ih, go_cons, List.filter_append, List.filter_filter,
      List.cons_append]
    congr 2
    refine List.filter_congr fun other _ => ?_
    simp

/-- Numbers without repetitions are all kept. -/
theorem go_eq_self {uids : List String} (hnodup : uids.Nodup) : distinctUids.go [] uids = uids := by
  induction uids with
  | nil => rfl
  | cons uid uids ih =>
    obtain ⟨huid, huids⟩ := List.nodup_cons.mp hnodup
    rw [go_cons, ih huids, List.filter_eq_self.mpr]
    intro other hother
    simpa using ne_of_mem_of_not_mem hother huid

/-- The numbers of a list of pods are given back without repetitions, in the order in which they
first occur, and nothing else about the pods matters. Of a second list behind the first one only the
numbers that do not occur in the first are added, and going through the numbers again changes
nothing. -/
theorem distinctUids_firstOccurrences (pods : List Pod) :
    let uids := pods.map Pod.uid
    (distinctUids pods).Nodup ∧ (∀ uid, uid ∈ distinctUids pods ↔ uid ∈ uids) ∧
      (distinctUids pods).Pairwise (fun uid later => uids.idxOf uid < uids.idxOf later) ∧
      (∀ others : List Pod, others.map Pod.uid = uids → distinctUids others = distinctUids pods) ∧
      (∀ more, distinctUids (pods ++ more) =
        distinctUids pods ++ (distinctUids more).filter fun uid => uid ∉ uids) ∧
      ∀ again : List Pod, again.map Pod.uid = distinctUids pods →
        distinctUids again = distinctUids pods := by
  intro uids
  refine ⟨nodup_go uids, fun uid => mem_go, pairwise_go uids, ?_, ?_, ?_⟩
  · intro others hothers
    rw [distinctUids, hothers, distinctUids]
  · intro more
    rw [distinctUids, List.map_append, go_append, distinctUids, distinctUids]
  · intro again hagain
    rw [distinctUids, hagain]
    exact go_eq_self (nodup_go uids)

/-- A pod that is listed twice, once with other fields, is given back once, and so is one that a
second list repeats. -/
theorem distinctUids_firstOccurrences_repeated :
    let pod (uid name : String) : Pod := { blank with uid, name }
    let pods := [pod "0x2" "web", pod "0x1" "web", pod "0x2" "db"]
    let others := [pod "0x2" "", pod "0x1" "job", pod "0x2" "job"]
    let more := [pod "0x3" "db", pod "0x1" "web", pod "0x3" "db"]
    let again := [pod "0x2" "job", pod "0x1" "db"]
    distinctUids pods = ["0x2", "0x1"] ∧ others.map Pod.uid = pods.map Pod.uid ∧
      distinctUids others = distinctUids pods ∧
      distinctUids (pods ++ more) = ["0x2", "0x1", "0x3"] ∧
      again.map Pod.uid = distinctUids pods ∧ distinctUids again = distinctUids pods := by
  intro pod pods others more again
  obtain ⟨-, -, -, hothers, hmore, hagain⟩ := distinctUids_firstOccurrences pods
  have hsame : others.map Pod.uid = pods.map Pod.uid := by decide
  have huids : again.map Pod.uid = distinctUids pods := by decide
  exact ⟨by decide, hsame, hothers others hsame, (hmore more).trans (by decide), huids,
    hagain again huids⟩

end PodCosts.Pod
