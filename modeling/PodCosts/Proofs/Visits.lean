import Mathlib.Data.List.Forall2

/-!
# Visiting a list

Lists are visited item by item, and the visit gives results only if each item has one. The results
then stand in the order of the items.
-/

namespace PodCosts

variable {ε α β γ : Type}

/-- What goes on with a result has the result it goes on with. -/
theorem exists_of_bind_eq_ok {first : Except ε α} {next : α → Except ε β} {result : β}
    (h : first >>= next = .ok result) :
    ∃ between, first = .ok between ∧ next between = .ok result := by
  cases first with
  | error error => cases h
  | ok between => exact ⟨between, rfl, h⟩

/-- What goes on with a result may use that there is one. -/
theorem bind_congr_of_ok {first : Except ε α} {next other : α → Except ε β}
    (hnext : ∀ result, first = .ok result → next result = other result) :
    first >>= next = first >>= other := by
  cases first with
  | error error => rfl
  | ok result => exact hnext result rfl

/-- Where every item of a list has a result, the list has the results in order. -/
theorem exists_mapM_eq_ok {step : α → Except ε β} {related : α → β → Prop} {items : List α}
    (hstep : ∀ item ∈ items, ∃ result, step item = .ok result ∧ related item result) :
    ∃ results, items.mapM step = .ok results ∧ List.Forall₂ related items results := by
  induction items with
  | nil => exact ⟨[], rfl, .nil⟩
  | cons item items ih =>
    obtain ⟨result, hresult, hrelated⟩ := hstep item List.mem_cons_self
    obtain ⟨results, hresults, hall⟩ :=
      ih fun other hother => hstep other (List.mem_cons_of_mem _ hother)
    refine ⟨result :: results, ?_, .cons hrelated hall⟩
    rw [List.mapM_cons, hresult, hresults]
    rfl

/-- Where the result of every item is known, the list has these results in order. -/
theorem mapM_eq_ok_map {step : α → Except ε β} {result : α → β} {items : List α}
    (hstep : ∀ item ∈ items, step item = .ok (result item)) :
    items.mapM step = .ok (items.map result) := by
  have hresult : ∀ item ∈ items, ∃ found, step item = .ok found ∧ result item = found :=
    fun item hitem => ⟨result item, hstep item hitem, rfl⟩
  obtain ⟨results, hresults, hall⟩ := exists_mapM_eq_ok hresult
  have hsame : List.Forall₂ Eq (items.map result) results := List.forall₂_map_left_iff.mpr hall
  rw [List.forall₂_eq_eq_eq] at hsame
  rw [hresults, hsame]

/-- Where the result of every item is known, so are the results of the list. -/
theorem mapM_eq_some_map {step : α → Option β} {result : α → β} {items : List α}
    (hstep : ∀ item ∈ items, step item = some (result item)) :
    items.mapM step = some (items.map result) := by
  induction items with
  | nil => rfl
  | cons item items ih =>
    rw [List.mapM_cons, hstep item List.mem_cons_self,
      ih fun other hother => hstep other (List.mem_cons_of_mem _ hother)]
    rfl

/-- Where every item of a list has a result, the list has results. -/
theorem exists_mapM_eq_some {step : α → Option β} {items : List α}
    (hstep : ∀ item ∈ items, ∃ result, step item = some result) :
    ∃ results, items.mapM step = some results := by
  induction items with
  | nil => exact ⟨[], rfl⟩
  | cons item items ih =>
    obtain ⟨result, hresult⟩ := hstep item List.mem_cons_self
    obtain ⟨results, hresults⟩ := ih fun other hother => hstep other (List.mem_cons_of_mem _ hother)
    refine ⟨result :: results, ?_⟩
    rw [List.mapM_cons, hresult, hresults]
    rfl

/-- Changing each result is changing the list of results. -/
theorem mapM_map_eq (step : α → Option β) (change : β → γ) (items : List α) :
    (items.mapM fun item => (step item).map change) = (items.mapM step).map (List.map change) := by
  induction items with
  | nil => rfl
  | cons item items ih =>
    rw [List.mapM_cons, List.mapM_cons, ih]
    cases step item with
    | none => rfl
    | some result => cases items.mapM step <;> rfl

/-- The results of a visit belong to its items one by one. -/
theorem forall₂_of_mapM_eq_some {step : α → Option β} {items : List α} {results : List β}
    (hresults : items.mapM step = some results) :
    List.Forall₂ (fun item result => step item = some result) items results := by
  induction items generalizing results with
  | nil =>
    cases hresults
    exact .nil
  | cons item items ih =>
    rw [List.mapM_cons] at hresults
    simp only [Option.bind_eq_bind, Option.bind_eq_some_iff, Option.pure_def] at hresults
    obtain ⟨result, hresult, others, hothers, ⟨⟩⟩ := hresults
    exact .cons hresult (ih hothers)

/-- What belongs to the items one by one is what a visit results in. -/
theorem mapM_eq_some_of_forall₂ {step : α → Option β} {items : List α} {results : List β}
    (hall : List.Forall₂ (fun item result => step item = some result) items results) :
    items.mapM step = some results := by
  induction hall with
  | nil => rfl
  | cons hfirst _ ih =>
    rw [List.mapM_cons, hfirst, ih]
    rfl

/-- The results of a visit that may fail belong to its items one by one. -/
theorem forall₂_of_mapM_eq_ok {step : α → Except ε β} {items : List α} {results : List β}
    (hresults : items.mapM step = .ok results) :
    List.Forall₂ (fun item result => step item = .ok result) items results := by
  induction items generalizing results with
  | nil =>
    cases hresults
    exact .nil
  | cons item items ih =>
    rw [List.mapM_cons] at hresults
    obtain ⟨result, hresult, hrest⟩ := exists_of_bind_eq_ok hresults
    obtain ⟨others, hothers, hlist⟩ := exists_of_bind_eq_ok hrest
    cases hlist
    exact .cons hresult (ih hothers)

/-- Where every result of one visit has a result in a second one, the second one has results. -/
theorem exists_mapM_of_forall₂ {step : β → Option γ} {related : α → β → Prop} {shown : α → γ → Prop}
    {items : List α} {inputs : List β} (hall : List.Forall₂ related items inputs)
    (hstep : ∀ item ∈ items, ∀ input ∈ inputs, related item input →
      ∃ result, step input = some result ∧ shown item result) :
    ∃ results, inputs.mapM step = some results ∧ List.Forall₂ shown items results := by
  induction hall with
  | nil => exact ⟨[], rfl, .nil⟩
  | cons hfirst _ ih =>
    obtain ⟨result, hresult, hshown⟩ := hstep _ List.mem_cons_self _ List.mem_cons_self hfirst
    obtain ⟨results, hresults, hrest⟩ := ih fun item hitem input hinput =>
      hstep item (List.mem_cons_of_mem _ hitem) input (List.mem_cons_of_mem _ hinput)
    refine ⟨result :: results, ?_, .cons hshown hrest⟩
    rw [List.mapM_cons, hresult, hresults]
    rfl

/-- Every result belongs to some item. -/
theorem exists_of_mem_forall₂ {related : α → β → Prop} {items : List α} {results : List β}
    (hall : List.Forall₂ related items results) {result : β} (hresult : result ∈ results) :
    ∃ item ∈ items, related item result := by
  induction hall with
  | nil => cases hresult
  | cons hfirst _ ih =>
    obtain rfl | hresult := List.mem_cons.mp hresult
    · exact ⟨_, List.mem_cons_self, hfirst⟩
    · obtain ⟨item, hitem, hrelated⟩ := ih hresult
      exact ⟨item, List.mem_cons_of_mem _ hitem, hrelated⟩

/-- Results that contribute one value each contribute the values of their items. -/
theorem flatMap_of_forall₂ {each : β → List γ} {value : α → γ} {items : List α} {results : List β}
    (hall : List.Forall₂ (fun item result => each result = [value item]) items results) :
    results.flatMap each = items.map value := by
  induction hall with
  | nil => rfl
  | cons hfirst _ ih => rw [List.flatMap_cons, hfirst, ih, List.map_cons, List.singleton_append]

/-- Items and results that agree on something one by one agree on it in order. -/
theorem map_eq_map_of_forall₂ {first : α → γ} {second : β → γ} {items : List α} {results : List β}
    (hall : List.Forall₂ (fun item result => first item = second result) items results) :
    items.map first = results.map second := by
  induction hall with
  | nil => rfl
  | cons hfirst _ ih => rw [List.map_cons, List.map_cons, hfirst, ih]

end PodCosts
