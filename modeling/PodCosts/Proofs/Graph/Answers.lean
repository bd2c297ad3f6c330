import PodCosts.Proofs.Graph.Reachable
import PodCosts.Proofs.Graph.Selecting

/-!
# Answers that can be written

The keys of the answer for a node ascend, and the answer can be written where the answered values
can. Every value that is answered keeps both. What holds of each value that a selection may answer
therefore holds of the answer to a row of selections.
-/

namespace PodCosts.Picked

variable {picked : Picked}

/-- The keys of the empty answer ascend. -/
theorem sorted_fields_nothing : Fields.Sorted nothing.fields :=
  Fields.sorted_nil

/-- The empty answer can be written. -/
theorem finite_fields_nothing : Json.FieldsFinite nothing.fields :=
  trivial

/-- One more answered value keeps the keys ascending. -/
theorem sorted_fields_answer (hsorted : Fields.Sorted picked.fields) (key? : Option String)
    (value? : Option Json) : Fields.Sorted (picked.answer key? value?).fields := by
  unfold answer
  split
  · exact hsorted.insert _ _
  · exact hsorted

/-- What holds of all answers and of the next one holds of all answers behind it. -/
theorem forall_fields_answer {good : String → Json → Prop}
    (hpicked : ∀ field ∈ picked.fields, good field.1 field.2) {key? : Option String}
    {value? : Option Json} (hvalue : ∀ key ∈ key?, ∀ value ∈ value?, good key value) :
    ∀ field ∈ (picked.answer key? value?).fields, good field.1 field.2 := by
  unfold answer
  split
  · rename_i key value
    intro field hfield
    obtain rfl | hfield := Fields.mem_of_mem_insert hfield
    · exact hvalue key rfl value rfl
    · exact hpicked field hfield
  · exact hpicked

/-- An answer to which a value is added can be written if the value can. -/
theorem finite_fields_answer (hfinite : Json.FieldsFinite picked.fields) (key? : Option String)
    {value? : Option Json} (hvalue : ∀ value ∈ value?, value.Finite) :
    Json.FieldsFinite (picked.answer key? value?).fields :=
  Json.fieldsFinite_iff.mpr <| forall_fields_answer (Json.fieldsFinite_iff.mp hfinite)
    fun _ _ => hvalue

end PodCosts.Picked

namespace PodCosts.Selection

/-- Whether a value may be answered for a selection from a node. -/
def MayAnswer (vertex : Vertex) (value : Json) : Selection → Prop
  | .uid _ => ∃ uid : Uid, value = .string uid.text
  | .predicate _ name => vertex.scalar? name = some value
  | .count _ _ => ∃ count : Nat, value = .number (.int count)
  | .math _ _ => ∃ number : Float, number.isFinite = true ∧ value = .number (.float number)
  | .edge _ _ _ _ => ∃ picks, value = .array (Picked.objects picks)

variable {graph : Graph} {uid : Uid} {vertex : Vertex} {picked next : Picked}

/-- A selection answers at most one value that it may answer. -/
theorem exists_fields_eq_of_pick {selection : Selection}
    (hpick : pick graph uid vertex picked selection = .ok next) :
    ∃ value?, next.fields = (picked.answer selection.key? value?).fields ∧
      ∀ value ∈ value?, selection.MayAnswer vertex value := by
  cases selection with
  | uid tag =>
      rw [pick_uid] at hpick
      cases hpick
      refine ⟨_, rfl, ?_⟩
      rintro value ⟨⟩
      exact ⟨uid, rfl⟩
  | predicate tag name =>
      rw [pick_predicate] at hpick
      cases hpick
      exact ⟨_, Picked.fields_answer_congr (picked.fields_bind _ _) _ _, fun value hvalue => hvalue⟩
  | count tag name =>
      rw [pick_count] at hpick
      cases hpick
      refine ⟨_, Picked.fields_answer_congr (picked.fields_bind _ _) _ _, ?_⟩
      rintro value ⟨⟩
      exact ⟨vertex.count name, rfl⟩
  | math tag expr =>
      obtain ⟨value?, -, rfl⟩ := exists_eval_of_pick_math hpick
      refine ⟨_, Picked.fields_answer_congr (picked.fields_bind _ _) _ _, ?_⟩
      intro value hanswer
      obtain ⟨number, hnumber, rfl⟩ := Option.map_eq_some_iff.mp hanswer
      exact ⟨number, (Option.filter_eq_some_iff.mp hnumber).2, rfl⟩
  | edge tag path filter? selections =>
      obtain ⟨picks, -, rfl⟩ := exists_picks_of_pick_edge hpick
      refine ⟨_, fields_edgePicked .., fun value hanswer => ?_⟩
      split_ifs at hanswer
      · cases hanswer
      · exact ⟨picks, (Option.some.inj hanswer).symm⟩

/-- What every answer that one of the selections may give keeps, the row of selections keeps. -/
theorem kept_of_pickAll (kept : List (String × Json) → Prop) {selections : List Selection}
    (hpick : pickAll graph uid vertex picked selections = .ok next) (hpicked : kept picked.fields)
    (hanswer : ∀ selection ∈ selections, ∀ before : Picked, ∀ value?, kept before.fields →
      (∀ value ∈ value?, selection.MayAnswer vertex value) →
        kept (before.answer selection.key? value?).fields) : kept next.fields := by
  induction selections generalizing picked with
  | nil =>
      rw [pickAll_nil] at hpick
      cases hpick
      exact hpicked
  | cons selection rest ih =>
      obtain ⟨between, hstep, hrest⟩ := exists_pick_of_pickAll_cons hpick
      obtain ⟨value?, hfields, hvalue⟩ := exists_fields_eq_of_pick hstep
      refine ih hrest ?_ fun other hother => hanswer other (List.mem_cons_of_mem _ hother)
      rw [hfields]
      exact hanswer selection List.mem_cons_self picked value? hpicked hvalue

/-- What holds of every value that one of the selections may answer holds of their whole answer. -/
theorem forall_fields_of_pickAll {good : String → Json → Prop} {selections : List Selection}
    (hpick : pickAll graph uid vertex picked selections = .ok next)
    (hpicked : ∀ field ∈ picked.fields, good field.1 field.2)
    (hgood : ∀ selection ∈ selections, ∀ key ∈ selection.key?, ∀ value,
      selection.MayAnswer vertex value → good key value) :
    ∀ field ∈ next.fields, good field.1 field.2 := by
  refine kept_of_pickAll (fun fields => ∀ field ∈ fields, good field.1 field.2) hpick hpicked ?_
  intro selection hselection before value? hbefore hvalue
  exact Picked.forall_fields_answer hbefore fun key hkey value hanswer =>
    hgood selection hselection key hkey value (hvalue value hanswer)

/-- Selections leave what is answered under other keys as it was. -/
theorem get?_fields_of_pickAll {key : String} {selections : List Selection}
    (hkeys : ∀ selection ∈ selections, key ∉ selection.key?)
    (hpick : pickAll graph uid vertex picked selections = .ok next) :
    Fields.get? key next.fields = Fields.get? key picked.fields := by
  refine kept_of_pickAll (fun fields => Fields.get? key fields = Fields.get? key picked.fields)
    hpick rfl ?_
  intro selection hselection before value? hbefore _
  cases hheld : selection.key? with
  | none => rw [Picked.answer_none, hbefore]
  | some other =>
    have hne : other ≠ key := by
      rintro rfl
      exact hkeys selection hselection hheld
    rw [Picked.get?_fields_answer_of_ne hne before value?, hbefore]

/-- Nothing that has been answered is taken back. -/
theorem fields_ne_nil_of_pickAll {selections : List Selection}
    (hpick : pickAll graph uid vertex picked selections = .ok next) (hfields : picked.fields ≠ []) :
    next.fields ≠ [] :=
  kept_of_pickAll (· ≠ []) hpick hfields
    fun _ _ _ _ hbefore _ => Picked.fields_answer_ne_nil hbefore _ _

/-- Selections keep the keys of an answer ascending. -/
theorem sorted_fields_of_pickAll {selections : List Selection}
    (hpick : pickAll graph uid vertex picked selections = .ok next)
    (hsorted : Fields.Sorted picked.fields) : Fields.Sorted next.fields :=
  kept_of_pickAll Fields.Sorted hpick hsorted
    fun _ _ _ _ hbefore _ => Picked.sorted_fields_answer hbefore _ _

/-- A node that something is counted for has an answer. -/
theorem fields_ne_nil_of_count {tag : Tag} {counted : String} {selections : List Selection}
    (hcount : .count tag counted ∈ selections)
    (hpick : pickAll graph uid vertex picked selections = .ok next) : next.fields ≠ [] := by
  obtain ⟨first, rest, rfl⟩ := List.append_of_mem hcount
  rw [pickAll_append] at hpick
  obtain ⟨before, -, hpick⟩ := exists_of_bind_eq_ok hpick
  obtain ⟨between, hstep, hrest⟩ := exists_pick_of_pickAll_cons hpick
  refine fields_ne_nil_of_pickAll hrest ?_
  rw [pick_count] at hstep
  cases hstep
  cases hkey : (count tag counted).key? with
  | none => cases tag with | mk rename? bind? => cases rename? <;> cases hkey
  | some key => exact Fields.insert_ne_nil _ _ _

end PodCosts.Selection
