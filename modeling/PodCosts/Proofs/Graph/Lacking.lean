import PodCosts.Proofs.Graph.Answers

/-!
# What is missing for want of a value

A node that has no value under a predicate binds no variable to it. Expressions over variables that
are not bound have no value either, so the variables bound to them stay unbound as well and nothing
is answered under their keys. Which selections are concerned can be read off the request.
-/

namespace PodCosts

/-- Whether an expression needs one of some variables to have a value. Of a choice only one branch
is evaluated. -/
def Expr.needs (names : List String) : Expr Float → Bool
  | .literal _ => false
  | .var name | .since name => names.contains name
  | .binary _ left right | .least left right | .most left right =>
    left.needs names || right.needs names
  | .choose left right yes no =>
    left.needs names || right.needs names || (yes.needs names && no.needs names)

/-- Operands that together have a value have one each, if the absence of either is passed on. -/
private theorem Expr.exists_operands {left right : Except EvaluationError (Option Float)}
    {join : Option Float → Option Float → Except EvaluationError (Option Float)} {value : Float}
    (heval : (left >>= fun x? => right >>= fun y? => join x? y?) = .ok (some value))
    (hleft : ∀ y?, join none y? = .ok none) (hright : ∀ x?, join x? none = .ok none) :
    ∃ x y, left = .ok (some x) ∧ right = .ok (some y) := by
  obtain ⟨x?, hx, heval⟩ := exists_of_bind_eq_ok heval
  obtain ⟨y?, hy, heval⟩ := exists_of_bind_eq_ok heval
  cases x? with
  | none =>
    rw [hleft] at heval
    cases heval
  | some x =>
    cases y? with
    | none =>
      rw [hright] at heval
      cases heval
    | some y => exact ⟨x, y, hx, hy⟩

/-- An expression that needs an unbound variable has no value. -/
theorem Expr.eval_ne_some_of_needs {names : List String} {now : Instant} {scope : Scope Float}
    (hunbound : ∀ name ∈ names, Fields.get? name scope = none) {expr : Expr Float}
    (hneeds : expr.needs names = true) (value : Float) :
    expr.eval now scope ≠ .ok (some value) := by
  intro heval
  induction expr generalizing value with
  | literal value => cases hneeds
  | var name =>
    rw [eval, hunbound name (by simpa [needs] using hneeds)] at heval
    cases heval
  | since name =>
    rw [eval, hunbound name (by simpa [needs] using hneeds)] at heval
    cases heval
  | binary op left right ihleft ihright | least left right ihleft ihright
  | most left right ihleft ihright =>
    rw [eval] at heval
    obtain ⟨x, y, hx, hy⟩ := exists_operands heval (fun _ => rfl) (by rintro (_ | _) <;> rfl)
    rcases Bool.or_eq_true_iff.mp hneeds with h | h
    · exact ihleft h x hx
    · exact ihright h y hy
  | choose left right yes no ihleft ihright ihyes ihno =>
    rw [eval] at heval
    obtain ⟨x, y, hx, hy⟩ := exists_operands heval (fun _ => rfl) (by rintro (_ | _) <;> rfl)
    rw [hx, hy] at heval
    simp only [needs, Bool.or_eq_true, Bool.and_eq_true] at hneeds
    rcases hneeds with (h | h) | ⟨hyes, hno⟩
    · exact ihleft h x hx
    · exact ihright h y hy
    · change (if Arithmetic.same x y then yes.eval now scope else no.eval now scope) = _ at heval
      split_ifs at heval
      · exact ihyes hyes value heval
      · exact ihno hno value heval

namespace Picked

/-- Some variables are not bound, and nothing is answered under some keys. -/
structure Lacks (picked : Picked) (names keys : List String) : Prop where
  unbound : ∀ name ∈ names, Fields.get? name picked.scope = none
  unanswered : ∀ key ∈ keys, Fields.get? key picked.fields = none

variable {picked : Picked} {names keys : List String}

/-- The empty answer lacks everything. -/
theorem lacks_nothing (names keys : List String) : nothing.Lacks names keys :=
  ⟨fun _ _ => rfl, fun _ _ => rfl⟩

/-- A lacking variable is not bound by binding another one, or to nothing. -/
theorem Lacks.bind (h : picked.Lacks names keys) {name? : Option String}
    {value? : Option (Bound Float)} (hname : value? = none ∨ ∀ name ∈ name?, name ∉ names) :
    (picked.bind name? value?).Lacks names keys where
  unbound other hother := by
    cases name? with
    | none => exact h.unbound other hother
    | some name =>
      rcases hname with rfl | hname
      · exact h.unbound other hother
      · have hne : name ≠ other := fun heq => hname name rfl (heq ▸ hother)
        rw [get?_scope_bind_of_ne hne]
        exact h.unbound other hother
  unanswered other hother := by
    rw [fields_bind]
    exact h.unanswered other hother

/-- A lacking key is not answered by answering another one, or nothing. -/
theorem Lacks.answer (h : picked.Lacks names keys) {key? : Option String} {value? : Option Json}
    (hkey : value? = none ∨ ∀ key ∈ key?, key ∉ keys) :
    (picked.answer key? value?).Lacks names keys where
  unbound other hother := by
    rw [scope_answer]
    exact h.unbound other hother
  unanswered other hother := by
    cases key? with
    | none => exact h.unanswered other hother
    | some key =>
      rcases hkey with rfl | hkey
      · exact h.unanswered other hother
      · have hne : key ≠ other := fun heq => hkey key rfl (heq ▸ hother)
        rw [get?_fields_answer_of_ne hne]
        exact h.unanswered other hother

end Picked

namespace Selection

/-- Whether a selection binds none of some variables and answers none of some keys. -/
def spares (names keys : List String) (selection : Selection) : Bool :=
  selection.tag.bind?.all (!names.contains ·) && selection.key?.all (!keys.contains ·)

/-- Whether a selection leaves some variables and some keys without a value on nodes that have none
under some predicates. -/
def starves (absent names keys : List String) (selection : Selection) : Bool :=
  selection.spares names keys ||
    match selection with
    | .predicate _ name => absent.contains name
    | .math _ expr => expr.needs names
    | _ => false

section

variable {graph : Graph} {uid : Uid} {vertex : Vertex} {picked next : Picked}
  {absent names keys : List String}

/-- A sparing selection binds none of the variables and answers none of the keys. -/
theorem not_mem_of_spares {selection : Selection} (h : selection.spares names keys = true) :
    (∀ name ∈ selection.tag.bind?, name ∉ names) ∧ ∀ key ∈ selection.key?, key ∉ keys := by
  simpa [spares, Option.all_eq_true] using h

/-- A starving selection leaves lacking what was lacking in front of it. -/
theorem lacks_of_pick (habsent : ∀ name ∈ absent, vertex.scalar? name = none)
    {selection : Selection} (hstarves : selection.starves absent names keys = true)
    (hpicked : picked.Lacks names keys)
    (hpick : pick graph uid vertex picked selection = .ok next) : next.Lacks names keys := by
  have hcases := Bool.or_eq_true_iff.mp hstarves
  cases selection with
  | uid tag =>
    obtain ⟨-, hkey⟩ := not_mem_of_spares (hcases.resolve_right nofun)
    rw [pick_uid] at hpick
    cases hpick
    exact hpicked.answer (.inr hkey)
  | predicate tag name =>
    rw [pick_predicate] at hpick
    cases hpick
    rcases hcases with hspares | hname
    · obtain ⟨hname, hkey⟩ := not_mem_of_spares hspares
      exact (hpicked.bind (.inr hname)).answer (.inr hkey)
    · have hvalue := habsent name (List.contains_iff_mem.mp hname)
      rw [hvalue]
      exact (hpicked.bind (.inl rfl)).answer (.inl rfl)
  | count tag name =>
    obtain ⟨hname, hkey⟩ := not_mem_of_spares (hcases.resolve_right nofun)
    rw [pick_count] at hpick
    cases hpick
    exact (hpicked.bind (.inr hname)).answer (.inr hkey)
  | math tag expr =>
    obtain ⟨value?, heval, rfl⟩ := exists_eval_of_pick_math hpick
    rcases hcases with hspares | hneeds
    · obtain ⟨hname, hkey⟩ := not_mem_of_spares hspares
      exact (hpicked.bind (.inr hname)).answer (.inr hkey)
    · cases value? with
      | none => exact (hpicked.bind (.inl rfl)).answer (.inl rfl)
      | some value =>
        exact absurd heval (Expr.eval_ne_some_of_needs hpicked.unbound hneeds value)
  | edge tag path filter? selections =>
    obtain ⟨-, hkey⟩ := not_mem_of_spares (hcases.resolve_right nofun)
    obtain ⟨picks, -, rfl⟩ := exists_picks_of_pick_edge hpick
    refine ⟨fun name hname => ?_, fun key hmem => ?_⟩
    · rw [scope_edgePicked]
      exact hpicked.unbound name hname
    · rw [fields_edgePicked]
      exact (hpicked.answer (.inr hkey)).unanswered key hmem

/-- Starving selections leave lacking what was lacking in front of them. -/
theorem lacks_of_pickAll (habsent : ∀ name ∈ absent, vertex.scalar? name = none)
    {selections : List Selection}
    (hstarves : ∀ selection ∈ selections, selection.starves absent names keys = true)
    (hpicked : picked.Lacks names keys)
    (hpick : pickAll graph uid vertex picked selections = .ok next) : next.Lacks names keys := by
  induction selections generalizing picked with
  | nil =>
    rw [pickAll_nil] at hpick
    cases hpick
    exact hpicked
  | cons selection rest ih =>
    obtain ⟨hfirst, hrest⟩ := List.forall_mem_cons.mp hstarves
    obtain ⟨between, hstep, hlater⟩ := exists_pick_of_pickAll_cons hpick
    exact ih hrest (lacks_of_pick habsent hfirst hpicked hstep) hlater

end

end Selection

end PodCosts
