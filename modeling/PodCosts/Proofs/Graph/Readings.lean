import PodCosts.Graph.Evaluation
import Mathlib.Data.Option.NAry

/-!
# What nodes record and what expressions make of it

A predicate of a node is read as a time or as a number. A variable bound to a readable predicate
holds exactly that reading, and an expression over variables that hold numbers is absent exactly
where one of its variables is unbound.
-/

namespace PodCosts

namespace Vertex

/-- The time a node records under a predicate. -/
def moment? (vertex : Vertex) (predicate : String) : Option Instant :=
  match vertex.scalar? predicate with
  | some (.string text) => Timestamp.read? text
  | _ => none

/-- The number a node records under a predicate. -/
def number? (vertex : Vertex) (predicate : String) : Option Float :=
  match vertex.scalar? predicate with
  | some (.number value) => some value.toFloat
  | _ => none

/-- A node records a readable time under a predicate, or nothing. -/
def TimeOrNothing (vertex : Vertex) (predicate : String) : Prop :=
  (vertex.scalar? predicate).isSome → (vertex.moment? predicate).isSome

instance (vertex : Vertex) (predicate : String) : Decidable (vertex.TimeOrNothing predicate) :=
  inferInstanceAs (Decidable (_ → _))

/-- A node records a number under a predicate, or nothing. -/
def NumberOrNothing (vertex : Vertex) (predicate : String) : Prop :=
  (vertex.scalar? predicate).isSome → (vertex.number? predicate).isSome

instance (vertex : Vertex) (predicate : String) : Decidable (vertex.NumberOrNothing predicate) :=
  inferInstanceAs (Decidable (_ → _))

/-- Only a string is read as a time. -/
theorem moment?_eq_some {vertex : Vertex} {predicate : String} {moment : Instant}
    (hmoment : vertex.moment? predicate = some moment) :
    ∃ text, vertex.scalar? predicate = some (.string text) ∧
      Timestamp.read? text = some moment := by
  unfold moment? at hmoment
  split at hmoment
  · rename_i text htext
    exact ⟨text, htext, hmoment⟩
  · cases hmoment

/-- Only a number is read as a number. -/
theorem number?_eq_some {vertex : Vertex} {predicate : String} {amount : Float}
    (hamount : vertex.number? predicate = some amount) :
    ∃ number, vertex.scalar? predicate = some (.number number) ∧ number.toFloat = amount := by
  unfold number? at hamount
  split at hamount
  · rename_i number hnumber
    exact ⟨number, hnumber, Option.some.inj hamount⟩
  · cases hamount

/-- Nothing is read from nothing. -/
theorem moment?_eq_none {vertex : Vertex} {predicate : String}
    (hvalue : vertex.scalar? predicate = none) : vertex.moment? predicate = none := by
  rw [moment?, hvalue]

/-- Where nothing is recorded there is no number. -/
theorem number?_eq_none {vertex : Vertex} {predicate : String}
    (hvalue : vertex.scalar? predicate = none) : vertex.number? predicate = none := by
  rw [number?, hvalue]

/-- Where a time or nothing is recorded, it is bound as that time or as nothing. -/
theorem map_ofJson_of_time {vertex : Vertex} {predicate : String}
    (htime : vertex.TimeOrNothing predicate) :
    (vertex.scalar? predicate).map Bound.ofJson = (vertex.moment? predicate).map Bound.time := by
  cases hvalue : vertex.scalar? predicate with
  | none => rw [moment?_eq_none hvalue]; rfl
  | some value =>
    obtain ⟨moment, hmoment⟩ := Option.isSome_iff_exists.mp (htime (by rw [hvalue]; rfl))
    obtain ⟨text, htext, hread⟩ := moment?_eq_some hmoment
    rw [hmoment, ← hvalue, htext]
    simp only [Option.map_some, Bound.ofJson, hread]

/-- Where a number or nothing is recorded, it is bound as that number or as nothing. -/
theorem map_ofJson_of_number {vertex : Vertex} {predicate : String}
    (hnumber : vertex.NumberOrNothing predicate) :
    (vertex.scalar? predicate).map Bound.ofJson = (vertex.number? predicate).map Bound.number := by
  cases hvalue : vertex.scalar? predicate with
  | none => rw [number?_eq_none hvalue]; rfl
  | some value =>
    obtain ⟨amount, hamount⟩ := Option.isSome_iff_exists.mp (hnumber (by rw [hvalue]; rfl))
    obtain ⟨number, hvalue', rfl⟩ := number?_eq_some hamount
    rw [hamount, ← hvalue, hvalue']
    rfl

/-- Without edges under a predicate that holds a time, it is counted exactly if it is there. -/
theorem count_of_time {vertex : Vertex} {predicate : String}
    (htime : vertex.TimeOrNothing predicate) (hedges : vertex.targets predicate = []) :
    vertex.count predicate = if (vertex.moment? predicate).isSome then 1 else 0 := by
  rw [count, hedges]
  cases hvalue : vertex.scalar? predicate with
  | none => rw [moment?_eq_none hvalue]; rfl
  | some value =>
    have hread := htime (by rw [hvalue]; rfl)
    rw [if_pos hread]
    rfl

end Vertex

namespace Expr

section

variable {ν : Type}

/-- The result of an operation on two results. -/
def combined (operation : ν → ν → Except EvaluationError ν)
    (left right : Except EvaluationError (Option ν)) : Except EvaluationError (Option ν) := do
  match ← left, ← right with
  | some x, some y => (operation x y).map some
  | _, _ => .ok none

variable [Arithmetic ν] {now : Instant} {scope : Scope ν}

/-- Both operands of an operation are evaluated before they are combined. -/
theorem eval_binary (op : BinaryOp) (left right : Expr ν) :
    (binary op left right).eval now scope =
      combined (apply op) (left.eval now scope) (right.eval now scope) := rfl

/-- Both numbers are evaluated before the smaller one is taken. -/
theorem eval_least_eq (left right : Expr ν) :
    (least left right).eval now scope =
      combined (fun x y => .ok (Arithmetic.least x y)) (left.eval now scope)
        (right.eval now scope) := rfl

/-- Both numbers are evaluated before the greater one is taken. -/
theorem eval_most_eq (left right : Expr ν) :
    (most left right).eval now scope =
      combined (fun x y => .ok (Arithmetic.most x y)) (left.eval now scope)
        (right.eval now scope) := rfl

end

variable {now : Instant} {scope : Scope Float}

/-- A literal is its own value. -/
theorem eval_literal (value : Float) : (literal value).eval now scope = .ok (some value) := rfl

/-- A variable that holds a number or nothing has that value. -/
theorem eval_var {name : String} {value? : Option Float}
    (hbound : Fields.get? name scope = value?.map Bound.number) :
    (var name).eval now scope = .ok value? := by
  rw [eval, hbound]
  cases value? <;> rfl

/-- A variable that holds a number has it as its value. -/
theorem eval_var_of_some {name : String} {value : Float}
    (hbound : Fields.get? name scope = some (.number value)) :
    (var name).eval now scope = .ok (some value) := by
  have hfound : Fields.get? name scope = (some value).map Bound.number := hbound
  exact eval_var hfound

/-- The time since a moment is counted in seconds up to the present. -/
theorem eval_since {name : String} {moment? : Option Instant}
    (hbound : Fields.get? name scope = moment?.map Bound.time) :
    (since name).eval now scope = .ok (moment?.map fun moment => moment.secondsUntil now) := by
  rw [eval, hbound]
  cases moment? <;> rfl

/-- The smaller of two numbers, if there are both. -/
theorem eval_least {left right : Expr Float} {x? y? : Option Float}
    (hleft : left.eval now scope = .ok x?) (hright : right.eval now scope = .ok y?) :
    (least left right).eval now scope = .ok (Option.map₂ Arithmetic.least x? y?) := by
  rw [eval_least_eq, hleft, hright]
  cases x? <;> cases y? <;> rfl

/-- The greater of two numbers, if there are both. -/
theorem eval_most {left right : Expr Float} {x? y? : Option Float}
    (hleft : left.eval now scope = .ok x?) (hright : right.eval now scope = .ok y?) :
    (most left right).eval now scope = .ok (Option.map₂ Arithmetic.most x? y?) := by
  rw [eval_most_eq, hleft, hright]
  cases x? <;> cases y? <;> rfl

/-- The difference of two numbers, if there are both. -/
theorem eval_sub {left right : Expr Float} {x? y? : Option Float}
    (hleft : left.eval now scope = .ok x?) (hright : right.eval now scope = .ok y?) :
    (binary .sub left right).eval now scope = .ok (Option.map₂ Arithmetic.sub x? y?) := by
  rw [eval_binary, hleft, hright]
  cases x? <;> cases y? <;> rfl

/-- The product of two numbers, if there are both. -/
theorem eval_mul {left right : Expr Float} {x? y? : Option Float}
    (hleft : left.eval now scope = .ok x?) (hright : right.eval now scope = .ok y?) :
    (binary .mul left right).eval now scope = .ok (Option.map₂ Arithmetic.mul x? y?) := by
  rw [eval_binary, hleft, hright]
  cases x? <;> cases y? <;> rfl

/-- Dividing by a literal other than zero never fails. -/
theorem eval_div_literal {left : Expr Float} {x? : Option Float} {divisor : Float}
    (hleft : left.eval now scope = .ok x?) (hdivisor : Arithmetic.isZero divisor = false) :
    (binary .div left (.literal divisor)).eval now scope =
      .ok (x?.map fun x => Arithmetic.div x divisor) := by
  rw [eval_binary, hleft, eval_literal]
  cases x? with
  | none => rfl
  | some x =>
    change (apply .div x divisor).map some = _
    rw [apply, hdivisor]
    rfl

/-- Only the chosen branch of a choice is evaluated. -/
theorem eval_choose {left right yes no : Expr Float} {x y : Float}
    (hleft : left.eval now scope = .ok (some x)) (hright : right.eval now scope = .ok (some y)) :
    (choose left right yes no).eval now scope =
      if Arithmetic.same x y then yes.eval now scope else no.eval now scope := by
  rw [eval, hleft, hright]
  rfl

end Expr

end PodCosts
