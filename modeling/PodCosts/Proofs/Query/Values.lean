import PodCosts.Proofs.Graph.Readings
import PodCosts.Proofs.Query.Expressions
import Mathlib.Algebra.Field.Rat

/-!
# Values of expressions that are read back

Nesting products to the left changes no value in exact arithmetic: with every variable bound the
only failure is a division by zero, and it surfaces wherever the divisor stands. So an expression
that is read from a rendered one has the value of the one that was rendered.
-/

namespace PodCosts.Expr

section

variable {ν : Type}

/-- Whether a scope binds every variable of an expression: to a time where the time since then is
asked for, and to a number elsewhere. -/
def BoundIn (scope : Scope ν) : Expr ν → Prop
  | .literal _ => True
  | .var name => ∃ value, Fields.get? name scope = some (.number value)
  | .since name => ∃ moment, Fields.get? name scope = some (.time moment)
  | .binary _ left right | .least left right | .most left right =>
    left.BoundIn scope ∧ right.BoundIn scope
  | .choose left right yes no =>
    left.BoundIn scope ∧ right.BoundIn scope ∧ yes.BoundIn scope ∧ no.BoundIn scope

/-- The variables of a product behind a left operand are those of the two. -/
theorem boundIn_graft {scope : Scope ν} {left right : Expr ν} {op : BinaryOp} :
    (graft left op right).BoundIn scope ↔ left.BoundIn scope ∧ right.BoundIn scope := by
  fun_induction graft left op right with
  | case1 first second ih => rw [BoundIn, ih, BoundIn, and_assoc]
  | case2 first second ih => rw [BoundIn, ih, BoundIn, and_assoc]
  | case3 right => rw [BoundIn]

/-- Nesting products to the left leaves every variable bound. -/
theorem boundIn_leftNested {scope : Scope ν} {expr : Expr ν} (h : expr.BoundIn scope) :
    expr.leftNested.BoundIn scope := by
  induction expr with
  | literal value => exact h
  | var name => exact h
  | since name => exact h
  | binary op left right hleft hright =>
      cases op with
      | sub => exact ⟨hleft h.1, hright h.2⟩
      | mul => exact boundIn_graft.mpr ⟨hleft h.1, hright h.2⟩
      | div => exact ⟨hleft h.1, hright h.2⟩
  | least left right hleft hright => exact ⟨hleft h.1, hright h.2⟩
  | most left right hleft hright => exact ⟨hleft h.1, hright h.2⟩
  | choose left right yes no hleft hright hyes hno =>
      exact ⟨hleft h.1, hright h.2.1, hyes h.2.2.1, hno h.2.2.2⟩

/-- A result that is a value or a division by zero. -/
inductive Settled : Except EvaluationError (Option ν) → Prop
  | failure : Settled (.error .divisionByZero)
  | value (x : ν) : Settled (.ok (some x))

/-- An operation with settled results keeps results settled. -/
theorem Settled.combined {operation : ν → ν → Except EvaluationError ν}
    {left right : Except EvaluationError (Option ν)}
    (hoperation : ∀ x y, Settled ((operation x y).map some)) (hleft : Settled left)
    (hright : Settled right) : Settled (combined operation left right) := by
  cases hleft with
  | failure => exact .failure
  | value x =>
      cases hright with
      | failure => exact .failure
      | value y => exact hoperation x y

variable [Arithmetic ν] {now : Instant} {scope : Scope ν}

/-- An operator only fails where it divides by zero. -/
theorem settled_apply (op : BinaryOp) (x y : ν) : Settled ((apply op x y).map some) := by
  cases op with
  | sub => exact .value _
  | mul => exact .value _
  | div =>
      unfold apply
      dsimp only
      split_ifs
      · exact .failure
      · exact .value _

/-- With every variable bound an expression has a value unless it divides by zero. -/
theorem settled_eval {expr : Expr ν} (h : expr.BoundIn scope) : Settled (expr.eval now scope) := by
  induction expr with
  | literal value => exact .value value
  | var name =>
      obtain ⟨value, hvalue⟩ := h
      rw [eval, hvalue]
      exact .value value
  | since name =>
      obtain ⟨moment, hmoment⟩ := h
      rw [eval, hmoment]
      exact .value _
  | binary op left right hleft hright =>
      rw [eval_binary]
      exact (hleft h.1).combined (settled_apply op) (hright h.2)
  | least left right hleft hright =>
      rw [eval_least_eq]
      exact (hleft h.1).combined (fun _ _ => .value _) (hright h.2)
  | most left right hleft hright =>
      rw [eval_most_eq]
      exact (hleft h.1).combined (fun _ _ => .value _) (hright h.2)
  | choose left right yes no hleft hright hyes hno =>
      have hfirst := hleft h.1
      have hsecond := hright h.2.1
      rw [eval]
      generalize left.eval now scope = first at hfirst ⊢
      generalize right.eval now scope = second at hsecond ⊢
      cases hfirst with
      | failure => exact .failure
      | value x =>
          cases hsecond with
          | failure => exact .failure
          | value y =>
              change Settled (if Arithmetic.same x y then yes.eval now scope
                else no.eval now scope)
              split_ifs
              · exact hyes h.2.2.1
              · exact hno h.2.2.2

end

/-! ## Exact arithmetic -/

section

variable {now : Instant} {scope : Scope Rat}
  {first second third : Except EvaluationError (Option Rat)}

/-- A product on the right of `*` may be taken apart. -/
theorem combined_mul_mul (hfirst : Settled first) (hsecond : Settled second)
    (hthird : Settled third) :
    combined (apply .mul) (combined (apply .mul) first second) third =
      combined (apply .mul) first (combined (apply .mul) second third) := by
  cases hfirst with
  | failure => rfl
  | value x =>
      cases hsecond with
      | failure => rfl
      | value y =>
          cases hthird with
          | failure => rfl
          | value z =>
              have hproduct : x * y * z = x * (y * z) := mul_assoc x y z
              exact congrArg (fun value => Except.ok (some value)) hproduct

/-- A quotient on the right of `*` may be taken apart. It fails in the same cases. -/
theorem combined_mul_div (hfirst : Settled first) (hsecond : Settled second)
    (hthird : Settled third) :
    combined (apply .div) (combined (apply .mul) first second) third =
      combined (apply .mul) first (combined (apply .div) second third) := by
  cases hfirst with
  | failure => rfl
  | value x =>
      cases hsecond with
      | failure => rfl
      | value y =>
          cases hthird with
          | failure => rfl
          | value z =>
              have hproduct : x * y / z = x * (y / z) := mul_div_assoc x y z
              change (apply .div (x * y) z).map some = combined (apply .mul) (.ok (some x))
                ((apply .div y z).map some)
              unfold apply
              dsimp only
              split_ifs
              · rfl
              · exact congrArg (fun value => Except.ok (some value)) hproduct

/-- A left operand in front of the first factor of a product multiplies the whole product. -/
theorem eval_graft {left right : Expr Rat} (hleft : left.BoundIn scope)
    (hright : right.BoundIn scope) :
    (graft left .mul right).eval now scope = (binary .mul left right).eval now scope := by
  -- Only the first factor of a product is reached, so only its hypothesis is used.
  induction right with
  | binary op first second hfirst _ =>
      cases op with
      | sub => rfl
      | mul =>
          rw [graft, eval_binary, hfirst hright.1, eval_binary, eval_binary, eval_binary]
          exact combined_mul_mul (settled_eval hleft) (settled_eval hright.1)
            (settled_eval hright.2)
      | div =>
          rw [graft, eval_binary, hfirst hright.1, eval_binary, eval_binary, eval_binary]
          exact combined_mul_div (settled_eval hleft) (settled_eval hright.1)
            (settled_eval hright.2)
  | _ => rfl

/-- Nesting products to the left changes neither the value nor the failure. -/
theorem eval_leftNested {expr : Expr Rat} (h : expr.BoundIn scope) :
    expr.leftNested.eval now scope = expr.eval now scope := by
  induction expr with
  | literal value => rfl
  | var name => rfl
  | since name => rfl
  | binary op left right hleft hright =>
      have hop (op : BinaryOp) : (binary op left.leftNested right.leftNested).eval now scope =
          (binary op left right).eval now scope := by
        rw [eval_binary, eval_binary, hleft h.1, hright h.2]
      cases op with
      | sub => exact hop .sub
      | mul =>
          rw [leftNested, eval_graft (boundIn_leftNested h.1) (boundIn_leftNested h.2), hop]
      | div => exact hop .div
  | least left right hleft hright =>
      rw [leftNested, eval_least_eq, eval_least_eq, hleft h.1, hright h.2]
  | most left right hleft hright =>
      rw [leftNested, eval_most_eq, eval_most_eq, hleft h.1, hright h.2]
  | choose left right yes no hleft hright hyes hno =>
      obtain ⟨h1, h2, h3, h4⟩ := h
      rw [leftNested, eval, eval, hleft h1, hright h2, hyes h3, hno h4]

end

/-- The text of an expression with finite literals is read, by the usual grammar, as an expression
of the same value: in exact arithmetic, with each literal taken at its printed value and every
variable bound, both fail by a division by zero or both give the same number. -/
theorem read_text_eval {expr : Expr Float} (hnamed : expr.WellNamed) (hfinite : expr.Finite) :
    ∃ read, ofText? expr.text = some read ∧ ∀ (now : Instant) (scope : Scope Rat),
      (expr.map Number.literalValue).BoundIn scope →
        (read.eval now scope = .error .divisionByZero ∧
          (expr.map Number.literalValue).eval now scope = .error .divisionByZero) ∨
        ∃ value, read.eval now scope = .ok (some value) ∧
          (expr.map Number.literalValue).eval now scope = .ok (some value) := by
  have hlexemes : Lexeme.read? expr.text = some expr.lexemes := reads_text expr hnamed
  have hread := ofLexemes?_lexemes (fun _ => Number.ofLiteralText?_literalText) hfinite []
  refine ⟨(expr.map Number.literalValue).leftNested, ?_, fun now scope hbound => ?_⟩
  · rw [ofText?, hlexemes, Option.bind_some, hread]
  · rw [eval_leftNested hbound]
    have hsettled : Settled ((expr.map Number.literalValue).eval now scope) :=
      settled_eval hbound
    generalize (expr.map Number.literalValue).eval now scope = result at hsettled ⊢
    cases hsettled with
    | failure => exact .inl ⟨rfl, rfl⟩
    | value x => exact .inr ⟨x, rfl, rfl⟩

/-- A quotient on the right of `*` is read as the quotient of a product. -/
theorem read_text_eval_quotient :
    let expr := Expr.binary .mul (.var "cpu")
      (.binary .div (.literal 0.024) (.binary .sub (.var "hours") (.literal (-1.5))))
    let scope : Scope Rat := [("cpu", .number 5), ("hours", .number (-1))]
    expr.text = "cpu * 0.02400000000 / (hours - -1.50000000000)" ∧
      ∃ read, ofText? expr.text = some read ∧
        ∀ now, read.eval now scope = .ok (some (6 / 25)) := by
  intro expr scope
  have hcpu : Lexeme.IsWord "cpu" := by decide
  have hhours : Lexeme.IsWord "hours" := by decide
  have hnamed : expr.WellNamed := ⟨hcpu, trivial, hhours, trivial⟩
  have hprice : Float.isFinite 0.024 = true := by decide +kernel
  have hoffset : Float.isFinite (-1.5) = true := by decide +kernel
  have hfinite : expr.Finite := ⟨trivial, hprice, trivial, hoffset⟩
  have hbound : (expr.map Number.literalValue).BoundIn scope :=
    ⟨⟨5, rfl⟩, trivial, ⟨-1, rfl⟩, trivial⟩
  have hliterals : Number.literalValue 0.024 = 3 / 125 ∧ Number.literalValue (-1.5) = -3 / 2 := by
    decide +kernel
  have hvalue (now : Instant) :
      (expr.map Number.literalValue).eval now scope = .ok (some (6 / 25)) := by
    have hhour : (-1 : Rat) - -3 / 2 = 1 / 2 := by decide +kernel
    have hrate : apply .div (3 / 125 : Rat) (1 / 2) = .ok (6 / 125) := by decide +kernel
    have hcost : (5 : Rat) * (6 / 125) = 6 / 25 := by decide +kernel
    simp only [expr, map, hliterals.1, hliterals.2, eval_binary]
    change combined (apply .mul) (.ok (some 5))
      (combined (apply .div) (.ok (some (3 / 125))) (.ok (some (-1 - -3 / 2)))) = _
    rw [hhour]
    change combined (apply .mul) (.ok (some 5)) ((apply .div (3 / 125 : Rat) (1 / 2)).map some) = _
    rw [hrate]
    exact congrArg (fun value => Except.ok (some value)) hcost
  obtain ⟨read, hread, hsame⟩ := read_text_eval hnamed hfinite
  refine ⟨by decide +kernel, read, hread, fun now => ?_⟩
  rcases hsame now scope hbound with ⟨-, hfailure⟩ | ⟨value, hreadValue, hother⟩
  · rw [hvalue] at hfailure
    cases hfailure
  · rw [hreadValue, ← hother, hvalue]

end PodCosts.Expr
