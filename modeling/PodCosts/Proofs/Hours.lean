import PodCosts.Proofs.Graph.Readings
import PodCosts.Proofs.Graph.Selecting
import PodCosts.Request.Cost

/-!
# The hours a store works out

The duration selections of a request bind seven variables one after the other. On a node whose
times are readable the last of them holds the hours of the billing window, and it stays unbound on
a node without a start.
-/

namespace PodCosts

namespace Vertex

/-- The hours for which a node is charged; none for a node that has not started. -/
def hours? (vertex : Vertex) (window : Window) : Option Float :=
  (vertex.moment? Predicate.startTime).map fun started =>
    window.proratedHours started (vertex.moment? Predicate.endTime)

/-- The hours as the store works them out at a time, given the seconds of the window, over parts
that may be absent. -/
def hoursOver? (vertex : Vertex) (now : Instant) (elapsed : Float) : Option Float :=
  Option.map₂ Arithmetic.most
    ((Option.map₂ Arithmetic.sub
      (Option.map₂ Arithmetic.least
        ((vertex.moment? Predicate.startTime).map fun moment => moment.secondsUntil now)
        (some elapsed))
      (some ((vertex.moment? Predicate.endTime).elim (Arithmetic.ofInt 0)
        fun moment => moment.secondsUntil now))).map
      fun seconds => Arithmetic.div seconds (Arithmetic.ofInt Window.secondsPerHour))
    (some (Arithmetic.ofInt 0))

/-- The store works out the hours for which a node is charged. -/
theorem hours?_eq (vertex : Vertex) (window : Window) :
    vertex.hours? window = vertex.hoursOver? window.now window.elapsedSeconds := by
  rw [hours?, hoursOver?]
  cases vertex.moment? Predicate.startTime with
  | none => rfl
  | some started =>
    cases vertex.moment? Predicate.endTime with
    | none => rfl
    | some ended => rfl

end Vertex

/-- Different variables stay different on one level. -/
theorem Level.var_injective (level : Level) : Function.Injective level.var := by
  intro a b h
  cases level with
  | parent => exact h
  | child => exact (String.append_left_inj _).mp h

namespace Request

/-- The variables of the duration selections, without the mark of a level. -/
def durationNames : List String :=
  ["st", "stSeconds", "secondsSinceStart", "et", "isTerminated", "secondsSinceEnd",
    "durationInHours"]

/-- The keys under which the duration selections answer what they read. -/
def durationKeys : List String :=
  [Predicate.startTime, Predicate.endTime, "count(" ++ Predicate.endTime ++ ")"]

/-- Variables of one level with different names are different. -/
theorem var_not_mem {level : Level} {name : String} (names : List String)
    (hname : name ∉ names) : level.var name ∉ names.map level.var := by
  rw [List.mem_map_of_injective level.var_injective]
  exact hname

/-- A variable of a level that was unbound stays so while only others are bound. -/
theorem get?_of_extends {level : Level} {picked next : Picked} {fresh names keys : List String}
    (hfresh : ∀ name ∈ fresh, Fields.get? (level.var name) picked.scope = none) {name : String}
    (hname : name ∈ fresh) (hext : Picked.Extends picked next (names.map level.var) keys)
    (hnot : name ∉ names) : Fields.get? (level.var name) next.scope = none :=
  (hext.scope_eq _ (var_not_mem names hnot)).trans (hfresh name hname)

/-- The seconds since the end of a node, and zero for a node that has not ended. -/
private theorem eval_sinceEnd {now : Instant} {scope : Scope Float} {terminated ended : String}
    {moment? : Option Instant}
    (hterminated : Fields.get? terminated scope =
      some (.number (Float.ofNat (if moment?.isSome then 1 else 0))))
    (hended : Fields.get? ended scope = moment?.map Bound.time) :
    (Expr.choose (.var terminated) (.literal 0) (.literal 0) (.since ended)).eval now scope =
      .ok (some (moment?.elim (Arithmetic.ofInt 0) fun moment => moment.secondsUntil now)) := by
  rw [Expr.eval_choose (Expr.eval_var_of_some hterminated) (Expr.eval_literal 0)]
  cases moment? with
  | none =>
    have hzero : Arithmetic.same (Float.ofNat 0) 0 = true := by decide
    have hliteral : (0 : Float) = Arithmetic.ofInt 0 := rfl
    rw [Option.isSome_none, if_neg Bool.false_ne_true, if_pos hzero, hliteral]
    rfl
  | some moment =>
    have hone : Arithmetic.same (Float.ofNat 1) 0 = false := by decide
    rw [Option.isSome_some, if_pos rfl, if_neg (by rw [hone]; decide)]
    exact Expr.eval_since hended

/-- The first three duration selections bind the seconds since the start of a node, at most those of
the window. -/
private theorem exists_pickAll_sinceStart (graph : Graph) (uid : Uid) {vertex : Vertex}
    (hstart : vertex.TimeOrNothing Predicate.startTime) (level : Level) (elapsed : Float)
    (picked : Picked)
    (hfresh : ∀ name ∈ ["st", "stSeconds", "secondsSinceStart"],
      Fields.get? (level.var name) picked.scope = none) :
    ∃ next, Selection.pickAll graph uid vertex picked
        [.predicate (.bound (level.var "st")) Predicate.startTime,
          .math (.bound (level.var "stSeconds")) (.since (level.var "st")),
          .math (.bound (level.var "secondsSinceStart"))
            (.least (.var (level.var "stSeconds")) (.literal elapsed))] = .ok next ∧
      Picked.Extends picked next (["st", "stSeconds", "secondsSinceStart"].map level.var)
        [Predicate.startTime] ∧
      Fields.get? (level.var "secondsSinceStart") next.scope =
        (Option.map₂ Arithmetic.least ((vertex.moment? Predicate.startTime).map fun moment =>
          moment.secondsUntil graph.now) (some elapsed)).map Bound.number := by
  obtain ⟨p1, hp1, he1, hst, _⟩ := Selection.exists_pick_bound
    (Selection.pick_predicate graph uid vertex picked (.bound (level.var "st"))
      Predicate.startTime) (hfresh "st" (by decide))
  rw [Vertex.map_ofJson_of_time hstart] at hst
  have h1 : Picked.Extends picked p1 (["st"].map level.var) [Predicate.startTime] := he1
  obtain ⟨p2, hp2, he2, hstSeconds, _⟩ := Selection.exists_pick_bound
    (Selection.pick_math_of_eval graph uid vertex p1 (.bound (level.var "stSeconds"))
      (Expr.eval_since hst)) (get?_of_extends hfresh (by decide) h1 (by decide))
  have h2 : Picked.Extends picked p2 (["st", "stSeconds"].map level.var) [Predicate.startTime] :=
    h1.trans he2
  obtain ⟨p3, hp3, he3, hsinceStart, _⟩ := Selection.exists_pick_bound
    (Selection.pick_math_of_eval graph uid vertex p2 (.bound (level.var "secondsSinceStart"))
      (Expr.eval_least (Expr.eval_var hstSeconds) (Expr.eval_literal elapsed)))
    (get?_of_extends hfresh (by decide) h2 (by decide))
  refine ⟨p3, ?_, h2.trans he3, hsinceStart⟩
  rw [Selection.pickAll_cons_of_ok hp1, Selection.pickAll_cons_of_ok hp2,
    Selection.pickAll_cons_of_ok hp3, Selection.pickAll_nil]

/-- The next three bind the seconds since its end, and they always answer how often it has ended. -/
private theorem exists_pickAll_sinceEnd (graph : Graph) (uid : Uid) {vertex : Vertex}
    (hend : vertex.TimeOrNothing Predicate.endTime)
    (hedges : vertex.targets Predicate.endTime = []) (level : Level) (picked : Picked)
    (hfresh : ∀ name ∈ ["et", "isTerminated", "secondsSinceEnd"],
      Fields.get? (level.var name) picked.scope = none) :
    ∃ next, Selection.pickAll graph uid vertex picked
        [.predicate (.bound (level.var "et")) Predicate.endTime,
          .count (.bound (level.var "isTerminated")) Predicate.endTime,
          .math (.bound (level.var "secondsSinceEnd")) (.choose (.var (level.var "isTerminated"))
            (.literal 0) (.literal 0) (.since (level.var "et")))] = .ok next ∧
      Picked.Extends picked next (["et", "isTerminated", "secondsSinceEnd"].map level.var)
        [Predicate.endTime, "count(" ++ Predicate.endTime ++ ")"] ∧
      Fields.get? (level.var "secondsSinceEnd") next.scope =
        some (.number ((vertex.moment? Predicate.endTime).elim (Arithmetic.ofInt 0)
          fun moment => moment.secondsUntil graph.now)) ∧
      next.fields ≠ [] := by
  obtain ⟨p1, hp1, he1, het, _⟩ := Selection.exists_pick_bound
    (Selection.pick_predicate graph uid vertex picked (.bound (level.var "et"))
      Predicate.endTime) (hfresh "et" (by decide))
  rw [Vertex.map_ofJson_of_time hend] at het
  have h1 : Picked.Extends picked p1 (["et"].map level.var) [Predicate.endTime] := he1
  obtain ⟨p2, hp2, he2, hterminated, hanswered⟩ := Selection.exists_pick_bound
    (Selection.pick_count graph uid vertex p1 (.bound (level.var "isTerminated"))
      Predicate.endTime) (get?_of_extends hfresh (by decide) h1 (by decide))
  rw [Vertex.count_of_time hend hedges] at hterminated
  have h2 : Picked.Extends picked p2 (["et", "isTerminated"].map level.var)
    [Predicate.endTime, "count(" ++ Predicate.endTime ++ ")"] := h1.trans he2
  have het2 : Fields.get? (level.var "et") p2.scope =
      (vertex.moment? Predicate.endTime).map Bound.time :=
    (he2.scope_eq _ (var_not_mem ["isTerminated"] (by decide))).trans het
  obtain ⟨p3, hp3, he3, hsinceEnd, _⟩ := Selection.exists_pick_bound
    (Selection.pick_math_of_eval graph uid vertex p2 (.bound (level.var "secondsSinceEnd"))
      (eval_sinceEnd hterminated het2)) (get?_of_extends hfresh (by decide) h2 (by decide))
  refine ⟨p3, ?_, h2.trans he3, hsinceEnd, he3.fields_ne_nil (hanswered rfl rfl)⟩
  rw [Selection.pickAll_cons_of_ok hp1, Selection.pickAll_cons_of_ok hp2,
    Selection.pickAll_cons_of_ok hp3, Selection.pickAll_nil]

/-- On a node with readable times the duration selections bind the hours over the given seconds, and
besides their own variables and keys they change nothing. They always answer something, namely how
often the node has ended. -/
theorem exists_pickAll_durationSelections (graph : Graph) (uid : Uid) {vertex : Vertex}
    (hstart : vertex.TimeOrNothing Predicate.startTime)
    (hend : vertex.TimeOrNothing Predicate.endTime)
    (hedges : vertex.targets Predicate.endTime = []) (level : Level) (elapsed : Float)
    (picked : Picked)
    (hfresh : ∀ name ∈ durationNames, Fields.get? (level.var name) picked.scope = none) :
    ∃ next, Selection.pickAll graph uid vertex picked (durationSelections level elapsed) =
        .ok next ∧
      Picked.Extends picked next (durationNames.map level.var) durationKeys ∧
      Fields.get? level.hours next.scope =
        (vertex.hoursOver? graph.now elapsed).map Bound.number ∧
      next.fields ≠ [] := by
  obtain ⟨p1, hp1, he1, hsinceStart⟩ := exists_pickAll_sinceStart graph uid hstart level elapsed
    picked fun name hname => hfresh name (List.mem_append_left _ hname)
  obtain ⟨p2, hp2, he2, hsinceEnd, hanswered⟩ := exists_pickAll_sinceEnd graph uid hend hedges level
    p1 fun name hname => get?_of_extends hfresh (by revert name; decide) he1
      (by revert name; decide)
  have h2 : Picked.Extends picked p2 (["st", "stSeconds", "secondsSinceStart", "et",
      "isTerminated", "secondsSinceEnd"].map level.var) durationKeys := he1.trans he2
  rw [← he2.scope_eq _ (var_not_mem _ (by decide))] at hsinceStart
  -- The hours lie between the two, and the unit of an hour is no zero to divide by.
  have hunit : Arithmetic.isZero (Arithmetic.ofInt Window.secondsPerHour : Float) = false := by
    decide
  obtain ⟨p3, hp3, he3, hhours, _⟩ := Selection.exists_pick_bound
    (Selection.pick_math_of_eval graph uid vertex p2 (.bound level.hours)
      (Expr.eval_most (Expr.eval_div_literal (Expr.eval_sub (Expr.eval_var hsinceStart)
        (Expr.eval_var_of_some hsinceEnd)) hunit) (Expr.eval_literal 0)))
    (get?_of_extends hfresh (by decide) h2 (by decide))
  refine ⟨p3, ?_, h2.trans he3, ?_, he3.fields_ne_nil hanswered⟩
  · refine (Selection.pickAll_append_of_ok hp1 _).trans ?_
    refine (Selection.pickAll_append_of_ok hp2 _).trans ?_
    rw [Selection.pickAll_cons_of_ok hp3, Selection.pickAll_nil]
  · rw [hhours]
    rfl

end Request

end PodCosts
