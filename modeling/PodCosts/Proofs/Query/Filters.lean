import PodCosts.Graph.Basic
import PodCosts.Proofs.Query.Rendered

/-!
# Reading filters back

Filters are read by the usual grammar: `NOT` binds tightest, then `AND`, then `OR`, and parentheses
group. The printer leaves parentheses out around lists of a single filter, so what is read from a
rendered filter is that filter with such lists collapsed. It accepts the same nodes.
-/

namespace PodCosts.Filter

open Lexeme (parenthesized)

/-! ## The reader -/

/-- Filters joined by `AND`. A single one stands for itself. -/
def conjunction : List Filter → Filter
  | [filter] => filter
  | filters => .and filters

/-- Filters joined by `OR`. A single one stands for itself. -/
def disjunction : List Filter → Filter
  | [filter] => filter
  | filters => .or filters

/-- What has been read between a pair of parentheses so far. -/
structure Inside where
  /-- The complete operands of `OR`, the last one first. -/
  alternatives : List Filter
  /-- The operands of the `AND` that is being read, the last one first. -/
  conjuncts : List Filter
  /-- How many `NOT` stand in front of the operand that comes next. -/
  negations : Nat

namespace Inside

/-- Nothing has been read yet. -/
def nothing : Inside := ⟨[], [], 0⟩

/-- Behind one more `NOT`. -/
def negate (inside : Inside) : Inside :=
  { inside with negations := inside.negations + 1 }

/-- Behind an operand. Every `NOT` in front of it belongs to it alone. -/
def put (inside : Inside) (operand : Filter) : Inside :=
  ⟨inside.alternatives, Nat.repeat .not inside.negations operand :: inside.conjuncts, 0⟩

/-- Behind an `OR`, which ends the `AND` in front of it. -/
def next (inside : Inside) : Inside :=
  ⟨conjunction inside.conjuncts.reverse :: inside.alternatives, [], 0⟩

/-- The filter that has been read, once nothing more belongs to it. -/
def filter (inside : Inside) : Filter :=
  disjunction inside.next.alternatives.reverse

end Inside

mutual

/-- Reads on where an operand has to come, up to the parenthesis that closes the outermost pair.
What has been read between the pairs that are still open is held, the innermost one first. -/
def operand? (here : Inside) (outer : List Inside) : List Lexeme → Option (Filter × List Lexeme)
  | .word "NOT" :: rest => operand? here.negate outer rest
  | .mark '(' :: rest => operand? .nothing (here :: outer) rest
  | .word "has" :: .mark '(' :: .word predicate :: .mark ')' :: rest =>
    operator? (here.put (.has predicate)) outer rest
  | .word "eq" :: .mark '(' :: .word predicate :: .mark ',' :: .literal value :: .mark ')' ::
      rest =>
    operator? (here.put (.eq predicate value)) outer rest
  | _ => none

/-- Reads on behind an operand. -/
def operator? (here : Inside) (outer : List Inside) : List Lexeme → Option (Filter × List Lexeme)
  | .word "AND" :: rest => operand? here outer rest
  | .word "OR" :: rest => operand? here.next outer rest
  | .mark ')' :: rest =>
    match outer with
    | [] => some (here.filter, rest)
    | around :: outer => operator? (around.put here.filter) outer rest
  | _ => none

end

/-- The filter at the beginning of some lexemes, up to the parenthesis that closes it, and what
stands behind that parenthesis. -/
def ofLexemes? (lexemes : List Lexeme) : Option (Filter × List Lexeme) :=
  operand? .nothing [] lexemes

/-- The filter that a text is. It is read as if it stood between parentheses. -/
def ofText? (text : String) : Option Filter :=
  match (Lexeme.read? text).bind fun lexemes => ofLexemes? (lexemes ++ [.mark ')']) with
  | some (filter, []) => some filter
  | _ => none

example : ofText? "NOT has(a) AND has(b) OR has(c)" =
    some (.or [.and [.not (.has "a"), .has "b"], .has "c"]) := by rfl

/-! ## Filters that are collapsed -/

mutual

/-- Whether no list of a filter is empty, at any depth. -/
def Filled : Filter → Prop
  | .has _ | .eq _ _ => True
  | .not filter => filter.Filled
  | .and filters | .or filters => filters ≠ [] ∧ AllFilled filters

/-- Whether no list of some filters is empty. -/
def AllFilled : List Filter → Prop
  | [] => True
  | filter :: filters => filter.Filled ∧ AllFilled filters

end

mutual

/-- The filter with every list of a single filter replaced by that filter. -/
def collapsed : Filter → Filter
  | .has predicate => .has predicate
  | .eq predicate value => .eq predicate value
  | .not filter => .not filter.collapsed
  | .and filters => conjunction (collapsedAll filters)
  | .or filters => disjunction (collapsedAll filters)

/-- The filters, each of them collapsed. -/
def collapsedAll : List Filter → List Filter
  | [] => []
  | filter :: filters => filter.collapsed :: collapsedAll filters

end

/-- A conjunction accepts the nodes that all its filters accept. -/
theorem accepts_conjunction (vertex : Vertex) (filters : List Filter) :
    accepts vertex (conjunction filters) = acceptsAll vertex filters := by
  obtain _ | ⟨filter, _ | ⟨next, filters⟩⟩ := filters
  · rfl
  · rw [conjunction, acceptsAll, acceptsAll, Bool.and_true]
  · rfl

/-- A disjunction accepts the nodes that one of its filters accepts. -/
theorem accepts_disjunction (vertex : Vertex) (filters : List Filter) :
    accepts vertex (disjunction filters) = acceptsAny vertex filters := by
  obtain _ | ⟨filter, _ | ⟨next, filters⟩⟩ := filters
  · rfl
  · rw [disjunction, acceptsAny, acceptsAny, Bool.or_false]
  · rfl

mutual

/-- Collapsing a filter changes nothing about the nodes it accepts. -/
theorem accepts_collapsed (vertex : Vertex) : (filter : Filter) →
    accepts vertex filter.collapsed = accepts vertex filter
  | .has _ | .eq _ _ => rfl
  | .not filter => by
    rw [collapsed, accepts, accepts, accepts_collapsed vertex filter]
  | .and filters => by
    rw [collapsed, accepts_conjunction, accepts, acceptsAll_collapsedAll vertex filters]
  | .or filters => by
    rw [collapsed, accepts_disjunction, accepts, acceptsAny_collapsedAll vertex filters]

/-- Collapsing filters changes nothing about the nodes that all of them accept. -/
theorem acceptsAll_collapsedAll (vertex : Vertex) : (filters : List Filter) →
    acceptsAll vertex (collapsedAll filters) = acceptsAll vertex filters
  | [] => rfl
  | filter :: filters => by
    rw [collapsedAll, acceptsAll, acceptsAll, accepts_collapsed vertex filter,
      acceptsAll_collapsedAll vertex filters]

/-- Collapsing filters changes nothing about the nodes that one of them accepts. -/
theorem acceptsAny_collapsedAll (vertex : Vertex) : (filters : List Filter) →
    acceptsAny vertex (collapsedAll filters) = acceptsAny vertex filters
  | [] => rfl
  | filter :: filters => by
    rw [collapsedAll, acceptsAny, acceptsAny, accepts_collapsed vertex filter,
      acceptsAny_collapsedAll vertex filters]

end

/-! ## Reading what is rendered -/

/-- Lexemes that are read as one operand, whatever stands on both sides. -/
def ReadsAsOperand (lexemes : List Lexeme) (filter : Filter) : Prop :=
  ∀ here outer rest, operand? here outer (lexemes ++ rest) = operator? (here.put filter) outer rest

/-- Lexemes that are read as everything between a pair of parentheses. -/
def ReadsInside (lexemes : List Lexeme) (filter : Filter) : Prop :=
  ∃ here : Inside, here.filter = filter ∧
    ∀ outer rest, operand? .nothing outer (lexemes ++ rest) = operator? here outer rest

section

variable {lexemes : List Lexeme} {filter : Filter} {parts : List (List Lexeme)}
  {filters : List Filter}

/-- An operand is read between a pair of parentheses. -/
theorem ReadsAsOperand.inside (h : ReadsAsOperand lexemes filter) : ReadsInside lexemes filter :=
  ⟨Inside.nothing.put filter, rfl, h .nothing⟩

/-- An operand behind `NOT` is read as its negation. -/
theorem ReadsAsOperand.negated (h : ReadsAsOperand lexemes filter) :
    ReadsInside (.word "NOT" :: lexemes) (.not filter) :=
  ⟨Inside.nothing.negate.put filter, rfl, fun outer rest => h Inside.nothing.negate outer rest⟩

/-- In parentheses anything is an operand. -/
theorem ReadsInside.grouped (h : ReadsInside lexemes filter) :
    ReadsAsOperand ([.mark '('] ++ lexemes ++ [.mark ')']) filter := by
  obtain ⟨inside, rfl, hinside⟩ := h
  intro here outer rest
  have hopen : operand? here outer ([.mark '('] ++ lexemes ++ [.mark ')'] ++ rest) =
      operand? .nothing (here :: outer) (lexemes ++ (.mark ')' :: rest)) := by
    simp [operand?]
  rw [hopen, hinside]
  rfl

/-- Operands joined by `AND` go into the conjunction that is being read. -/
theorem operand?_conjuncts (h : List.Forall₂ ReadsAsOperand parts filters) (hparts : parts ≠ [])
    (alternatives conjuncts : List Filter) (outer : List Inside) (rest : List Lexeme) :
    operand? ⟨alternatives, conjuncts, 0⟩ outer
        (List.intercalate [.word "AND"] parts ++ rest) =
      operator? ⟨alternatives, filters.reverse ++ conjuncts, 0⟩ outer rest := by
  -- The first operand is one of the conjuncts by the time the others are read.
  induction h generalizing conjuncts with
  | nil => exact absurd rfl hparts
  | @cons part filter parts filters hpart hrest ih =>
      cases hrest with
      | nil =>
          rw [List.intercalate_singleton, hpart]
          rfl
      | cons hnext hothers =>
          rw [List.intercalate_cons_cons, List.append_assoc, List.append_assoc, hpart,
            List.reverse_cons, List.append_assoc]
          exact ih (List.cons_ne_nil _ _) (filter :: conjuncts)

/-- Operands joined by `OR` are alternatives behind the ones that are complete. -/
theorem operand?_alternatives (h : List.Forall₂ ReadsAsOperand parts filters) (hparts : parts ≠ [])
    (alternatives : List Filter) :
    ∃ here : Inside, here.filter = disjunction (alternatives.reverse ++ filters) ∧
      ∀ outer rest, operand? ⟨alternatives, [], 0⟩ outer
        (List.intercalate [.word "OR"] parts ++ rest) = operator? here outer rest := by
  induction h generalizing alternatives with
  | nil => exact absurd rfl hparts
  | @cons part filter parts filters hpart hrest ih =>
      cases hrest with
      | nil =>
          refine ⟨⟨alternatives, [filter], 0⟩, ?_, fun outer rest => ?_⟩
          · simp [Inside.filter, Inside.next, conjunction]
          · rw [List.intercalate_singleton, hpart]
            rfl
      | cons hnext hothers =>
          obtain ⟨here, hfilter, hread⟩ := ih (List.cons_ne_nil _ _) (filter :: alternatives)
          rw [List.reverse_cons, List.append_assoc] at hfilter
          refine ⟨here, hfilter, fun outer rest => ?_⟩
          rw [List.intercalate_cons_cons, List.append_assoc, List.append_assoc, hpart]
          exact hread outer rest

/-- Operands joined by `AND` are read as their conjunction. -/
theorem readsInside_and (h : List.Forall₂ ReadsAsOperand parts filters) (hparts : parts ≠ []) :
    ReadsInside (List.intercalate [.word "AND"] parts) (conjunction filters) := by
  refine ⟨⟨[], filters.reverse, 0⟩, ?_, fun outer rest => ?_⟩
  · simp [Inside.filter, Inside.next, disjunction]
  · have hread := operand?_conjuncts h hparts [] [] outer rest
    rwa [List.append_nil] at hread

/-- Operands joined by `OR` are read as their disjunction. -/
theorem readsInside_or (h : List.Forall₂ ReadsAsOperand parts filters) (hparts : parts ≠ []) :
    ReadsInside (List.intercalate [.word "OR"] parts) (disjunction filters) :=
  operand?_alternatives h hparts []

end

mutual

/-- A rendered filter is read as an operand where it stands inside another one. A list of a single
filter is not compound: it is read as the operand that this filter is. -/
theorem readsAsOperand : (filter : Filter) → filter.Filled →
    ReadsAsOperand (parenthesized filter.isCompound filter.lexemes) filter.collapsed
  | .has predicate, _ => fun _ _ _ => rfl
  | .eq predicate value, _ => fun here outer rest => by
    simp [parenthesized, isCompound, lexemes, eqLexemes, collapsed, operand?]
  | .not filter, h => (readsAsOperand filter h).negated.grouped
  | .and [], h | .or [], h => absurd rfl h.1
  | .and [filter], h => by
    -- The parentheses are left out here, so the operand is the filter itself.
    change ReadsAsOperand (List.intercalate [.word "AND"] [_]) filter.collapsed
    rw [List.intercalate_singleton]
    exact readsAsOperand filter h.2.1
  | .or [filter], h => by
    change ReadsAsOperand (List.intercalate [.word "OR"] [_]) filter.collapsed
    rw [List.intercalate_singleton]
    exact readsAsOperand filter h.2.1
  | .and (filter :: next :: filters), h =>
    (readsInside_and (readAsOperands (filter :: next :: filters) h.2)
      (List.cons_ne_nil _ _)).grouped
  | .or (filter :: next :: filters), h =>
    (readsInside_or (readAsOperands (filter :: next :: filters) h.2)
      (List.cons_ne_nil _ _)).grouped

/-- Rendered filters are read as operands one by one. -/
theorem readAsOperands : (filters : List Filter) → AllFilled filters →
    List.Forall₂ ReadsAsOperand (operandLexemes filters) (collapsedAll filters)
  | [], _ => .nil
  | filter :: filters, h => .cons (readsAsOperand filter h.1) (readAsOperands filters h.2)

end

/-- A rendered filter is read between a pair of parentheses. -/
theorem readsInside {filter : Filter} (h : filter.Filled) :
    ReadsInside filter.lexemes filter.collapsed := by
  have hparts : ∀ filters : List Filter, filters ≠ [] → operandLexemes filters ≠ [] := by
    intro filters hfilters
    rw [operandLexemes_eq_map, ne_eq, List.map_eq_nil_iff]
    exact hfilters
  cases filter with
  | has predicate => exact (readsAsOperand (.has predicate) h).inside
  | eq predicate value => exact (readsAsOperand (.eq predicate value) h).inside
  | not filter => exact (readsAsOperand filter h).negated
  | and filters => exact readsInside_and (readAsOperands filters h.2) (hparts filters h.1)
  | or filters => exact readsInside_or (readAsOperands filters h.2) (hparts filters h.1)

/-- Up to the parenthesis that closes it a rendered filter is read as the collapsed one. -/
theorem ofLexemes?_lexemes {filter : Filter} (h : filter.Filled) (rest : List Lexeme) :
    ofLexemes? (filter.lexemes ++ (.mark ')' :: rest)) = some (filter.collapsed, rest) := by
  obtain ⟨here, hfilter, hread⟩ := readsInside h
  rw [ofLexemes?, hread, ← hfilter]
  rfl

/-- The text of a filter whose lists are not empty is read, by the usual grammar, as a filter that
accepts the same nodes. -/
theorem read_text_accepts {filter : Filter} (hnamed : filter.WellNamed)
    (hfilled : filter.Filled) :
    ∃ read, ofText? filter.text = some read ∧
      ∀ vertex, accepts vertex read = accepts vertex filter := by
  have hlexemes : Lexeme.read? filter.text = some filter.lexemes := reads_text filter hnamed
  refine ⟨filter.collapsed, ?_, fun vertex => accepts_collapsed vertex filter⟩
  rw [ofText?, hlexemes, Option.bind_some, ofLexemes?_lexemes hfilled]

/-- Parentheses around a list of one filter are left out, and a value may look like structure. -/
theorem read_text_accepts_nested :
    let filter := Filter.not (.or [.and [.has "isPod", .eq "name" "a\") OR has(isPod"],
      .or [.not (.and [.has "name"])]])
    filter.text = "NOT ((has(isPod) AND eq(name, \"a\\\") OR has(isPod\")) OR (NOT has(name)))" ∧
      ∃ read, ofText? filter.text = some read ∧
        ∀ vertex, accepts vertex read = accepts vertex filter := by
  intro filter
  have hpod : Lexeme.IsWord "isPod" := by decide
  have hname : Lexeme.IsWord "name" := by decide
  have hnamed : filter.WellNamed := ⟨⟨hpod, hname, trivial⟩, ⟨⟨hname, trivial⟩, trivial⟩, trivial⟩
  have hfilled : filter.Filled := by
    refine ⟨List.cons_ne_nil _ _, ⟨List.cons_ne_nil _ _, trivial, trivial, trivial⟩, ?_, trivial⟩
    exact ⟨List.cons_ne_nil _ _, ⟨List.cons_ne_nil _ _, trivial, trivial⟩, trivial⟩
  exact ⟨by decide +kernel, read_text_accepts hnamed hfilled⟩

end PodCosts.Filter
