import PodCosts.Proofs.Graph.Nodes

/-!
# Typed queries

Predicates hold numbers, times or anything else, and variables take the type of what they are bound
to. A query whose expressions use every variable at its type, and divide by nothing but literals
other than zero, is answered by every graph whose values have the types of their predicates.
-/

namespace PodCosts

/-- What a predicate holds, and with it the variables that are bound to it. -/
inductive ValueType where
  | number
  | time
  /-- Anything; expressions cannot use it. -/
  | other
deriving DecidableEq

/-- The type of every predicate. -/
abbrev Typing := String → ValueType

/-- Whether a recorded value is of a type. Null stands for no value and is of every type. -/
def ValueType.admits : ValueType → Json → Bool
  | .other, _ => true
  | _, .null => true
  | .number, .number _ => true
  | .time, .string text => (Timestamp.read? text).isSome
  | _, _ => false

/-- Whether the values of all nodes have the types of their predicates. -/
def Graph.Respects (graph : Graph) (types : Typing) : Prop :=
  ∀ node ∈ graph.nodes, ∀ field ∈ node.2.scalars, (types field.1).admits field.2 = true

instance (graph : Graph) (types : Typing) : Decidable (graph.Respects types) :=
  inferInstanceAs (Decidable (∀ node ∈ graph.nodes, ∀ field ∈ node.2.scalars,
    (types field.1).admits field.2 = true))

/-- Whether what a variable holds is of a type. -/
def Bound.HasType : Bound Float → ValueType → Prop
  | _, .other => True
  | .number _, .number => True
  | .time _, .time => True
  | _, _ => False

/-- The variables of a list of selections at one place of the list. -/
structure Context where
  /-- The variables that are bound anywhere in the list. -/
  bound : List String
  /-- The variables that are bound before the place, with their types. -/
  earlier : List (String × ValueType)

/-- Whether an expression may use a variable at a type: it is never bound in the list, or has been
bound to something of that type. -/
def Context.permits (context : Context) (name : String) (type : ValueType) : Bool :=
  !context.bound.contains name || context.earlier.contains (name, type)

/-- The context behind a selection. -/
def Context.extended (context : Context) (binding? : Option (String × ValueType)) : Context :=
  { context with earlier := context.earlier ++ binding?.toList }

namespace Expr

/-- Whether an expression may stand on the right of an operator. Only literals other than zero may
divide. -/
def mayFollow : BinaryOp → Expr Float → Bool
  | .div, .literal divisor => !Arithmetic.isZero divisor
  | .div, _ => false
  | _, _ => true

/-- Whether an expression uses variables only at their types and divides only by literals other than
zero. Both branches of a choice are checked, though only one of them is evaluated. -/
def wellTyped (context : Context) : Expr Float → Bool
  | .literal _ => true
  | .var name => context.permits name .number
  | .since name => context.permits name .time
  | .binary op left right =>
    right.mayFollow op && left.wellTyped context && right.wellTyped context
  | .least left right => left.wellTyped context && right.wellTyped context
  | .most left right => left.wellTyped context && right.wellTyped context
  | .choose left right yes no =>
    left.wellTyped context && right.wellTyped context && yes.wellTyped context &&
      no.wellTyped context

end Expr

namespace Selection

/-- The variable that a selection binds to a value, with its type. Edges bind sets of nodes, which
expressions do not see. -/
def binding? (types : Typing) : Selection → Option (String × ValueType)
  | .predicate tag name => tag.bind?.map fun variableName => (variableName, types name)
  | .count tag _ => tag.bind?.map fun variableName => (variableName, .number)
  | .math tag _ => tag.bind?.map fun variableName => (variableName, .number)
  | .uid _ | .edge _ _ _ _ => none

/-- The variables that selections bind to values, in order. -/
def bindings (types : Typing) (selections : List Selection) : List (String × ValueType) :=
  selections.filterMap (binding? types)

/-- The context in front of a list of selections. -/
def context (types : Typing) (selections : List Selection) : Context :=
  ⟨(bindings types selections).map Prod.fst, []⟩

mutual

/-- Whether a selection is well typed behind others. What is selected along an edge has variables of
its own, each of them bound once. -/
def wellTyped (types : Typing) (within : Context) : Selection → Bool
  | .uid _ | .predicate _ _ | .count _ _ => true
  | .math _ expr => expr.wellTyped within
  | .edge _ _ _ selections =>
    decide (context types selections).bound.Nodup &&
      allWellTyped types (context types selections) selections

/-- Whether selections are well typed one after the other. -/
def allWellTyped (types : Typing) (within : Context) : List Selection → Bool
  | [] => true
  | selection :: rest =>
    selection.wellTyped types within &&
      allWellTyped types (within.extended (selection.binding? types)) rest

end

/-- Whether a list of selections binds each variable once and is well typed. -/
def listWellTyped (types : Typing) (selections : List Selection) : Bool :=
  decide (context types selections).bound.Nodup &&
    allWellTyped types (context types selections) selections

end Selection

/-- Whether a root needs no variable. -/
def Root.isPredicate : Root → Bool
  | .has _ => true
  | .uid _ => false

/-- Whether a query uses no gathered nodes and every list of its selections is well typed. -/
def Query.wellTyped (types : Typing) (query : Query) : Bool :=
  query.blocks.all fun block =>
    block.root.isPredicate && Selection.listWellTyped types block.selections

end PodCosts
