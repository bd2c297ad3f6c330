import PodCosts.Graph.Basic
import PodCosts.Time.Timestamp

/-!
# Evaluating queries

A graph answers a query directly. Every node that a block visits is selected from on its own: the
variables that its selections bind to values are gone afterwards, so nothing leaks from one node to
another. Only the variables that edges bind to sets of nodes last, and only later blocks read them.
-/

namespace PodCosts

/-- Why a query has no answer. -/
inductive EvaluationError where
  /-- A block starts from a variable that no edge has bound. -/
  | undefinedVariable (name : String)
  | notNumeric (name : String)
  | notTime (name : String)
  | divisionByZero
deriving DecidableEq

/-- The wording of an error. -/
def EvaluationError.message : EvaluationError → String
  | .undefinedVariable name => "variable " ++ name ++ " not defined"
  | .notNumeric name => "variable " ++ name ++ " is not numeric"
  | .notTime name => "since() needs a datetime, " ++ name ++ " is not one"
  | .divisionByZero => "division by zero"

/-- What a variable holds while a node is selected from. -/
inductive Bound (ν : Type) where
  | number (value : ν)
  | time (value : Instant)
  /-- A value that expressions cannot use. -/
  | other

/-- What a variable bound to a value of a node holds. -/
def Bound.ofJson : Json → Bound Float
  | .number value => .number value.toFloat
  | .string text =>
    match Timestamp.read? text with
    | some value => .time value
    | none => .other
  | _ => .other

/-- The variables of one node, the latest binding first. -/
abbrev Scope (ν : Type) := List (String × Bound ν)

namespace Expr

variable {ν : Type} [Arithmetic ν]

/-- The result of an operator. -/
def apply (op : BinaryOp) (left right : ν) : Except EvaluationError ν :=
  match op with
  | .sub => .ok (Arithmetic.sub left right)
  | .mul => .ok (Arithmetic.mul left right)
  | .div =>
    if Arithmetic.isZero right then .error .divisionByZero else .ok (Arithmetic.div left right)

/-- The value of an expression; there is none where a variable is not bound. Both operands are
evaluated before an absent one is noticed, and only the chosen branch of a choice is. -/
def eval (now : Instant) (scope : Scope ν) : Expr ν → Except EvaluationError (Option ν)
  | .literal value => .ok (some value)
  | .var name =>
    match Fields.get? name scope with
    | some (.number value) => .ok (some value)
    | some _ => .error (.notNumeric name)
    | none => .ok none
  | .since name =>
    match Fields.get? name scope with
    | some (.time value) => .ok (some (value.secondsUntil now))
    | some _ => .error (.notTime name)
    | none => .ok none
  | .binary op left right => do
    match ← left.eval now scope, ← right.eval now scope with
    | some x, some y => (apply op x y).map some
    | _, _ => .ok none
  | .least left right => do
    match ← left.eval now scope, ← right.eval now scope with
    | some x, some y => .ok (some (Arithmetic.least x y))
    | _, _ => .ok none
  | .most left right => do
    match ← left.eval now scope, ← right.eval now scope with
    | some x, some y => .ok (some (Arithmetic.most x y))
    | _, _ => .ok none
  | .choose left right yes no => do
    match ← left.eval now scope, ← right.eval now scope with
    | some x, some y =>
      if Arithmetic.same x y then yes.eval now scope else no.eval now scope
    | _, _ => .ok none

end Expr

/-- The sets of nodes bound to variables by edges, in the order in which they were found. -/
abbrev Gathered := List (String × List Uid)

/-- All nodes bound to a variable, if an edge has bound it at all. -/
def Gathered.nodes? (gathered : Gathered) (name : String) : Option (List Uid) :=
  let bindings := gathered.filter fun binding => binding.1 == name
  if bindings.isEmpty then none else some (bindings.flatMap Prod.snd)

/-- What has been selected from one node so far. -/
structure Picked where
  scope : Scope Float
  /-- The answer for the node, with its keys ascending. -/
  fields : List (String × Json)
  gathered : Gathered

namespace Picked

/-- Nothing yet. -/
def nothing : Picked := ⟨[], [], []⟩

/-- Binds a variable to a value, if there are both. -/
def bind (picked : Picked) (name? : Option String) (value? : Option (Bound Float)) : Picked :=
  match name?, value? with
  | some name, some value => { picked with scope := (name, value) :: picked.scope }
  | _, _ => picked

/-- Answers a value under a key, if there are both. -/
def answer (picked : Picked) (key? : Option String) (value? : Option Json) : Picked :=
  match key?, value? with
  | some key, some value => { picked with fields := Fields.insert key value picked.fields }
  | _, _ => picked

/-- The answers of nodes that have one. -/
def objects (picks : List Picked) : List Json :=
  (picks.filter fun picked => !picked.fields.isEmpty).map fun picked => .object picked.fields

end Picked

namespace Selection

mutual

/-- Selects from a node. -/
def pick (graph : Graph) (uid : Uid) (vertex : Vertex) (picked : Picked) (selection : Selection) :
    Except EvaluationError Picked :=
  match selection with
  | .uid tag => .ok (picked.answer (key? (.uid tag)) (some (.string uid.text)))
  | .predicate tag name =>
    let value? := vertex.scalar? name
    .ok ((picked.bind tag.bind? (value?.map Bound.ofJson)).answer
      (key? (.predicate tag name)) value?)
  | .count tag name =>
    let count := vertex.count name
    .ok ((picked.bind tag.bind? (some (.number (Float.ofNat count)))).answer
      (key? (.count tag name)) (some (.number (.int count))))
  | .math tag expr => do
    let value? ← expr.eval graph.now picked.scope
    let finite? := value?.filter Float.isFinite
    .ok ((picked.bind tag.bind? (value?.map Bound.number)).answer
      (key? (.math tag expr)) (finite?.map fun value => .number (.float value)))
  | .edge tag path filter? selections => do
    let targets := graph.neighbours uid path filter?
    let own : Gathered :=
      match tag.bind? with
      | some name => [(name, targets)]
      | none => []
    let picks ← targets.mapM fun target =>
      match graph.vertex? target with
      | some child => pickAll graph target child Picked.nothing selections
      | none => .ok Picked.nothing
    let objects := Picked.objects picks
    let gathered := picked.gathered ++ own ++ picks.flatMap Picked.gathered
    .ok ({ picked with gathered }.answer (key? (.edge tag path filter? selections))
      (if objects.isEmpty then none else some (.array objects)))

/-- Selects from a node, one selection after the other. -/
def pickAll (graph : Graph) (uid : Uid) (vertex : Vertex) (picked : Picked)
    (selections : List Selection) : Except EvaluationError Picked :=
  match selections with
  | [] => .ok picked
  | selection :: rest => do
    let next ← pick graph uid vertex picked selection
    pickAll graph uid vertex next rest

end

end Selection

namespace Graph

/-- The nodes a block starts from, ascending and each once. -/
def roots (graph : Graph) (gathered : Gathered) : Root → Except EvaluationError (List Uid)
  | .has predicate => .ok (graph.withPredicate predicate)
  | .uid name =>
    match gathered.nodes? name with
    | some uids => .ok (graph.uids.filter uids.contains)
    | none => .error (.undefinedVariable name)

/-- The nodes a block selects from. -/
def admitted (graph : Graph) (block : Block) (roots : List Uid) : List (Uid × Vertex) :=
  roots.filterMap fun uid =>
    match graph.vertex? uid with
    | some vertex => if Filter.admits block.filter? vertex then some (uid, vertex) else none
    | none => none

/-- What a block selects from each of its nodes. -/
def runBlock (graph : Graph) (gathered : Gathered) (block : Block) :
    Except EvaluationError (List Picked) := do
  let roots ← graph.roots gathered block.root
  (graph.admitted block roots).mapM fun (uid, vertex) =>
    Selection.pickAll graph uid vertex Picked.nothing block.selections

/-- Answers blocks in order. A block of a name that was answered before replaces that answer. -/
def runBlocks (graph : Graph) (gathered : Gathered) (output : List (String × Json)) :
    List Block → Except EvaluationError (List (String × Json))
  | [] => .ok output
  | block :: blocks => do
    let picks ← graph.runBlock gathered block
    let output :=
      if block.isSilent then output
      else Fields.insert block.name (.array (Picked.objects picks)) output
    graph.runBlocks (gathered ++ picks.flatMap Picked.gathered) output blocks

/-- The answer to a query. -/
def evaluate (graph : Graph) (query : Query) : Except EvaluationError Json := do
  let fields ← graph.runBlocks [] [] query.blocks
  .ok (.object fields)

end Graph

end PodCosts
