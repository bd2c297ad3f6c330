import PodCosts.Billing
import PodCosts.Predicate
import PodCosts.Query.Basic

/-!
# Cost selections

The store works out the costs of a pod and of its containers while it answers. Each node binds its
times and resources to variables, and expressions turn them into hours and costs by the rule of
billing windows. A pod and its containers are part of one request, so each level has its own names
for its variables.
-/

namespace PodCosts

/-- Prices per hour. -/
structure Rates where
  cpu : Float
  memory : Float
  /-- No price leaves storage out. -/
  storage : Option Float

/-- Whether costs belong to a pod or to one of its containers. -/
inductive Level where
  | parent
  | child
deriving DecidableEq

namespace Level

/-- The name of a variable at a level. -/
def var (level : Level) (base : String) : String :=
  match level with
  | .parent => base
  | .child => base ++ "Child"

/-- The variable that holds the hours a node is charged for. -/
def hours (level : Level) : String :=
  level.var "durationInHours"

end Level

namespace Request

open Selection (predicate count math)

/-- Binds the hours a node is charged for, given the seconds of the billing window. -/
def durationSelections (level : Level) (window : Float) : List Selection :=
  let start := level.var "st"
  let startSeconds := level.var "stSeconds"
  let sinceStart := level.var "secondsSinceStart"
  let ended := level.var "et"
  let terminated := level.var "isTerminated"
  let sinceEnd := level.var "secondsSinceEnd"
  [ predicate (.bound start) Predicate.startTime,
    math (.bound startSeconds) (.since start),
    math (.bound sinceStart) (.least (.var startSeconds) (.literal window)),
    predicate (.bound ended) Predicate.endTime,
    count (.bound terminated) Predicate.endTime,
    math (.bound sinceEnd)
      (.choose (.var terminated) (.literal 0) (.literal 0) (.since ended)),
    math (.bound level.hours)
      (.most
        (.binary .div (.binary .sub (.var sinceStart) (.var sinceEnd))
          (.literal (Arithmetic.ofInt Window.secondsPerHour)))
        (.literal 0)) ]

/-- An amount of a resource, times the hours, times the price. -/
def cost (level : Level) (amount : String) (price : Float) : Expr Float :=
  .binary .mul (.binary .mul (.var amount) (.var level.hours)) (.literal price)

/-- Answers the resources of a node and their costs. -/
def costSelections (level : Level) (window : Float) (rates : Rates) : List Selection :=
  let cpu := level.var "cpu"
  let memory := level.var "memory"
  let storage := level.var "storage"
  let storageAmount : List Selection :=
    match rates.storage with
    | some _ => [predicate (.both "storage" storage) Predicate.storageRequest]
    | none => []
  let storageCost : List Selection :=
    match rates.storage with
    | some price => [math (.named "storageCost") (cost level storage price)]
    | none => []
  [ predicate (.both "cpu" cpu) Predicate.cpuRequest,
    predicate (.both "memory" memory) Predicate.memoryRequest ] ++
    storageAmount ++ durationSelections level window ++
    [ math (.named "cpuCost") (cost level cpu rates.cpu),
      math (.named "memoryCost") (cost level memory rates.memory) ] ++
    storageCost

end Request

end PodCosts
