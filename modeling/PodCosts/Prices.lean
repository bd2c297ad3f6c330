import PodCosts.Hierarchy
import PodCosts.Request.Topology
import PodCosts.Settings.Basic
import PodCosts.Store

/-!
# Prices of a pod

A pod may have prices of its own. Each of them stands in for the default price of that resource, and
where none can be found out the default prices hold, so this lookup never fails.
-/

namespace PodCosts

/-- The prices of a core and of a gigabyte of memory per hour. -/
structure UnitPrices where
  cpu : Float
  memory : Float

/-- The prices of pods that have none of their own. -/
def Pricing.unitPrices (pricing : Pricing) : UnitPrices :=
  ⟨pricing.cpuPerCoreHour, pricing.memoryPerGbHour⟩

/-- Why a lookup gave no result. -/
inductive LookupError where
  /-- The request makes no sense. -/
  | usage (message : String)
  | store (error : StoreError)
  /-- The answer is not of the expected form. -/
  | decode
deriving DecidableEq

/-- The wording of an error. -/
def LookupError.message : LookupError → String
  | .usage message => "invalid request: " ++ message
  | .store error => "store error: " ++ error.message
  | .decode => "response decoding failed: the answer is not of the expected form"

/-- The list of records under the one key that an answer is read for. -/
def Node.answer? {α : Type} (key : String) (read : Nat → Node → Option α) :
    Nat → Node → Option (List α) :=
  Node.record? [key] fun depth fields => Node.field? fields key [] (Node.list? read depth)

/-- Reads the records of an answer. -/
def readAnswer {α : Type} (key : String) (read : Nat → Node → Option α) (bytes : List UInt8) :
    Except LookupError (List α) :=
  match Node.decode? (Node.answer? key read) bytes with
  | some records => .ok records
  | none => .error .decode

namespace Lookup

/-- Sends a request and reads the records of the answer. -/
def fetch {α : Type} (query : Query) (key : String) (read : Nat → Node → Option α) :
    Lookup (Except LookupError (List α)) := do
  match ← ask query with
  | .ok bytes => pure (readAnswer key read bytes)
  | .error error => pure (.error (.store error))

/-- The prices that hold for a pod of which a record may have been found. -/
def mergedPrices (usual : UnitPrices) : List Pod → UnitPrices
  | [] => usual
  | pod :: _ => ⟨pod.cpuPrice.getD usual.cpu, pod.memoryPrice.getD usual.memory⟩

/-- The prices that hold for a pod. -/
def prices (pricing : Pricing) (name : String) : Lookup UnitPrices := do
  match ← fetch (Request.priceLookup name) Request.priceBlock Pod.ofNode? with
  | .ok pods => pure (mergedPrices pricing.unitPrices pods)
  | .error error =>
    report
      { severity := .warning, message := "price lookup failed, using default prices",
        pod? := some name, error? := some error.message }
    pure pricing.unitPrices

end Lookup

end PodCosts
