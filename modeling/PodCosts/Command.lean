import PodCosts.CommandLine.Basic
import PodCosts.Lookup

/-!
# Commands

A command is carried out by one lookup, whose result is written to an output as a document with a
new line behind it. Nothing is written when the lookup fails. `Command.request` is the request that
a command would send; it asks no store.
-/

namespace PodCosts

/-- Why a command fails. -/
inductive CommandError where
  | labelLookup (cause : LookupError)
  | livePodLookup (cause : LookupError)
  /-- A request about a single pod was asked for with a name that stands for all pods. -/
  | needsSinglePod (name : String)
  | noLabelPair
deriving DecidableEq

namespace LookupError

/-- The wordings of an error and of the error behind it, the outermost first. -/
def chain : LookupError → List String
  | .store error => [LookupError.message (.store error), error.message]
  | error => [error.message]

end LookupError

namespace CommandError

/-- What a command was doing when it failed. -/
def message : CommandError → String
  | .labelLookup _ => "label lookup failed"
  | .livePodLookup _ => "live pod lookup failed"
  | .needsSinglePod name => "a single pod name is required, got '" ++ name ++ "'"
  | .noLabelPair => "label filter needs at least one key=value pair"

/-- The lookup that failed, if one did. -/
def cause? : CommandError → Option LookupError
  | .labelLookup cause | .livePodLookup cause => some cause
  | _ => none

/-- The wordings of an error and of the errors behind it, the outermost first. -/
def chain (error : CommandError) : List String :=
  error.message ::
    match error.cause? with
    | some cause => cause.chain
    | none => []

end CommandError

namespace Command

/-- A document as it is shown, with a new line behind it. -/
def shown (document : Json) : List UInt8 :=
  Text.encode (document.pretty ++ "\n")

/-- Writes the document of what a lookup gave back behind an output. Where the lookup failed, the
command fails too, and the output stays as it is. -/
def writeListed {α : Type} (output : List UInt8) (write : α → Json)
    (wrap : LookupError → CommandError) :
    Except LookupError α → Except CommandError Unit × List UInt8
  | .ok value => (.ok (), output ++ shown (write value))
  | .error cause => (.error (wrap cause), output)

/-- Carries out a command that writes to an output. Gives back how the command ended, and the output
afterwards. -/
def carryOut (terms : Terms) (output : List UInt8) :
    Command → Lookup (Except CommandError Unit × List UInt8)
  | .interactions name orphans => do
    let found ← Lookup.interactions (Target.ofText name) orphans
    pure (.ok (), output ++ found.getD (Text.encode "null") ++ Text.encode "\n")
  | .hierarchy name => do
    let view ← Lookup.hierarchy (Target.ofText name)
    pure (.ok (), output ++ shown view.toJson)
  | .metrics name => do
    let view ← Lookup.costHierarchy terms (Target.ofText name)
    pure (.ok (), output ++ shown view.toJson)
  | .labels pairs => do
    let listed ← Lookup.uidsByLabels (LabelMap.ofPairs pairs)
    pure (writeListed output (fun uids => .array (uids.map .string)) .labelLookup listed)
  | .livePods => do
    let listed ← Lookup.livePods
    pure (writeListed output (fun pods => .array (pods.map Pod.toJson)) .livePodLookup listed)

/-- Carries out a command on an empty output. Gives back what it has written, or why it failed. -/
def run (terms : Terms) (command : Command) : Lookup (Except CommandError (List UInt8)) := do
  let (result, output) ← command.carryOut terms []
  pure (result.map fun _ => output)

/-- The trimmed name of a single pod. -/
def singlePod (name : String) : Except CommandError String :=
  match Target.ofText name with
  | .named _ => .ok (Text.trim name)
  | .all => .error (.needsSinglePod name)

/-- The request a command would send. Costs are asked for by the default prices, because finding out
the prices of a pod takes a request of its own. -/
def request (terms : Terms) : Command → Except CommandError Query
  | .interactions name orphans => .ok (Request.interactions (Target.ofText name) orphans)
  | .hierarchy name => do
    let pod ← singlePod name
    .ok (Request.hierarchy pod)
  | .metrics name => do
    let pod ← singlePod name
    .ok (Request.costHierarchy pod terms.window.elapsedSeconds
      (Lookup.rates terms.pricing terms.pricing.unitPrices))
  | .labels pairs =>
    match Request.labelFilter? (LabelMap.ofPairs pairs) with
    | some filter => .ok (Request.labelUids filter)
    | none => .error .noLabelPair
  | .livePods => .ok Request.livePods

end Command

end PodCosts
