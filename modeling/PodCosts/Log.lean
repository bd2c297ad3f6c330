import PodCosts.CommandLine.Basic
import PodCosts.Json.Record
import PodCosts.Pod
import PodCosts.Settings.Basic
import PodCosts.Store

/-!
# Log lines

Events and warnings about settings as lines of text, in the form that people read or as documents.
-/

namespace PodCosts

/-- The name of a severity. -/
def Severity.text : Severity → String
  | .warning => "WARN"
  | .error => "ERROR"

namespace Log

/-- A line about something that was noticed at a time. -/
def line (format : LogFormat) (moment : Instant) (severity : Severity) (message : String)
    (details : List (String × Json)) : String :=
  match format with
  | .human =>
    Timestamp.text moment ++ " " ++ severity.text ++ " " ++ message ++
      String.join (details.map fun detail => " " ++ detail.1 ++ "=" ++ detail.2.compact)
  | .json =>
    (Json.object
      [ ("timestamp", Json.time moment), ("level", .string severity.text),
        ("fields", .object (("message", .string message) :: details)) ]).compact

/-- The labels that were asked for, as one text. -/
def labelsText (labels : LabelMap) : String :=
  (Json.object (labels.map fun (key, values) => (key, .array (values.map .string)))).compact

/-- The details of an event. -/
def details (event : Event) : List (String × Json) :=
  optionalField "operation" Json.string event.operation? ++
    optionalField "pod" Json.string event.pod? ++
    optionalField "orphans_only" Json.bool event.orphansOnly? ++
    optionalField "labels" (fun labels => Json.string (labelsText labels)) event.labels? ++
    optionalField "error" Json.string event.error?

/-- The line about an event. -/
def eventLine (format : LogFormat) (moment : Instant) (event : Event) : String :=
  line format moment event.severity event.message (details event)

/-- The line about something odd in the settings. -/
def warningLine (format : LogFormat) (moment : Instant) (warning : Warning) : String :=
  line format moment .warning warning.message [("code", .string warning.code.text)]

end Log

end PodCosts
