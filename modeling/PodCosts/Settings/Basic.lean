import PodCosts.Number.Layout
import PodCosts.Text.Blank

/-!
# Settings

Default prices, and the store to ask. Settings are accepted with any price; `Settings.warnings` says
what is odd about them.
-/

namespace PodCosts

/-- Default prices per hour. -/
structure Pricing where
  cpuPerCoreHour : Float
  memoryPerGbHour : Float
  storagePerGbHour : Float

namespace Pricing

/-- The prices that hold unless others are set. -/
def standard : Pricing :=
  ⟨0.024, 0.01, 0.00013888888⟩

end Pricing

/-- Where the store is, and how long to wait for it; zero seconds mean without end. -/
structure StoreSettings where
  endpoint : String
  timeoutSecs : Nat
deriving DecidableEq

namespace StoreSettings

/-- The store that is asked unless another one is set. -/
def standard : StoreSettings :=
  ⟨"http://127.0.0.1:8080", 30⟩

end StoreSettings

/-- All settings. -/
structure Settings where
  pricing : Pricing
  store : StoreSettings

/-- The kinds of warnings about settings. -/
inductive WarningCode where
  | invalidPrice
  | zeroTimeout
deriving DecidableEq

/-- The name of a kind of warning. -/
def WarningCode.text : WarningCode → String
  | .invalidPrice => "invalid_price"
  | .zeroTimeout => "zero_timeout"

/-- Something odd about settings. -/
structure Warning where
  code : WarningCode
  message : String
deriving DecidableEq

/-- An endpoint without blanks around it and without slashes at its end. The slashes are dropped
last, so blanks in front of them stay. -/
def trimEndpoint (endpoint : String) : String :=
  String.ofList (Text.dropEndWhile (· == '/') (Text.trimChars endpoint.toList))

namespace Settings

/-- The settings that hold unless others are made. -/
def standard : Settings :=
  ⟨Pricing.standard, StoreSettings.standard⟩

/-- Trims the endpoint; nothing left of it stands for the usual one. -/
def normalized (settings : Settings) : Settings :=
  let endpoint := trimEndpoint settings.store.endpoint
  let endpoint := if endpoint = "" then StoreSettings.standard.endpoint else endpoint
  { settings with store := { settings.store with endpoint } }

/-- The prices with the names they are set by. -/
def namedPrices (pricing : Pricing) : List (String × Float) :=
  [("pricing.cpu_per_core_hour", pricing.cpuPerCoreHour),
    ("pricing.memory_per_gb_hour", pricing.memoryPerGbHour),
    ("pricing.storage_per_gb_hour", pricing.storagePerGbHour)]

/-- Whether a price makes sense. -/
def isPrice (value : Float) : Bool :=
  value.isFinite && !(value < 0)

/-- The warning about a price. -/
def priceWarning (name : String) (value : Float) : Warning :=
  ⟨.invalidPrice, name ++ " must be a finite, non-negative number (got " ++
    Number.Layout.message.text value ++ ")"⟩

/-- The warning about a missing time limit. -/
def timeoutWarning : Warning :=
  ⟨.zeroTimeout, "store.timeout_secs is 0; store requests will not time out"⟩

/-- What is odd about settings: prices first, in their order, then the time limit. -/
def warnings (settings : Settings) : List Warning :=
  ((namedPrices settings.pricing).filter fun price => !isPrice price.2).map
      (fun price => priceWarning price.1 price.2) ++
    if settings.store.timeoutSecs = 0 then [timeoutWarning] else []

end Settings

end PodCosts
