import RouteKeeper.DataFormat
import RouteKeeper.Decimal.Shortest
import RouteKeeper.Error
import RouteKeeper.Probe
import RouteKeeper.Selection

/-!
# Settings

The settings of everything, in four sections. They are valid if the parts can work with them; the
first rule that is broken is the one reported.
-/
namespace RouteKeeper

/-- How often routes are reconciled, and the system's route table that is used if it is not the main
one. -/
structure RoutingSettings where
  applyInterval : Duration
  table : Option Nat

def RoutingSettings.default : RoutingSettings := ⟨.seconds 5, none⟩

/-- What is logged and how. -/
structure LoggingSettings where
  level : String
  format : String
  color : Bool
deriving DecidableEq

def LoggingSettings.default : LoggingSettings := ⟨"info", "text", true⟩

/-- All settings. -/
structure Settings where
  probe : ProbeSettings
  selection : Policy
  routing : RoutingSettings
  logging : LoggingSettings

namespace Settings

def default : Settings := ⟨.default, .default, .default, .default⟩

/-- The rule that settings break, if they break one. -/
def defect? (s : Settings) : Option String :=
  if s.selection.windowSize = 0 then some "selection.window_size must be at least 1"
  else if !(s.selection.rerouteRatio ≥ 1.0) then
    some ("selection.reroute_ratio must be >= 1.0, got " ++
      Decimal.plain.write s.selection.rerouteRatio)
  else if s.selection.deleteThreshold > 100 then
    some
      s!"selection.route_delete_loss_threshold is a percentage, got {s.selection.deleteThreshold}"
  else if s.probe.payloadSize < leastPayload then
    some s!"probe.payload_size must be at least {leastPayload} bytes"
  else if s.probe.timeout.isZero || s.probe.timeout ≥ s.probe.interval then
    some "probe.timeout must be non-zero and shorter than probe.interval"
  else if s.routing.applyInterval.isZero then some "router.apply_interval must be non-zero"
  else none

/-- Refuse settings that are not valid. -/
def validate (s : Settings) : Except Error Unit :=
  match s.defect? with
  | some rule => .error (.invalidConfig rule)
  | none => .ok ()

end Settings

/-! ## Names of choices -/

namespace ProbeMode

/-- The modes by name. -/
def names : List (String × ProbeMode) :=
  [("privileged", privileged), ("unprivileged", unprivileged)]

def name : ProbeMode → String
  | privileged => "privileged"
  | unprivileged => "unprivileged"

end ProbeMode

namespace Strategy

/-- The strategies by name. -/
def names : List (String × Strategy) :=
  [("lowest_latency", lowestLatency), ("prefer_direct", preferDirect)]

def name : Strategy → String
  | lowestLatency => "lowest_latency"
  | preferDirect => "prefer_direct"

end Strategy

/-! ## Reading

Fields that are not given keep their defaults. -/

variable {α : Type}

/-- Read how to probe. -/
def ProbeSettings.read (F : DataFormat α) : α → Except ReadFault ProbeSettings :=
  F.assign ["mode", "interval", "timeout", "payload_size"] .default fun name a s => do
    match name with
    | "mode" => return { s with mode := ← ReadFault.ofOption (F.oneOf ProbeMode.names a) }
    | "interval" => return { s with interval := ← F.duration a }
    | "timeout" => return { s with timeout := ← F.duration a }
    | "payload_size" => return { s with payloadSize := ← ReadFault.ofOption (F.natural most64 a) }
    | _ => return s

/-- The names of the fields of a policy. -/
def Policy.fieldNames : List String :=
  ["strategy", "window_size", "reroute_ratio", "reroute_diff", "route_delete_loss_threshold"]

/-- Read how to select paths. -/
def Policy.read (F : DataFormat α) : α → Except ReadFault Policy :=
  F.assign Policy.fieldNames .default fun name a p => do
    match name with
    | "strategy" => return { p with strategy := ← ReadFault.ofOption (F.oneOf Strategy.names a) }
    | "window_size" => return { p with windowSize := ← ReadFault.ofOption (F.natural most64 a) }
    | "reroute_ratio" => return { p with rerouteRatio := ← ReadFault.ofOption (F.number a) }
    | "reroute_diff" => return { p with rerouteDiff := ← F.duration a }
    | "route_delete_loss_threshold" =>
      return { p with deleteThreshold := ← ReadFault.ofOption (F.natural most8 a) }
    | _ => return p

/-- Read how to reconcile routes. -/
def RoutingSettings.read (F : DataFormat α) : α → Except ReadFault RoutingSettings :=
  F.assign ["apply_interval", "table"] .default fun name a s => do
    match name with
    | "apply_interval" => return { s with applyInterval := ← F.duration a }
    | "table" => return { s with table := ← ReadFault.ofOption (F.orNothing (F.natural most32) a) }
    | _ => return s

/-- Read how to log. -/
def LoggingSettings.read (F : DataFormat α) : α → Except ReadFault LoggingSettings :=
  F.assign ["level", "format", "color"] .default fun name a s => do
    match name with
    | "level" => return { s with level := ← ReadFault.ofOption (F.text a) }
    | "format" => return { s with format := ← ReadFault.ofOption (F.text a) }
    | "color" => return { s with color := ← ReadFault.ofOption (F.flag a) }
    | _ => return s

/-- Read all settings. -/
def Settings.read (F : DataFormat α) : α → Except ReadFault Settings :=
  F.assign ["probe", "selection", "router", "logging"] .default fun name a s => do
    match name with
    | "probe" => return { s with probe := ← ProbeSettings.read F a }
    | "selection" => return { s with selection := ← Policy.read F a }
    | "router" => return { s with routing := ← RoutingSettings.read F a }
    | "logging" => return { s with logging := ← LoggingSettings.read F a }
    | _ => return s

end RouteKeeper
