import RouteKeeper.Agent
import RouteKeeper.Decimal.Shortest
import RouteKeeper.Settings
import RouteKeeper.Text.Visible

/-!
# Diagnostic texts

What is shown of the parts of the program to those who look for faults: records with the names of
their fields, and texts in quotes with everything escaped that could not be seen.
-/
namespace RouteKeeper

namespace Diagnostic

/-- A record with named fields. -/
def record (name : String) (fields : List (String × String)) : String :=
  name ++ " \x7b " ++ ", ".intercalate (fields.map fun f => f.1 ++ ": " ++ f.2) ++ " \x7d"

/-- A value that may be missing. -/
def orNone : Option String → String
  | some s => "Some(" ++ s ++ ")"
  | none => "None"

/-- A collection without elements. -/
def emptyMap : String := "\x7b\x7d"

/-- A character of a quoted text. -/
def character (c : Char) : String :=
  match c with
  | '"' => "\\\""
  | '\\' => "\\\\"
  | '\n' => "\\n"
  | '\r' => "\\r"
  | '\t' => "\\t"
  | '\x00' => "\\0"
  | c =>
    if Text.isVisible c then c.toString
    else "\\u\x7b" ++ String.ofList (Nat.toDigits 16 c.toNat) ++ "\x7d"

/-- A text in quotes. -/
def quoted (s : String) : String := "\"" ++ String.join (s.toList.map character) ++ "\""

end Diagnostic

open Diagnostic (record)

def Strategy.diagnostic : Strategy → String
  | lowestLatency => "LowestLatency"
  | preferDirect => "PreferDirect"

def ProbeMode.diagnostic : ProbeMode → String
  | privileged => "Privileged"
  | unprivileged => "Unprivileged"

def Policy.diagnostic (p : Policy) : String :=
  record "SelectorConfig"
    [("strategy", p.strategy.diagnostic), ("window_size", toString p.windowSize),
      ("reroute_ratio", Decimal.diagnostic.write p.rerouteRatio),
      ("reroute_diff", p.rerouteDiff.diagnostic),
      ("route_delete_loss_threshold", toString p.deleteThreshold)]

def ProbeSettings.diagnostic (s : ProbeSettings) : String :=
  record "ProbeConfig"
    [("mode", s.mode.diagnostic), ("interval", s.interval.diagnostic),
      ("timeout", s.timeout.diagnostic), ("payload_size", toString s.payloadSize)]

/-- The text of the system's route table. -/
def RoutingSettings.tableDiagnostic (s : RoutingSettings) : String :=
  record "SystemRouteAdapter" [("table", Diagnostic.orNone (s.table.map toString))]

def Prober.diagnostic (p : Prober) : String :=
  record "Prober"
    [("mode", p.mode.diagnostic), ("payload_size", toString p.payloadSize),
      ("ipv4", toString (p.isOpen .v4)), ("ipv6", toString (p.isOpen .v6))]

def Router.diagnostic (r : Router) : String :=
  record "Router" [("groups", toString r.groups.size), ("selection", r.policy.diagnostic)]

/-- The text of a group without paths, services and selection. -/
def Group.newDiagnostic (name : GroupName) (policy : Policy) : String :=
  record "RouteGroup"
    [("id", "GroupId(" ++ Diagnostic.quoted name.text ++ ")"), ("paths", Diagnostic.emptyMap),
      ("services", Diagnostic.emptyMap),
      ("selector",
        record "PathSelector"
          [("config", policy.diagnostic), ("last_best", Diagnostic.orNone none)]),
      ("selection", Diagnostic.orNone none)]

def Agent.diagnostic {σ : Type} (a : Agent σ) : String :=
  record "Agent" [("probe", a.settings.diagnostic), ("router", a.router.diagnostic)]

end RouteKeeper
