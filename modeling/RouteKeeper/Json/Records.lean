import RouteKeeper.Json.Reader
import RouteKeeper.Ledger
import RouteKeeper.Prefix.Text
import RouteKeeper.Probe.Stats
import RouteKeeper.Settings

/-!
# Domain types in JSON

How the values that are exchanged with other programs are read from JSON and written to it.
Records are objects, names and addresses are texts, and marks are a number. A reason is an object
whose field `reason` names it.
-/
namespace RouteKeeper

namespace Json

/-! ## Parts -/

/-- An address. -/
def address (j : Json) : Option Address := (dataFormat.text j).bind Address.parse

/-- A connection. -/
def connection (j : Json) : Option ConnectionName := (dataFormat.text j).map ConnectionName.mk

/-- A group. -/
def group (j : Json) : Option GroupName := (dataFormat.text j).map GroupName.mk

/-- A duration: seconds and nanoseconds, which may be a second and more. No other field may be
given. -/
def duration (j : Json) : Option Duration := do
  let f ← dataFormat.fields? ["secs", "nanos"] j
  let seconds ← f.required "secs" 0 (dataFormat.natural most64)
  let nanos ← f.required "nanos" 1 (dataFormat.natural most32)
  match j with
  | object entries =>
    if entries.any fun e => e.1 ≠ "secs" && e.1 ≠ "nanos" then none
  | _ => pure ()
  Duration.ofNanos? (seconds * 1000000000 + nanos)

/-- A double. -/
def double (j : Json) : Option Double := (dataFormat.number j).map Double.ofFloat

/-- A double as a number. -/
def ofDouble (x : Double) : Json := float x.toFloat

/-- A natural number. -/
def ofNat (n : Nat) : Json := integer n

/-- A duration as seconds and nanoseconds. -/
def ofDuration (d : Duration) : Json :=
  object [("secs", ofNat d.wholeSeconds), ("nanos", ofNat d.subsecond)]

/-- A value or nothing. -/
def ofOption {α : Type} (write : α → Json) : Option α → Json
  | some a => write a
  | none => null

/-- A value that may be nothing. -/
def orNothing {α : Type} (read : Json → Option α) : Json → Option (Option α) :=
  dataFormat.orNothing read

end Json

open Json (dataFormat)

/-! ## Reading -/

/-- Read marks. -/
def Flags.ofJson? (j : Json) : Option Flags := (dataFormat.natural most8 j).map Flags.ofBits

/-- How deep values can be nested that are read before it is known what they are for. -/
def Json.maxDepth : Nat := 127

/-- Read the parts of a reason with a name from its other fields. A reason without parts takes any
object; as an array it must be complete. -/
def Reason.ofParts? (name : String) (j : Json) : Option Reason := do
  let isComplete (j : Json) : Bool := match j with
    | .array items => items.isEmpty
    | _ => true
  match name with
  | "no_change" => if isComplete j then some .unchanged else none
  | "new_route" => if isComplete j then some .newRoute else none
  | "loss_improved" =>
    let f ← dataFormat.fields? ["old", "new"] j
    return .lossImproved (← f.required "old" 0 Json.double) (← f.required "new" 1 Json.double)
  | "latency_improved" =>
    let f ← dataFormat.fields? ["old", "new"] j
    return .latencyImproved (← f.required "old" 0 Json.duration)
      (← f.required "new" 1 Json.duration)
  | "route_deleted" =>
    let f ← dataFormat.fields? ["loss"] j
    return .deleted (← f.mayBeEmpty "loss" 0 (Json.orNothing Json.double))
  | _ => none

/-- Read a reason, inside of so many objects or arrays. -/
def Reason.ofJson? (outside : Nat) (j : Json) : Option Reason :=
  if j.isReadable (Json.maxDepth - outside) then
    match j with
    | .object entries =>
      match entries.filter fun e => e.1 = "reason" with
      | [(_, .text name)] => ofParts? name (.object (entries.filter fun e => e.1 ≠ "reason"))
      | _ => none
    | .array (.text name :: rest) => ofParts? name (.array rest)
    | _ => none
  else none

/-- Read a selection. -/
def Selection.ofJson? (j : Json) : Option Selection := do
  let f ← dataFormat.fields? ["address", "connection", "reason"] j
  return {
    address := ← f.mayBeEmpty "address" 0 (Json.orNothing Json.address)
    connection := ← f.mayBeEmpty "connection" 1 (Json.orNothing Json.connection)
    reason := ← f.required "reason" 2 (Reason.ofJson? 1) }

/-- Read a path's specification. -/
def PathSpec.ofJson? (j : Json) : Option PathSpec := do
  let f ← dataFormat.fields? ["connection", "interface", "gateway", "address"] j
  return {
    connection := ← f.required "connection" 0 Json.connection
    interface := ← f.required "interface" 1 dataFormat.text
    gateway := ← f.withDefault "gateway" 2 (Json.orNothing Json.address) none
    address := ← f.required "address" 3 Json.address }

/-- Read an active route. -/
def ActiveRoute.ofJson? (j : Json) : Option ActiveRoute := do
  let f ← dataFormat.fields? ["connection", "interface", "gateway"] j
  return {
    connection := ← f.required "connection" 0 Json.connection
    hop := {
      interface := ← f.required "interface" 1 dataFormat.text
      gateway := ← f.mayBeEmpty "gateway" 2 (Json.orNothing Json.address) } }

/-- Read the counts of a target. -/
def ProbeStats.ofJson? (j : Json) : Option ProbeStats := do
  let f ← dataFormat.fields? ["sent", "received", "duplicates", "last_rtt", "last_ttl"] j
  let count := dataFormat.natural most32
  let hops (j : Json) : Option UInt8 := (dataFormat.natural most8 j).map UInt8.ofNat
  return {
    sent := ← f.required "sent" 0 count
    received := ← f.required "received" 1 count
    duplicates := ← f.required "duplicates" 2 count
    lastRtt := ← f.mayBeEmpty "last_rtt" 3 (Json.orNothing Json.duration)
    lastTtl := ← f.mayBeEmpty "last_ttl" 4 (Json.orNothing hops) }

/-- Read a status. -/
def RouteStatus.ofJson? (j : Json) : Option RouteStatus := do
  let f ← dataFormat.fields? ["group", "destination", "ok", "message"] j
  return {
    group := ← f.required "group" 0 Json.group
    destination := ← f.required "destination" 1 fun j => (dataFormat.text j).bind Prefix.parse
    ok := ← f.required "ok" 2 dataFormat.flag
    message := ← f.required "message" 3 dataFormat.text }

/-! ## Writing -/

/-- Write marks. -/
def Flags.toJson (f : Flags) : Json := .ofNat f.bits

/-- Write a reason. -/
def Reason.toJson (r : Reason) : Json :=
  let named (name : String) (parts : List (String × Json)) : Json :=
    .object (("reason", .text name) :: parts)
  match r with
  | .unchanged => named "no_change" []
  | .newRoute => named "new_route" []
  | .lossImproved old new => named "loss_improved" [("old", .ofDouble old), ("new", .ofDouble new)]
  | .latencyImproved old new =>
    named "latency_improved" [("old", .ofDuration old), ("new", .ofDuration new)]
  | .deleted loss => named "route_deleted" [("loss", .ofOption .ofDouble loss)]

/-- Write a selection. -/
def Selection.toJson (s : Selection) : Json :=
  .object
    [("address", .ofOption (fun a => .text (Address.text a)) s.address),
      ("connection", .ofOption (fun c => .text (ConnectionName.text c)) s.connection),
      ("reason", s.reason.toJson)]

/-- Write a policy. -/
def Policy.toJson (p : Policy) : Json :=
  .object
    [("strategy", .text p.strategy.name), ("window_size", .ofNat p.windowSize),
      ("reroute_ratio", .float p.rerouteRatio), ("reroute_diff", .text p.rerouteDiff.text),
      ("route_delete_loss_threshold", .ofNat p.deleteThreshold)]

/-- Write a path's specification. -/
def PathSpec.toJson (s : PathSpec) : Json :=
  .object
    [("connection", .text s.connection.text), ("interface", .text s.interface),
      ("gateway", .ofOption (fun a => .text (Address.text a)) s.gateway),
      ("address", .text s.address.text)]

/-- Write an active route. -/
def ActiveRoute.toJson (r : ActiveRoute) : Json :=
  .object
    [("connection", .text r.connection.text), ("interface", .text r.hop.interface),
      ("gateway", .ofOption (fun a => .text (Address.text a)) r.hop.gateway)]

/-- Write the counts of a target. -/
def ProbeStats.toJson (s : ProbeStats) : Json :=
  .object
    [("sent", .ofNat s.sent), ("received", .ofNat s.received), ("duplicates", .ofNat s.duplicates),
      ("last_rtt", .ofOption .ofDuration s.lastRtt),
      ("last_ttl", .ofOption (fun t => .ofNat (UInt8.toNat t)) s.lastTtl)]

/-- Write a status. -/
def RouteStatus.toJson (s : RouteStatus) : Json :=
  .object
    [("group", .text s.group.text), ("destination", .text s.destination.text),
      ("ok", .boolean s.ok), ("message", .text s.message)]

end RouteKeeper
