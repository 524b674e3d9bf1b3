import RouteKeeper.Prefix.Text
import RouteKeeper.RouteTable

/-!
# A route table in memory

The table maps prefixes to hops. Fault rules make chosen operations fail instead: a rule names an
operation, perhaps a destination, and perhaps how often it applies; of several that fit, the oldest
applies.
-/
namespace RouteKeeper.RouteTable

/-- The operations that a fault rule can name. -/
inductive CallKind where
  | owner
  | add
  | replace
  | remove
deriving DecidableEq

/-- How an operation fails. -/
inductive FaultKind where
  | io
  | external
  | unsupported
  | refused
deriving DecidableEq

/-- A rule that makes operations fail. -/
structure FaultRule where
  call : CallKind
  /-- The only destination the rule is for, if it is not for all. -/
  destination : Option Prefix
  kind : FaultKind
  reason : String
  /-- How often the rule still applies, if not without end. -/
  remaining : Option Nat
deriving DecidableEq

namespace FaultRule

/-- The rule applies to this operation. -/
def applies (r : FaultRule) (call : CallKind) (destination : Prefix) : Bool :=
  r.call = call && (r.destination.all (· = destination)) && r.remaining.all (· > 0)

/-- Apply the first rule that fits; it is used up by one. -/
def fire (call : CallKind) (destination : Prefix) :
    List FaultRule → Option (FaultRule × List FaultRule)
  | [] => none
  | r :: rest =>
    if r.applies call destination then
      some (r, { r with remaining := r.remaining.map (· - 1) } :: rest)
    else (fire call destination rest).map fun (hit, rest) => (hit, r :: rest)

end FaultRule

/-- A table in memory and the rules by which it fails. -/
structure Memory where
  routes : OrderedMap Prefix Hop
  rules : List FaultRule

namespace Memory

/-- The table without routes, which never fails. -/
def empty : Memory := ⟨.empty, []⟩

/-- The error of a failing operation. -/
def fault (rule : FaultRule) (destination : Prefix) (interface : String) : Error :=
  match rule.kind with
  | .io => .io rule.reason
  | .external => .route (.externalConflict destination.text rule.reason)
  | .unsupported => .route .unsupported
  | .refused =>
    match rule.call with
    | .owner => .route (.lookupFailed rule.reason)
    | .add => .route (.addFailed destination.text interface rule.reason)
    | .replace => .route (.replaceFailed destination.text interface rule.reason)
    | .remove => .route (.deleteFailed destination.text interface rule.reason)

/-- Let an operation fail if a rule says so, and else do it. -/
def guarded {α : Type} (call : CallKind) (destination : Prefix) (interface : String)
    (act : OrderedMap Prefix Hop → α × OrderedMap Prefix Hop) (m : Memory) :
    Except Error α × Memory :=
  match FaultRule.fire call destination m.rules with
  | some (rule, rules) => (.error (fault rule destination interface), { m with rules })
  | none =>
    let (answer, routes) := act m.routes
    (.ok answer, { m with routes })

end Memory

/-- The route table in memory. A route is removed only if it goes through the interface that is
given; removing another one changes nothing and succeeds. -/
def memory : RouteTable Memory where
  owner d := Memory.guarded .owner d "" fun routes => ((routes.get? d).map Hop.interface, routes)
  add d hop := Memory.guarded .add d hop.interface fun routes => ((), routes.insert d hop)
  replace d hop := Memory.guarded .replace d hop.interface fun routes => ((), routes.insert d hop)
  remove d interface :=
    Memory.guarded .remove d interface fun routes =>
      ((), if (routes.get? d).any (·.interface = interface) then routes.erase d else routes)

/-- The text of a hop. -/
def hopText (hop : Hop) : String :=
  hop.interface ++ " via " ++ (hop.gateway.map Address.text).getD "-"

/-- The text of an operation, with a mark if it failed. -/
def callText (call : RouteCall) (failed : Bool) : String :=
  let text := match call with
    | .owner => "conflict"
    | .add hop => "add " ++ hopText hop
    | .replace hop => "replace " ++ hopText hop
    | .remove interface => "del " ++ interface
  if failed then text ++ " !" else text

end RouteKeeper.RouteTable
