import RouteKeeper.Path
import RouteKeeper.RouteTable

/-!
# Service routes

A service is a prefix that is reached through one of several connections of a group, its candidates.
At most one route for it is active.
-/
namespace RouteKeeper

/-- The route that is installed for a service, and the connection that it goes through. -/
structure ActiveRoute where
  connection : ConnectionName
  hop : Hop
deriving DecidableEq

/-- A service of a group. -/
structure Service where
  destination : Prefix
  candidates : OrderedMap ConnectionName Flags
  active : Option ActiveRoute
  /-- The service lost its prefix to another group. -/
  disabled : Bool
  /-- The place of the service among all claims: smaller numbers are older. -/
  claim : Nat

/-- What is to be done for a service. -/
inductive ServicePlan where
  | keep
  | install (target : ConnectionName)
  | move (target : ConnectionName)
  | clear (route : ActiveRoute)
deriving DecidableEq

namespace Service

/-- A service without candidates. -/
def new (destination : Prefix) (claim : Nat) : Service := ⟨destination, .empty, none, false, claim⟩

/-- The candidates that are to stay. -/
def liveCandidates (s : Service) : List ConnectionName :=
  (s.candidates.filter fun _ f => !f.pendingDelete).keys

/-- No candidate is to stay. -/
def isCleared (s : Service) : Bool := s.liveCandidates.isEmpty

/-- The candidates that wait to be taken in. -/
def pendingAdds (s : Service) : Nat := s.candidates.values.countP Flags.pendingAdd

/-- The candidates that wait to be removed. -/
def pendingDeletes (s : Service) : Nat := s.candidates.values.countP Flags.pendingDelete

/-- What leads from the active route to the desired connection. -/
def plan (s : Service) (desired : Option ConnectionName) : ServicePlan :=
  match s.active, (if s.isCleared || s.disabled then none else desired) with
  | none, none => .keep
  | none, some target => .install target
  | some route, none => .clear route
  | some route, some target => if route.connection = target then .keep else .move target

/-- Drop the candidates to be removed and take in the others. -/
def commit (s : Service) : Service :=
  { s with
    candidates := (s.candidates.filter fun _ f => !f.pendingDelete).map fun f =>
      { f with pendingAdd := false } }

end Service

end RouteKeeper
