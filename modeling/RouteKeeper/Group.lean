import RouteKeeper.Selection
import RouteKeeper.Service

/-!
# Groups

A group holds the paths to one peer, the services behind it, and the selector that chooses among the
paths. Changes only mark what is wanted; reconciliation does the rest. The windows of a group have
one size, so shares of lost rounds are compared as exact ratios.
-/
namespace RouteKeeper

/-- Paths and services that belong together. -/
structure Group where
  name : GroupName
  paths : Paths
  services : OrderedMap Prefix Service
  selector : Selector
  /-- The latest selection, if there was one. -/
  selection : Option Selection

namespace Group

/-- A group without paths and services. -/
def new (name : GroupName) (policy : Policy) : Group := ⟨name, .empty, .empty, .new policy, none⟩

def isEmpty (g : Group) : Bool := g.paths.isEmpty && g.services.isEmpty

/-! ## Changes -/

/-- Add a path, or change the one of the same connection. -/
def addPath (g : Group) (spec : PathSpec) (claim : Nat) : Group :=
  { g with
    paths := g.paths.insert spec.connection <|
      match g.paths.get? spec.connection with
      | some path => path.update spec
      | none => .new spec g.name g.selector.policy.windowSize claim }

/-- Mark a path, and its candidacies for services, to be removed. -/
def deletePath (g : Group) (connection : ConnectionName) : Group :=
  if g.paths.contains connection then
    { g with
      paths := g.paths.modify connection fun p => { p with flags := p.flags.toDelete }
      services := g.services.map fun s =>
        { s with
          candidates := s.candidates.modify connection fun f => { f with pendingDelete := true } } }
  else g

/-- Make a connection a candidate for a service. -/
def addService (g : Group) (destination : Prefix) (connection : ConnectionName) (claim : Nat) :
    Group :=
  let destination := destination.normal
  let service := (g.services.get? destination).getD (.new destination claim)
  let flags := (service.candidates.get? connection).getD .none
  { g with
    services := g.services.insert destination
      { service with candidates := service.candidates.insert connection flags.toAdd } }

/-- Mark a candidate for a service to be removed. -/
def deleteService (g : Group) (destination : Prefix) (connection : ConnectionName) : Group :=
  { g with
    services := g.services.modify destination.normal fun s =>
      { s with candidates := s.candidates.modify connection Flags.toDelete } }

/-- Mark everything to be removed. -/
def flush (g : Group) : Group :=
  { g with
    paths := g.paths.map fun p => { p with flags := p.flags.toDelete }
    services := g.services.map fun s => { s with candidates := s.candidates.map Flags.toDelete } }

/-! ## Selection -/

/-- Select a path anew. -/
def reselect (g : Group) : Group :=
  let (selection, selector) := g.selector.select Loss.less g.paths
  { g with selection := some selection, selector }

/-- The candidates for a service whose paths may be selected. -/
def usable (g : Group) (s : Service) : List ConnectionName :=
  s.liveCandidates.filter fun c => (g.paths.get? c).any Path.isValid

/-- The connection that a service should go through: the selected one if it is a candidate, else the
best candidate; none if nothing is selected. -/
def desired (g : Group) (s : Service) : Option ConnectionName :=
  match g.selection with
  | none => none
  | some selection =>
    match selection.connection.filter (g.usable s).contains with
    | some c => some c
    | none =>
      if selection.isDelete then none
      else (Path.best Loss.less ((g.usable s).filterMap g.paths.get?)).map Path.connection

end Group

end RouteKeeper
