import RouteKeeper.Ledger
import RouteKeeper.Prefix.Text
import RouteKeeper.Router

/-!
# Reconciling single entries

One pass over a router visits the groups in order. In each group it brings the route of every path
in line with what is wanted, selects anew, and then does the same for every service. The route
table, the current owner of each prefix and the ledger are threaded through.

## Main definitions

* `Pass` — what is threaded through.
* `install` — make a route, unless it belongs to somebody else.
* `reconcilePath`, `reconcileService` — one entry.
* `reconcileGroup`, `Router.pass` — all entries.
-/
namespace RouteKeeper

/-- The running state of a pass over a router. -/
structure Pass (σ : Type) where
  table : σ
  /-- The group that has a route for a prefix. -/
  owners : OrderedMap Prefix GroupName
  ledger : Ledger

/-- The order in which the services of a group are visited in a pass, given what is there. -/
abbrev Visit := GroupName → List Prefix → List Prefix

/-- Visit services in the order of their prefixes. -/
def Visit.inOrder : Visit := fun _ prefixes => prefixes

variable {σ : Type}

/-- Make a route: a new one where there is none, and in place of a route through one of the managed
interfaces. A route through any other interface belongs to somebody else. -/
def install (T : RouteTable σ) (managed : List String) (destination : Prefix) (hop : Hop) (s : σ) :
    Except Error Outcome × σ :=
  match T.owner destination s with
  | (.error e, s) => (.error e, s)
  | (.ok none, s) =>
    match T.add destination hop s with
    | (.error e, s) => (.error e, s)
    | (.ok (), s) => (.ok .added, s)
  | (.ok (some interface), s) =>
    if managed.contains interface then
      match T.replace destination hop s with
      | (.error e, s) => (.error e, s)
      | (.ok (), s) => (.ok .replaced, s)
    else (.error (.route (.externalConflict destination.text interface)), s)

namespace Pass

/-- Enter an attempt and its outcome, with the new state of the table. -/
def tried (pass : Pass σ) (table : σ) (group : GroupName) (claimant : Claimant)
    (destination : Prefix) (action : Action) (result : Except Error Outcome) : Pass σ :=
  match result with
  | .ok outcome =>
    { pass with
      table
      ledger := (pass.ledger.attempt ⟨group, claimant, destination, action, none⟩).outcome group
        destination outcome }
  | .error e =>
    { pass with
      table
      ledger := (pass.ledger.attempt ⟨group, claimant, destination, action, some e⟩).outcome group
        destination (.failed e) }

/-- The group has the route for a prefix now. -/
def own (pass : Pass σ) (destination : Prefix) (group : GroupName) : Pass σ :=
  { pass with owners := pass.owners.insert destination group }

/-- The group no longer has the route for a prefix, if it had it. -/
def disown (pass : Pass σ) (destination : Prefix) (group : GroupName) : Pass σ :=
  if pass.owners.get? destination = some group then
    { pass with owners := pass.owners.erase destination }
  else pass

/-- Another group has the route for a prefix. -/
def isBlocked (pass : Pass σ) (destination : Prefix) (group : GroupName) : Bool :=
  (pass.owners.get? destination).any (· ≠ group)

end Pass

/-- Bring the route of a path in line with what is wanted. A path to be removed goes once its route
is gone. -/
def reconcilePath (T : RouteTable σ) (managed : List String) (group : GroupName) (pass : Pass σ)
    (path : Path) : Option Path × Pass σ :=
  let destination := path.destination
  if path.flags.pendingDelete then
    match path.installed with
    | none => (none, pass)
    | some interface =>
      let (answer, table) := T.remove destination interface pass.table
      let pass := pass.tried table group (.path path.connection) destination (.remove interface)
        (answer.map fun _ => .removed)
      match answer with
      | .error _ => (some path, pass)
      | .ok () => (none, pass.disown destination group)
  else if path.flags.disabled || (!path.flags.pendingAdd && path.isInstalled) ||
      pass.isBlocked destination group then
    (some path, pass)
  else
    let hop : Hop := ⟨path.interface, path.spec.gateway⟩
    let (result, table) := install T managed destination hop pass.table
    let pass := pass.tried table group (.path path.connection) destination (.install hop) result
    match result with
    | .error _ => (some path, pass)
    | .ok _ =>
      (some
        { path with
          installed := some path.interface
          flags := { path.flags with pendingAdd := false } },
        pass.own destination group)

/-- The route for a service through a connection of the group. -/
def Group.routeThrough (g : Group) (connection : ConnectionName) : Option ActiveRoute :=
  (g.paths.get? connection).map fun p => ⟨connection, ⟨p.interface, some p.spec.nextHop⟩⟩

/-- Settle a service after its plan succeeded: candidates are taken in or dropped, and a service
without candidates and route goes. -/
def Service.settle (s : Service) : Option Service :=
  let s := s.commit
  if s.isCleared && s.active.isNone then none else some s

/-- Enter the result of an attempt for a service, and with a success the new active route. -/
def finishService (group : GroupName) (service : Service) (pass : Pass σ) (table : σ)
    (action : Action) (result : Except Error Outcome) (current : Option ActiveRoute) :
    Option Service × Pass σ :=
  let pass := pass.tried table group .service service.destination action result
  match result with
  | .error _ => (some service, pass)
  | .ok _ =>
    let pass := match current with
      | some _ => pass.own service.destination group
      | none => pass.disown service.destination group
    ({ service with active := current }.settle,
      { pass with
        ledger := pass.ledger.change group (service.active.map ActiveRoute.connection)
          (current.map ActiveRoute.connection) })

/-- Bring the route of a service in line with what is wanted. -/
def reconcileService (T : RouteTable σ) (managed : List String) (g : Group) (pass : Pass σ)
    (service : Service) : Option Service × Pass σ :=
  let destination := service.destination
  match service.plan (g.desired service) with
  | .keep => (service.settle, pass)
  | .clear route =>
    let (answer, table) := T.remove destination route.hop.interface pass.table
    finishService g.name service pass table (.remove route.hop.interface)
      (answer.map fun _ => .removed) none
  | .install target =>
    match g.routeThrough target with
    | none => (service.settle, pass)
    | some route =>
      if pass.isBlocked destination g.name then (some service, pass)
      else
        let (result, table) := install T managed destination route.hop pass.table
        finishService g.name service pass table (.install route.hop) result (some route)
  | .move target =>
    match g.routeThrough target with
    | none => (service.settle, pass)
    | some route =>
      let (answer, table) := T.replace destination route.hop pass.table
      finishService g.name service pass table (.install route.hop)
        (answer.map fun _ => .replaced) (some route)

/-- Visit one service of a group, if it is still there. -/
def visitService (T : RouteTable σ) (managed : List String) (state : Group × Pass σ)
    (destination : Prefix) : Group × Pass σ :=
  match state.1.services.get? destination with
  | none => state
  | some service =>
    let (kept, pass) := reconcileService T managed state.1 state.2 service
    ({ state.1 with
        services := match kept with
          | some service => state.1.services.insert destination service
          | none => state.1.services.erase destination },
      pass)

/-- Bring the routes of a group in line with what is wanted: paths first, then a new selection, then
services. -/
def reconcileGroup (T : RouteTable σ) (managed : List String) (visit : Visit) (pass : Pass σ)
    (g : Group) : Group × Pass σ :=
  let (paths, pass) :=
    g.paths.sweep (fun pass _ path => reconcilePath T managed g.name pass path) pass
  let g := { g with paths }.reselect
  (visit g.name g.services.keys).foldl (visitService T managed) (g, pass)

/-- The prefixes that a group has routes for. -/
def Group.installedPrefixes (g : Group) : List Prefix :=
  (g.paths.values.filter Path.isInstalled).map Path.destination ++
    (g.services.values.filter (·.active.isSome)).map Service.destination

namespace Router

/-- The interfaces that the router uses: those of its paths, of the routes installed for paths and
of the active routes of services. -/
def managedInterfaces (r : Router) : List String :=
  r.groups.values.flatMap fun g =>
    (g.paths.values.flatMap fun p => p.interface :: p.installed.toList) ++
      g.services.values.filterMap fun s => s.active.map (·.hop.interface)

/-- The group that has a route for a prefix; of several the last by name. -/
def owners (r : Router) : OrderedMap Prefix GroupName :=
  .ofList (r.groups.values.flatMap fun g => g.installedPrefixes.map fun d => (d, g.name))

/-- Bring the routes of all groups in line with what is wanted. -/
def pass (T : RouteTable σ) (visit : Visit) (r : Router) (table : σ) (ledger : Ledger) :
    Router × σ × Ledger :=
  let (groups, pass) :=
    r.groups.sweep
      (fun pass _ g =>
        let (g, pass) := reconcileGroup T r.managedInterfaces visit pass g
        (some g, pass))
      ⟨table, r.owners, ledger⟩
  ({ r with groups }, pass.table, pass.ledger)

end Router

end RouteKeeper
