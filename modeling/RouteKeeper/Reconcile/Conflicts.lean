import RouteKeeper.Reconcile.Entries

/-!
# Conflicts between groups

Several groups may claim one prefix. One of them keeps it: the one with the oldest claim among
those that have a route, or among all if none has one. The claims of the others are disabled and
their routes removed. Where only one group is left with claims, its disabled claims are enabled
again; where none is, those of the group with the oldest.
-/
namespace RouteKeeper

/-- A claim of a group to a prefix. -/
structure Claim where
  group : GroupName
  claimant : Claimant
  installed : Bool
  disabled : Bool
  /-- The number of the claim: smaller numbers are older. -/
  number : Nat
deriving DecidableEq

namespace Claim

/-- The claim is older. -/
def older (a b : Claim) : Bool := a.number < b.number

/-- The claim comes first for keeping a prefix: installed before not installed, then the older. -/
def stronger (a b : Claim) : Bool :=
  (a.installed && !b.installed) || (a.installed == b.installed && a.older b)

end Claim

namespace Group

/-- The claims of a group, with the prefixes that they are for: those of paths that are to stay and
of services with a candidate that is to stay. -/
def claims (g : Group) : List (Prefix × Claim) :=
  ((g.paths.values.filter (!·.flags.pendingDelete)).map fun p =>
      (p.destination,
        ⟨g.name, .path p.connection, p.isInstalled, p.flags.disabled, p.claim⟩)) ++
    (g.services.values.filter (!·.isCleared)).map fun s =>
      (s.destination, ⟨g.name, .service, s.active.isSome, s.disabled, s.claim⟩)

end Group

/-- The claims to each claimed prefix, in the order of the groups. -/
def Router.contests (r : Router) : OrderedMap Prefix (List Claim) :=
  (r.groups.values.flatMap Group.claims).foldl
    (fun m e => m.insert e.1 ((m.get? e.1).getD [] ++ [e.2])) .empty

/-- What is to be done about the claims to one prefix. -/
structure Verdict where
  /-- Claims to disable, and the group that keeps the prefix from them. -/
  disable : List (Claim × GroupName)
  /-- Claims to enable. -/
  enable : List Claim
deriving DecidableEq

/-- Settle the claims to one prefix. -/
def settleClaims (claims : List Claim) : Verdict :=
  match claims.filter (!·.disabled) with
  | [] =>
    match firstLeast Claim.older claims with
    | none => ⟨[], []⟩
    | some oldest => ⟨[], claims.filter fun c => c.disabled && c.group = oldest.group⟩
  | c :: rest =>
    if rest.any (·.group ≠ c.group) then
      match firstLeast Claim.stronger (c :: rest) with
      | none => ⟨[], []⟩
      | some winner =>
        ⟨((c :: rest).filter (·.group ≠ winner.group)).map fun loser => (loser, winner.group), []⟩
    else ⟨[], claims.filter fun d => d.disabled && d.group = c.group⟩

/-- The running state of a resolution. -/
structure Resolution (σ : Type) where
  router : Router
  table : σ
  ledger : Ledger

variable {σ : Type}

namespace Resolution

/-- Change a group. -/
def withGroup (res : Resolution σ) (name : GroupName) (f : Group → Group) : Resolution σ :=
  { res with router := { res.router with groups := res.router.groups.modify name f } }

/-- Try to remove the route of a disabled claim. The outcome that counts for the destination is that
the claim is lost, whether or not this succeeds. -/
def remove (T : RouteTable σ) (res : Resolution σ) (destination : Prefix) (claim : Claim)
    (interface : String) : Bool × Resolution σ :=
  let (answer, table) := T.remove destination interface res.table
  let entry (error : Option Error) : Resolution σ :=
    { res with
      table
      ledger :=
        res.ledger.attempt ⟨claim.group, claim.claimant, destination, .remove interface, error⟩ }
  match answer with
  | .ok () => (true, entry none)
  | .error e => (false, entry (some e))

/-- Disable a claim and remove its route. A route that cannot be removed stays recorded. -/
def disable (T : RouteTable σ) (res : Resolution σ) (destination : Prefix) (claim : Claim)
    (winner : GroupName) : Resolution σ :=
  match res.router.groups.get? claim.group with
  | none => res
  | some group =>
    let res := { res with ledger := res.ledger.outcome claim.group destination (.lost winner) }
    match claim.claimant with
    | .path connection =>
      match group.paths.get? connection with
      | none => res
      | some path =>
        let (removed, res) := match path.installed with
          | none => (true, res)
          | some interface => res.remove T destination claim interface
        res.withGroup claim.group fun g =>
          { g with
            paths := g.paths.insert connection
              { path with
                flags := { path.flags with disabled := true }
                installed := if removed then none else path.installed } }
    | .service =>
      match group.services.get? destination with
      | none => res
      | some service =>
        let put (res : Resolution σ) (active : Option ActiveRoute) : Resolution σ :=
          res.withGroup claim.group fun g =>
            { g with
              services := g.services.insert destination { service with disabled := true, active } }
        match service.active with
        | none => put res none
        | some route =>
          match res.remove T destination claim route.hop.interface with
          | (false, res) => put res (some route)
          | (true, res) =>
            put { res with ledger := res.ledger.change claim.group (some route.connection) none }
              none

/-- Enable a claim; a path then waits to be installed. -/
def enable (res : Resolution σ) (destination : Prefix) (claim : Claim) : Resolution σ :=
  res.withGroup claim.group fun g =>
    match claim.claimant with
    | .path connection =>
      { g with
        paths := g.paths.modify connection fun p =>
          { p with flags := { p.flags with disabled := false, pendingAdd := true } } }
    | .service =>
      { g with services := g.services.modify destination fun s => { s with disabled := false } }

end Resolution

namespace Router

/-- Settle the claims to all prefixes; also count the claims that were disabled or enabled. All
verdicts are reached before the first is carried out. -/
def resolve (T : RouteTable σ) (r : Router) (table : σ) (ledger : Ledger) :
    Nat × Resolution σ :=
  let verdicts := r.contests.entries.map fun e => (e.1, settleClaims e.2)
  let disable := verdicts.flatMap fun v => v.2.disable.map fun d => (v.1, d)
  let enable := verdicts.flatMap fun v => v.2.enable.map fun c => (v.1, c)
  let res := disable.foldl (fun res d => res.disable T d.1 d.2.1 d.2.2) ⟨r, table, ledger⟩
  let res := enable.foldl (fun res c => res.enable c.1 c.2) res
  (disable.length + enable.length, res)

end Router

end RouteKeeper
