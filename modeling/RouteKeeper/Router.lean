import RouteKeeper.Group

/-!
# The router

The router owns the groups. Its operations record what is wanted and what was measured; they never
touch a route table. Claims to prefixes are numbered in the order in which they are made.
-/
namespace RouteKeeper

/-- The outcome of a probe round for one address, as far as a router needs it: the round-trip time,
or none if no answer came. -/
abbrev RoundTrips := OrderedMap Address (Option Duration)

/-- All groups, and the number of claims made. -/
structure Router where
  policy : Policy
  groups : OrderedMap GroupName Group
  claims : Nat

namespace Router

/-- A router without groups. -/
def new (policy : Policy) : Router := ⟨policy, .empty, 0⟩

/-- The group of a name, a new one if there is none. -/
def group (r : Router) (name : GroupName) : Group := (r.groups.get? name).getD (.new name r.policy)

/-- Ask for a path. A path without a usable address and interface is ignored. -/
def addPeer (r : Router) (name : GroupName) (spec : PathSpec) : Router :=
  if spec.isUsable then
    { r with
      claims := r.claims + 1
      groups := r.groups.insert name ((r.group name).addPath spec (r.claims + 1)) }
  else r

/-- Ask for a path to be removed. -/
def deletePeer (r : Router) (name : GroupName) (connection : ConnectionName) : Router :=
  { r with groups := r.groups.modify name (·.deletePath connection) }

/-- Ask for a service through a connection. -/
def addService (r : Router) (name : GroupName) (destination : Prefix)
    (connection : ConnectionName) : Router :=
  { r with
    claims := r.claims + 1
    groups := r.groups.insert name
      ((r.group name).addService destination connection (r.claims + 1)) }

/-- Ask for a service no longer to go through a connection. -/
def deleteService (r : Router) (name : GroupName) (destination : Prefix)
    (connection : ConnectionName) : Router :=
  { r with groups := r.groups.modify name (·.deleteService destination connection) }

/-- Ask for everything to be removed. -/
def flush (r : Router) : Router := { r with groups := r.groups.map Group.flush }

/-- All paths, by group and connection. -/
def paths (r : Router) : List Path := r.groups.values.flatMap (·.paths.values)

/-- The addresses to probe, each once and in order. -/
def destinations (r : Router) : List Address :=
  (OrderedMap.ofList
    ((r.paths.filter fun p => !p.flags.pendingDelete && !p.flags.disabled).map
      fun p => (p.address, ()))).keys

/-- The sample of a round: a lost round without an answer, else the round-trip time, at least a
microsecond so that it differs from no answer. -/
def sample : Option Duration → Sample
  | some rtt => ⟨rtt.max (.micros 1), false⟩
  | none => ⟨.zero, true⟩

/-- Record a probe round for the paths that are to stay and whose address was probed. -/
def recordRound (r : Router) (results : RoundTrips) : Router :=
  { r with
    groups := r.groups.map fun g =>
      { g with
        paths := g.paths.map fun p =>
          if p.flags.pendingDelete then p
          else
            match results.get? p.address with
            | some rtt => p.record (sample rtt)
            | none => p } }

end Router

end RouteKeeper
