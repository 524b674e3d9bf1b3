import RouteKeeper.FirstLeast
import RouteKeeper.Flags
import RouteKeeper.Name
import RouteKeeper.Prefix
import RouteKeeper.Quality

/-!
# Paths

A path is one connection's way of reaching a peer: an interface, perhaps a gateway, and the peer's
address. It carries its marks, the window of its probe rounds and what was last installed for it.
-/
namespace RouteKeeper

/-- What is asked for: reach `address` through `interface`. -/
structure PathSpec where
  connection : ConnectionName
  interface : String
  gateway : Option Address
  address : Address
deriving DecidableEq

namespace PathSpec

/-- The same path with the address in canonical form. -/
def normal (s : PathSpec) : PathSpec := { s with address := s.address.canonical }

/-- A path can be used if its address is specified and its interface has a name. -/
def isUsable (s : PathSpec) : Bool := !s.address.isUnspecified && !s.interface.isEmpty

/-- Where packets are handed to: the gateway, or the peer itself. -/
def nextHop (s : PathSpec) : Address := s.gateway.getD s.address

@[simp] theorem normal_normal (s : PathSpec) : s.normal.normal = s.normal := by simp [normal]

end PathSpec

/-- A path with its marks, measurements and installed state. -/
structure Path where
  spec : PathSpec
  group : GroupName
  flags : Flags
  window : Window
  /-- The interface of the route that was last installed for the path and not removed since. -/
  installed : Option String
  /-- The place of the path among all claims: smaller numbers are older. -/
  claim : Nat

namespace Path

/-- A fresh path, waiting to be installed. -/
def new (spec : PathSpec) (group : GroupName) (windowSize claim : Nat) : Path where
  spec := spec.normal
  group := group
  flags := { Flags.none with pendingAdd := true }
  window := .new windowSize
  installed := none
  claim := claim

def connection (p : Path) : ConnectionName := p.spec.connection

def address (p : Path) : Address := p.spec.address

def interface (p : Path) : String := p.spec.interface

/-- The prefix that holds just the peer. -/
def destination (p : Path) : Prefix := .host p.spec.address

def isInstalled (p : Path) : Bool := p.installed.isSome

/-- Take over a new specification. Measurements of another address are forgotten; a path that is not
installed as specified waits to be installed. -/
def update (p : Path) (spec : PathSpec) : Path :=
  let spec := spec.normal
  let moved := spec.address ≠ p.spec.address
  let changed := spec.interface ≠ p.spec.interface || spec.gateway ≠ p.spec.gateway || moved
  { p with
    spec := spec
    window := if moved then p.window.reset else p.window
    flags :=
      { p.flags with
        pendingDelete := false
        pendingAdd := p.flags.pendingAdd || changed || !p.isInstalled } }

/-- Record the outcome of a round. -/
def record (p : Path) (s : Sample) : Path := { p with window := p.window.record s }

def quality (p : Path) : Quality := .ofWindow p.window

/-- A path may be selected if it is to stay, lost no conflict and was probed. -/
def isValid (p : Path) : Bool :=
  !p.flags.disabled && !p.flags.pendingDelete && !p.window.isEmpty

/-! ## Comparing paths -/

/-- What an average answer time counts as in comparisons: a path that never answered comes last. -/
def rankOf (latency : Duration) : Duration := if latency.isZero then .longest else latency

/-- The average answer time for comparing paths. -/
def latencyRank (p : Path) : Duration := rankOf p.window.latency

section

variable (less : Loss → Loss → Bool)

/-- The path loses less or, neither losing less, answers sooner. -/
def isBetter (p q : Path) : Bool :=
  less p.window.loss q.window.loss ||
    (!less q.window.loss p.window.loss && p.latencyRank < q.latencyRank)

/-- The best of the valid paths; of equals, the first. -/
def best (paths : List Path) : Option Path := firstLeast (isBetter less) (paths.filter isValid)

@[simp] theorem best_nil : best less [] = none := rfl

end

/-- Whether the path is better, as it is decided: by the shares as doubles, and by the averages,
which both have to be formed. -/
def isBetter? (p q : Path) : Option Bool := do
  let sooner ← p.window.average?
  let later ← q.window.average?
  return p.window.loss.lessShare q.window.loss ||
    (!q.window.loss.lessShare p.window.loss && rankOf sooner < rankOf later)

/-- The best of the valid paths, if every comparison on the way can be decided. -/
def best? (paths : List Path) : Option (Option Path) := firstLeast? isBetter? (paths.filter isValid)

end Path

/-- The paths of a group by connection. -/
abbrev Paths := OrderedMap ConnectionName Path

end RouteKeeper
