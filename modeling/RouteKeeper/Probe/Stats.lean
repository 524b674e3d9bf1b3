import RouteKeeper.Address
import RouteKeeper.Duration

/-!
# Counting the answers of a round

A round counts, for each of its targets, the requests that were tried, the first answer and the
answers after that. Events about other addresses are noise.
-/
namespace RouteKeeper

/-- The counts of one target. -/
structure ProbeStats where
  sent : Nat
  received : Nat
  duplicates : Nat
  lastRtt : Option Duration
  lastTtl : Option UInt8
deriving DecidableEq

namespace ProbeStats

/-- Nothing happened yet. -/
def zero : ProbeStats := ⟨0, 0, 0, none, none⟩

/-- The round-trip time, if there was an answer. -/
def rtt (s : ProbeStats) : Option Duration := if s.received > 0 then s.lastRtt else none

/-- No answer came. -/
def isLost (s : ProbeStats) : Bool := s.received == 0

end ProbeStats

/-- What happens in a round. -/
inductive RoundEvent where
  | sent (address : Address)
  | sendFailed (address : Address)
  | reply (source : Address) (rtt : Duration) (ttl : Option UInt8)
deriving DecidableEq

namespace RoundEvent

/-- The address that an event is about. -/
def address : RoundEvent → Address
  | sent a | sendFailed a | reply a _ _ => a

/-- Count an event that is about the target. -/
def count : RoundEvent → ProbeStats → ProbeStats
  | sent _, s | sendFailed _, s => { s with sent := s.sent + 1 }
  | reply _ rtt ttl, s =>
    if s.received = 0 then { s with received := 1, lastRtt := some rtt, lastTtl := ttl }
    else { s with duplicates := s.duplicates + 1 }

end RoundEvent

/-- Counts by address. -/
abbrev Results := OrderedMap Address ProbeStats

/-- The counts of a round in progress, by target. -/
structure Tally where
  stats : Results

namespace Tally

/-- The tally of a new round. -/
def new (targets : List Address) : Tally := ⟨.ofList (targets.map fun a => (a, .zero))⟩

/-- Count an event. -/
def handle (t : Tally) (e : RoundEvent) : Tally := ⟨t.stats.modify e.address e.count⟩

def get? (t : Tally) (a : Address) : Option ProbeStats := t.stats.get? a

/-- Enter the round into results, in place of what they say about its targets. -/
def commit (t : Tally) (results : Results) : Results :=
  t.stats.entries.foldl (fun r e => r.insert e.1 e.2) results

end Tally

end RouteKeeper
