import RouteKeeper.Ledger

/-!
# What subscribers learn

Each reconciliation announces the status of every destination it touched, group by group, and then
the changes of connection. A subscriber that falls behind loses the oldest announcements.
-/
namespace RouteKeeper

/-- One announcement. -/
inductive RouterEvent where
  | status (status : RouteStatus)
  | changed (change : PathChange)
deriving DecidableEq

/-- The announcements of a report. -/
def Report.events (r : Report) : List RouterEvent :=
  r.allStatuses.map .status ++ r.changes.map .changed

/-- The announcements that a subscriber has not read, oldest first, and how many were lost. -/
structure Feed where
  unread : List RouterEvent
  lost : Nat

namespace Feed

/-- The most announcements that wait for a subscriber. -/
def capacity : Nat := 256

def empty : Feed := ⟨[], 0⟩

/-- Announce to a subscriber. -/
def push (f : Feed) (events : List RouterEvent) : Feed :=
  let all := f.unread ++ events
  ⟨all.drop (all.length - capacity), f.lost + (all.length - capacity)⟩

theorem length_unread_push (f : Feed) (events : List RouterEvent) :
    (f.push events).unread.length ≤ capacity := by
  simp only [push, List.length_drop]
  omega

end Feed

end RouteKeeper
