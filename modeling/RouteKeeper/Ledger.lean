import RouteKeeper.Group

/-!
# The ledger of a reconciliation

While routes are reconciled, every attempt on the route table is entered with the entry that it was
made for. Separately the ledger keeps, for each group and destination, the latest outcome, and for
each group, the first and the latest connection that a service went through. The report at the end
lists these by group.
-/
namespace RouteKeeper

/-- What an attempt was made for. -/
inductive Claimant where
  | path (connection : ConnectionName)
  | service
deriving DecidableEq

/-- What was tried. -/
inductive Action where
  | install (hop : Hop)
  | remove (interface : String)
deriving DecidableEq

/-- One attempt, and the error if it failed. -/
structure Attempt where
  group : GroupName
  claimant : Claimant
  destination : Prefix
  action : Action
  error : Option Error
deriving DecidableEq

/-- What became of a destination. -/
inductive Outcome where
  | added
  | replaced
  | removed
  | failed (cause : Error)
  /-- Another group holds the destination. -/
  | lost (winner : GroupName)
deriving DecidableEq

namespace Outcome

def isOk : Outcome → Bool
  | added | replaced | removed => true
  | failed _ | lost _ => false

def message : Outcome → String
  | added => "route added"
  | replaced => "route replaced"
  | removed => "route removed"
  | failed cause => cause.message
  | lost winner => s!"conflict: claimed by group {winner.text}"

end Outcome

/-- The state of one destination of a group after a reconciliation. -/
structure RouteStatus where
  group : GroupName
  destination : Prefix
  ok : Bool
  message : String
deriving DecidableEq

/-- A group's services went through one connection before and go through another now. -/
structure PathChange where
  group : GroupName
  previous : Option ConnectionName
  current : Option ConnectionName
deriving DecidableEq

/-- What a reconciliation did. -/
structure Report where
  /-- The passes made. -/
  iterations : Nat
  /-- The entries disabled or enabled because of conflicts. -/
  conflictsResolved : Nat
  statuses : OrderedMap GroupName (List RouteStatus)
  changes : List PathChange

namespace Report

/-- The statuses of all groups. -/
def allStatuses (r : Report) : List RouteStatus := r.statuses.values.flatten

/-- No destination is left with a failure. -/
def isOk (r : Report) : Bool := r.allStatuses.all RouteStatus.ok

/-- The failures. -/
def errors (r : Report) : List RouteStatus := r.allStatuses.filter (!·.ok)

theorem isOk_iff_errors_eq_nil (r : Report) : r.isOk = true ↔ r.errors = [] := by
  simp [isOk, errors, List.filter_eq_nil_iff]

end Report

/-- The running record of a reconciliation. -/
structure Ledger where
  /-- All attempts, the newest first. -/
  attempts : List Attempt
  /-- The latest outcome by group and destination. -/
  outcomes : OrderedMap GroupName (OrderedMap Prefix Outcome)
  /-- By group, the connection before the first change and after the latest. -/
  changes : OrderedMap GroupName (Option ConnectionName × Option ConnectionName)

namespace Ledger

def empty : Ledger := ⟨[], .empty, .empty⟩

/-- Enter an attempt. -/
def attempt (l : Ledger) (a : Attempt) : Ledger := { l with attempts := a :: l.attempts }

/-- Enter the outcome for a destination, in place of an earlier one. -/
def outcome (l : Ledger) (group : GroupName) (destination : Prefix) (o : Outcome) : Ledger :=
  { l with
    outcomes :=
      l.outcomes.insert group (((l.outcomes.get? group).getD .empty).insert destination o) }

/-- Enter a change of connection; the start of the group's first change stays. -/
def change (l : Ledger) (group : GroupName) (previous current : Option ConnectionName) : Ledger :=
  { l with
    changes :=
      l.changes.insert group
        (((l.changes.get? group).map fun c => (c.1, current)).getD (previous, current)) }

/-- The report: outcomes by group and destination, and the changes that did not come back to where
they started. -/
def report (l : Ledger) (iterations conflictsResolved : Nat) : Report where
  iterations := iterations
  conflictsResolved := conflictsResolved
  statuses := l.outcomes.mapWithKey fun group byDestination =>
    byDestination.entries.map fun e => ⟨group, e.1, e.2.isOk, e.2.message⟩
  changes := l.changes.entries.filterMap fun e =>
    if e.2.1 = e.2.2 then none else some ⟨e.1, e.2.1, e.2.2⟩

end Ledger

end RouteKeeper
