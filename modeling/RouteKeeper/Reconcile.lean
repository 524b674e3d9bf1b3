import RouteKeeper.Reconcile.Conflicts

/-!
# Reconciliation

A reconciliation makes passes over a router until one leaves no conflict to resolve, three at most.
Groups without paths and services are dropped at the end.
-/
namespace RouteKeeper

/-- The most passes that one reconciliation makes. -/
def maxPasses : Nat := 3

/-- A router and a table after some passes, with what was done. -/
structure Reconciled (σ : Type) where
  router : Router
  table : σ
  ledger : Ledger
  passes : Nat
  /-- The claims disabled or enabled in all passes. -/
  resolved : Nat
  /-- The claims disabled or enabled in the last pass. -/
  unsettled : Nat

variable {σ : Type}

namespace Reconciled

/-- Make one more pass. -/
def step (T : RouteTable σ) (visits : Nat → Visit) (s : Reconciled σ) : Reconciled σ :=
  let (router, table, ledger) := s.router.pass T (visits s.passes) s.table s.ledger
  let (count, res) := router.resolve T table ledger
  ⟨res.router, res.table, res.ledger, s.passes + 1, s.resolved + count, count⟩

/-- Make up to so many further passes, until one leaves nothing to resolve. -/
def iterate (T : RouteTable σ) (visits : Nat → Visit) : Nat → Reconciled σ → Reconciled σ
  | 0, s => s
  | n + 1, s =>
    let s := s.step T visits
    if s.unsettled = 0 then s else iterate T visits n s

end Reconciled

namespace Router

/-- Bring the route table in line with what is wanted of a router, visiting the services of each
group in each pass in the given order. -/
def reconcileWith (T : RouteTable σ) (visits : Nat → Visit) (r : Router) (table : σ) :
    Reconciled σ :=
  let s := Reconciled.iterate T visits maxPasses ⟨r, table, .empty, 0, 0, 0⟩
  { s with
    router := { s.router with groups := s.router.groups.filter fun _ g => !g.isEmpty } }

/-- Bring the route table in line with what is wanted of a router. -/
def reconcile (T : RouteTable σ) (r : Router) (table : σ) : Router × σ × Report :=
  let s := r.reconcileWith T (fun _ => .inOrder) table
  (s.router, s.table, s.ledger.report s.passes s.resolved)

end Router

end RouteKeeper
