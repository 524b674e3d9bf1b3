import RouteKeeper.Proofs.Operations
import RouteKeeper.Proofs.Resolve

/-!
# Histories of a router

A router is reachable if some series of operations leads to it from a router without groups. The
route tables that its reconciliations work on may be of any kind, behave in any way, and change
from one to the next. Reconciliations are taken apart here: into passes with a resolution after
each, and these into turns and steps.

## Main definitions

* `Router.Reachable` — the routers that operations lead to.
* `Router.pruned` — the router without groups that are empty.

## Main statements

* `Reconciled.step_eq` — a pass and its resolution.
* `reconcileWith_stages` — what every turn and every step of a resolution keeps, a reconciliation
  keeps.
* `reconcileWith_ledger` — the same, if it holds whatever the verdicts are.
* `reconcileWith_induction` — what every effect keeps, a reconciliation keeps.
* `Reachable.keyed` — in a reachable router everything stands under its own name.
-/
namespace RouteKeeper

variable {σ : Type}

/-! ## Reconciliations taken apart -/

namespace Reconciled

/-- The turns of the next pass. -/
def turned (T : RouteTable σ) (visits : Nat → Visit) (s : Reconciled σ) : Stage σ :=
  s.router.passStage T (visits s.passes) s.table s.ledger

/-- The resolution after the turns of the next pass. -/
def resolution (T : RouteTable σ) (visits : Nat → Visit) (s : Reconciled σ) :
    Nat × Resolution σ :=
  (s.turned T visits).router.resolve T (s.turned T visits).pass.table
    (s.turned T visits).pass.ledger

/-- A pass is its turns and a resolution. -/
theorem step_eq (T : RouteTable σ) (visits : Nat → Visit) (s : Reconciled σ) :
    s.step T visits =
      ⟨(s.resolution T visits).2.router, (s.resolution T visits).2.table,
        (s.resolution T visits).2.ledger, s.passes + 1, s.resolved + (s.resolution T visits).1,
        (s.resolution T visits).1⟩ := by
  simp only [step, pass_eq]
  rfl

section Step

variable (T : RouteTable σ) (visits : Nat → Visit) (s : Reconciled σ)

theorem router_step : (s.step T visits).router = (s.resolution T visits).2.router := by
  rw [step_eq]

theorem table_step : (s.step T visits).table = (s.resolution T visits).2.table := by
  rw [step_eq]

theorem ledger_step : (s.step T visits).ledger = (s.resolution T visits).2.ledger := by
  rw [step_eq]

theorem passes_step : (s.step T visits).passes = s.passes + 1 := rfl

theorem unsettled_step : (s.step T visits).unsettled = (s.resolution T visits).1 := by
  rw [step_eq]

end Step

/-- What every pass with its resolution keeps, a series of them keeps. -/
theorem iterate_induction {T : RouteTable σ} {visits : Nat → Visit} {P : Reconciled σ → Prop}
    (hstep : ∀ s, P s → P (s.step T visits)) (n : Nat) {s : Reconciled σ} (h : P s) :
    P (iterate T visits n s) := by
  induction n generalizing s with
  | zero => exact h
  | succ n ih =>
    rw [iterate]
    split
    · exact hstep s h
    · exact ih (hstep s h)

/-- The last of a series of passes, and what all passes before it kept. -/
theorem exists_iterate_eq_step {T : RouteTable σ} {visits : Nat → Visit} {P : Reconciled σ → Prop}
    (hstep : ∀ s, P s → P (s.step T visits)) (n : Nat) {s : Reconciled σ} (h : P s) :
    ∃ q, P q ∧ iterate T visits (n + 1) s = q.step T visits := by
  induction n generalizing s with
  | zero =>
    refine ⟨s, h, ?_⟩
    rw [iterate]
    split <;> rfl
  | succ n ih =>
    rw [iterate]
    split
    · exact ⟨s, h, rfl⟩
    · exact ih (hstep s h)

end Reconciled

namespace Router

/-- The router without groups that are empty. -/
def pruned (r : Router) : Router := { r with groups := r.groups.filter fun _ g => !g.isEmpty }

/-- The start of a reconciliation. -/
def unreconciled (r : Router) (table : σ) : Reconciled σ := ⟨r, table, .empty, 0, 0, 0⟩

section ReconcileWith

variable (T : RouteTable σ) (visits : Nat → Visit) (r : Router) (table : σ)

theorem reconcileWith_eq :
    r.reconcileWith T visits table =
      { Reconciled.iterate T visits maxPasses (r.unreconciled table) with
        router := (Reconciled.iterate T visits maxPasses (r.unreconciled table)).router.pruned } := by
  simp only [reconcileWith, unreconciled, pruned]

theorem router_reconcileWith :
    (r.reconcileWith T visits table).router =
      (Reconciled.iterate T visits maxPasses (r.unreconciled table)).router.pruned := by
  rw [reconcileWith_eq]

theorem table_reconcileWith :
    (r.reconcileWith T visits table).table =
      (Reconciled.iterate T visits maxPasses (r.unreconciled table)).table := by
  rw [reconcileWith_eq]

theorem passes_reconcileWith :
    (r.reconcileWith T visits table).passes =
      (Reconciled.iterate T visits maxPasses (r.unreconciled table)).passes := by
  rw [reconcileWith_eq]

theorem unsettled_reconcileWith :
    (r.reconcileWith T visits table).unsettled =
      (Reconciled.iterate T visits maxPasses (r.unreconciled table)).unsettled := by
  rw [reconcileWith_eq]

end ReconcileWith

section Pruned

variable (r : Router)

@[simp] theorem claims_pruned : r.pruned.claims = r.claims := rfl

@[simp] theorem policy_pruned : r.pruned.policy = r.policy := rfl

theorem get?_groups_pruned_eq_some_iff {n : GroupName} {g : Group} :
    r.pruned.groups.get? n = some g ↔ r.groups.get? n = some g ∧ g.isEmpty = false := by
  simp [pruned, OrderedMap.get?_filter, Option.filter_eq_some_iff]

/-- Empty groups have no paths. -/
theorem isEmpty_of_get?_paths {g : Group} {c : ConnectionName} {p : Path}
    (h : g.paths.get? c = some p) : g.isEmpty = false := by
  rw [← Bool.not_eq_true]
  intro hempty
  have hpaths := (Bool.and_eq_true_iff.1 hempty).1
  rw [OrderedMap.isEmpty_iff.1 hpaths c] at h
  cases h

/-- Empty groups have no services. -/
theorem isEmpty_of_get?_services {g : Group} {d : Prefix} {s : Service}
    (h : g.services.get? d = some s) : g.isEmpty = false := by
  rw [← Bool.not_eq_true]
  intro hempty
  have hservices := (Bool.and_eq_true_iff.1 hempty).2
  rw [OrderedMap.isEmpty_iff.1 hservices d] at h
  cases h

@[simp] theorem path?_pruned (n : GroupName) (c : ConnectionName) :
    r.pruned.path? n c = r.path? n c := by
  ext p
  simp only [path?_eq_some_iff, get?_groups_pruned_eq_some_iff]
  constructor
  · rintro ⟨g, ⟨hgroup, -⟩, hpath⟩
    exact ⟨g, hgroup, hpath⟩
  · rintro ⟨g, hgroup, hpath⟩
    exact ⟨g, ⟨hgroup, isEmpty_of_get?_paths hpath⟩, hpath⟩

@[simp] theorem service?_pruned (n : GroupName) (d : Prefix) :
    r.pruned.service? n d = r.service? n d := by
  ext s
  simp only [service?_eq_some_iff, get?_groups_pruned_eq_some_iff]
  constructor
  · rintro ⟨g, ⟨hgroup, -⟩, hservice⟩
    exact ⟨g, hgroup, hservice⟩
  · rintro ⟨g, hgroup, hservice⟩
    exact ⟨g, ⟨hgroup, isEmpty_of_get?_services hservice⟩, hservice⟩

@[simp] theorem claim?_pruned (n : GroupName) (k : Claimant) (d : Prefix) :
    r.pruned.claim? n k d = r.claim? n k d := by
  cases k <;> simp [claim?]

theorem Keyed.pruned {r : Router} (hk : r.Keyed) : r.pruned.Keyed where
  name h := hk.name ((get?_groups_pruned_eq_some_iff r).1 h).1
  connection h := hk.connection ((path?_pruned r _ _).symm.trans h)
  destination h := hk.destination ((service?_pruned r _ _).symm.trans h)

theorem remains_pruned (r : Router) : r.Remains r.pruned where
  origin h := ⟨_, (path?_pruned ..).symm.trans h, rfl, rfl, rfl⟩
  service h := ⟨_, (service?_pruned ..).symm.trans h⟩

end Pruned

/-! ## Reachable routers -/

end Router

/-- A path to an IPv4 address without a gateway. -/
def PathSpec.v4 (connection interface : String) (bits : BitVec 32) : PathSpec :=
  ⟨⟨connection⟩, interface, none, .v4 bits⟩

namespace Router

/-- The routers that some series of operations leads to. A reconciliation may work on any route
table, in any state, and may visit services in any order. -/
inductive Reachable : Router → Prop
  | new (policy : Policy) : Reachable (.new policy)
  | addPeer {r : Router} (h : Reachable r) (name : GroupName) (spec : PathSpec) :
    Reachable (r.addPeer name spec)
  | deletePeer {r : Router} (h : Reachable r) (name : GroupName) (connection : ConnectionName) :
    Reachable (r.deletePeer name connection)
  | addService {r : Router} (h : Reachable r) (name : GroupName) (destination : Prefix)
    (connection : ConnectionName) : Reachable (r.addService name destination connection)
  | deleteService {r : Router} (h : Reachable r) (name : GroupName) (destination : Prefix)
    (connection : ConnectionName) : Reachable (r.deleteService name destination connection)
  | flush {r : Router} (h : Reachable r) : Reachable r.flush
  | recordRound {r : Router} (h : Reachable r) (results : RoundTrips) :
    Reachable (r.recordRound results)
  | reconcile {r : Router} (h : Reachable r) {σ : Type} (T : RouteTable σ)
    (visits : Nat → Visit) (table : σ) : Reachable (r.reconcileWith T visits table).router

/-! ### Names -/

theorem keyed_passStage {T : RouteTable σ} {visit : Visit} {r : Router} {table : σ}
    {ledger : Ledger} (hk : r.Keyed) : (r.passStage T visit table ledger).router.Keyed :=
  passStage_induction (P := fun _ s => s.router.Keyed) hk fun _ _ _ _ h hturn => hturn.keyed h

theorem keyed_step {T : RouteTable σ} {visits : Nat → Visit} {s : Reconciled σ}
    (hk : s.router.Keyed) : (s.step T visits).router.Keyed := by
  rw [Reconciled.router_step]
  exact keyed_resolve (keyed_passStage hk)

theorem Keyed.reconcileWith {r : Router} (hk : r.Keyed) (T : RouteTable σ) (visits : Nat → Visit)
    (table : σ) : (r.reconcileWith T visits table).router.Keyed := by
  rw [router_reconcileWith]
  exact (Reconciled.iterate_induction (P := fun s => s.router.Keyed) (fun _ => keyed_step)
    maxPasses (s := r.unreconciled table) hk).pruned

theorem keyed_new (policy : Policy) : (new policy).Keyed where
  name h := by cases h
  connection h := by cases h
  destination h := by cases h

/-! ### Attempts are never forgotten -/

theorem mem_attempts_turned {T : RouteTable σ} {visits : Nat → Visit} {s : Reconciled σ}
    (hk : s.router.Keyed) {a : Attempt} (h : a ∈ s.ledger.attempts) :
    a ∈ (s.turned T visits).pass.ledger.attempts := by
  have hpass : (s.turned T visits).router.Keyed ∧
      a ∈ (s.turned T visits).pass.ledger.attempts := by
    refine passStage_induction (P := fun _ s => s.router.Keyed ∧ a ∈ s.pass.ledger.attempts)
      ⟨hk, h⟩ ?_
    rintro turn rest s s' ⟨hs, ha⟩ hturn
    exact ⟨hturn.keyed hs, (hturn.effect hs).mem_attempts ha⟩
  exact hpass.2

theorem mem_attempts_step {T : RouteTable σ} {visits : Nat → Visit} {s : Reconciled σ}
    (hk : s.router.Keyed) {a : Attempt} (h : a ∈ (s.turned T visits).pass.ledger.attempts) :
    a ∈ (s.step T visits).ledger.attempts := by
  rw [Reconciled.ledger_step, Reconciled.resolution]
  refine resolve_induction T _ _ (keyed_passStage hk)
    (Q := fun _ _ res => a ∈ res.ledger.attempts) h ?_ ?_
  · intro i is js res res' ha _ hdisabled
    exact hdisabled.effect.mem_attempts ha
  · intro j js res res' ha _ henabled
    exact henabled.effect.mem_attempts (T := T) ha

theorem mem_attempts_iterate {T : RouteTable σ} {visits : Nat → Visit} {s : Reconciled σ}
    (hk : s.router.Keyed) {a : Attempt} (h : a ∈ (s.turned T visits).pass.ledger.attempts)
    (n : Nat) : a ∈ (Reconciled.iterate T visits (n + 1) s).ledger.attempts := by
  have hfirst := mem_attempts_step hk h
  rw [Reconciled.iterate]
  split
  case isTrue => exact hfirst
  case isFalse =>
    have hrest : (Reconciled.iterate T visits n (s.step T visits)).router.Keyed ∧
        a ∈ (Reconciled.iterate T visits n (s.step T visits)).ledger.attempts :=
      Reconciled.iterate_induction (P := fun s => s.router.Keyed ∧ a ∈ s.ledger.attempts)
        (fun s hs => ⟨keyed_step hs.1, mem_attempts_step hs.1 (mem_attempts_turned hs.1 hs.2)⟩) n
        ⟨keyed_step hk, hfirst⟩
    exact hrest.2

theorem ledger_reconcileWith (T : RouteTable σ) (visits : Nat → Visit) (r : Router) (table : σ) :
    (r.reconcileWith T visits table).ledger =
      (Reconciled.iterate T visits maxPasses (r.unreconciled table)).ledger := by
  rw [reconcileWith_eq]

/-- What the turns of the first pass tried stands in the ledger of the reconciliation. -/
theorem mem_attempts_reconcileWith {T : RouteTable σ} {visits : Nat → Visit} {r : Router}
    {table : σ} (hk : r.Keyed) {a : Attempt}
    (h : a ∈ ((r.unreconciled table).turned T visits).pass.ledger.attempts) :
    a ∈ (r.reconcileWith T visits table).ledger.attempts := by
  rw [ledger_reconcileWith, show maxPasses = 2 + 1 from rfl]
  exact mem_attempts_iterate hk h 2

/-! ### Reconciliations as series of effects -/

@[simp] theorem route?_pruned (r : Router) (n : GroupName) (k : Claimant) (d : Prefix) :
    r.pruned.route? n k d = r.route? n k d := by
  cases k <;> simp [route?]

/-- What every turn and every step of a resolution keeps, a reconciliation keeps. Within a pass the
invariant `S` may speak of the owners and of the managed interfaces; outside of passes it is `Q`. A
step may count on what is known of all attempts. -/
theorem reconcileWith_stages {T : RouteTable σ} {visits : Nat → Visit} {r : Router} {table : σ}
    (hk : r.Keyed) {Q : Router → σ → List Attempt → Prop} {S : List String → Stage σ → Prop}
    {A : Attempt → Prop} (hknown : ∀ a ∈ (r.reconcileWith T visits table).ledger.attempts, A a)
    (hstart : Q r table [])
    (hopen : ∀ (r : Router) (table : σ) (ledger : Ledger), r.Keyed → Q r table ledger.attempts →
      S r.managedInterfaces ⟨r, ⟨table, r.owners, ledger⟩⟩)
    (hturn : ∀ managed turn s s', s.router.Keyed → Stage.Turned T managed s turn s' →
      (∀ a ∈ s'.pass.ledger.attempts, A a) → S managed s → S managed s')
    (hclose : ∀ managed s, S managed s → Q s.router s.pass.table s.pass.ledger.attempts)
    (hdisable : ∀ res d claim res', res.router.Keyed → Resolution.Disabled T res d claim res' →
      (∀ a ∈ res'.ledger.attempts, A a) → Q res.router res.table res.ledger.attempts →
        Q res'.router res'.table res'.ledger.attempts)
    (henable : ∀ (res : Resolution σ) d claim res', res.router.Keyed →
      Resolution.Enabled res d claim res' → Q res.router res.table res.ledger.attempts →
        Q res'.router res'.table res'.ledger.attempts)
    (hpruned : ∀ r t attempts, Q r t attempts → Q r.pruned t attempts) :
    Q (r.reconcileWith T visits table).router (r.reconcileWith T visits table).table
      (r.reconcileWith T visits table).ledger.attempts := by
  -- attempts are never forgotten: what is known in the end was known all along
  have hstep : ∀ s : Reconciled σ, s.router.Keyed ∧ ((∀ a ∈ s.ledger.attempts, A a) →
      Q s.router s.table s.ledger.attempts) → (s.step T visits).router.Keyed ∧
        ((∀ a ∈ (s.step T visits).ledger.attempts, A a) →
          Q (s.step T visits).router (s.step T visits).table (s.step T visits).ledger.attempts) := by
    rintro s ⟨hs, hQ⟩
    refine ⟨keyed_step hs, ?_⟩
    have hturned : (s.turned T visits).router.Keyed ∧
        ((∀ a ∈ (s.turned T visits).pass.ledger.attempts, A a) →
          S s.router.managedInterfaces (s.turned T visits)) := by
      refine passStage_induction (P := fun _ stage => stage.router.Keyed ∧
        ((∀ a ∈ stage.pass.ledger.attempts, A a) → S s.router.managedInterfaces stage))
        ⟨hs, fun h => hopen _ _ _ hs (hQ h)⟩ ?_
      rintro turn rest stage stage' ⟨hkeyed, h⟩ hturned
      exact ⟨hturned.keyed hkeyed, fun hA => hturn _ turn stage stage' hkeyed hturned hA
        (h fun a ha => hA a ((hturned.effect hkeyed).mem_attempts ha))⟩
    rw [Reconciled.router_step, Reconciled.table_step, Reconciled.ledger_step,
      Reconciled.resolution]
    refine resolve_induction T _ _ hturned.1 (Q := fun _ _ res =>
      (∀ a ∈ res.ledger.attempts, A a) → Q res.router res.table res.ledger.attempts)
      (fun h => hclose _ _ (hturned.2 h)) ?_ ?_
    · intro i is js res res' h hkeyed hdisabled hA
      exact hdisable res _ _ res' hkeyed hdisabled hA
        (h fun a ha => hA a (hdisabled.effect.mem_attempts ha))
    · intro j js res res' h hkeyed henabled hA
      exact henable res _ _ res' hkeyed henabled
        (h fun a ha => hA a (henabled.effect.mem_attempts (T := T) ha))
  have h := Reconciled.iterate_induction hstep maxPasses (s := r.unreconciled table)
    ⟨hk, fun _ => hstart⟩
  rw [reconcileWith_eq] at hknown ⊢
  generalize Reconciled.iterate T visits maxPasses (r.unreconciled table) = last at h hknown ⊢
  exact hpruned _ _ _ (h.2 hknown)

/-- What every turn keeps of the router and the whole ledger, and carrying out any verdict keeps, a
reconciliation keeps. -/
theorem reconcileWith_ledger {T : RouteTable σ} {visits : Nat → Visit} {r : Router} {table : σ}
    (hk : r.Keyed) {P : Router → Ledger → Prop} (hstart : P r .empty)
    (hturn : ∀ {managed turn} {s s' : Stage σ}, s.router.Keyed → Stage.Turned T managed s turn s' →
      P s.router s.pass.ledger → P s'.router s'.pass.ledger)
    (hdisable : ∀ (res : Resolution σ) d claim winner, P res.router res.ledger →
      P (res.disable T d claim winner).router (res.disable T d claim winner).ledger)
    (henable : ∀ (res : Resolution σ) d claim, P res.router res.ledger →
      P (res.enable d claim).router (res.enable d claim).ledger)
    (hpruned : ∀ {r l}, P r l → P r.pruned l) :
    P (r.reconcileWith T visits table).router (r.reconcileWith T visits table).ledger := by
  have hstep : ∀ s : Reconciled σ, s.router.Keyed ∧ P s.router s.ledger →
      (s.step T visits).router.Keyed ∧ P (s.step T visits).router (s.step T visits).ledger := by
    intro s hs
    have hturned : (s.turned T visits).router.Keyed ∧
        P (s.turned T visits).router (s.turned T visits).pass.ledger := by
      refine passStage_induction
        (P := fun _ stage => stage.router.Keyed ∧ P stage.router stage.pass.ledger) hs ?_
      intro turn rest stage stage' h hturned
      exact ⟨hturned.keyed h.1, hturn h.1 hturned h.2⟩
    refine ⟨keyed_step hs.1, ?_⟩
    rw [Reconciled.router_step, Reconciled.ledger_step, Reconciled.resolution, resolve_eq]
    let holds (res : Resolution σ) : Prop := P res.router res.ledger
    refine List.foldlRecOn (motive := holds) _ _
      (List.foldlRecOn (motive := holds) _ _ hturned.2 ?_) ?_
    · exact fun res hres i _ => hdisable res i.1 i.2.1 i.2.2 hres
    · exact fun res hres j _ => henable res j.1 j.2 hres
  have hlast := Reconciled.iterate_induction (P := fun s => s.router.Keyed ∧ P s.router s.ledger)
    hstep maxPasses (s := r.unreconciled table) ⟨hk, hstart⟩
  rw [router_reconcileWith, ledger_reconcileWith]
  exact hpruned hlast.2

/-- What every effect keeps, a reconciliation keeps. -/
theorem reconcileWith_induction {T : RouteTable σ} {r : Router} {table : σ} (hk : r.Keyed)
    {P : Router → σ → List Attempt → Prop} (hstart : P r table [])
    (hturn : ∀ managed turn s s', s.router.Keyed → Stage.Effect T managed turn s s' →
      P s.router s.pass.table s.pass.ledger.attempts →
        P s'.router s'.pass.table s'.pass.ledger.attempts)
    (hsettle : ∀ res res', Resolution.Effect T res res' →
      P res.router res.table res.ledger.attempts → P res'.router res'.table res'.ledger.attempts)
    (hpruned : ∀ r t attempts, P r t attempts → P r.pruned t attempts) (visits : Nat → Visit) :
    P (r.reconcileWith T visits table).router (r.reconcileWith T visits table).table
      (r.reconcileWith T visits table).ledger.attempts :=
  reconcileWith_stages hk (A := fun _ => True) (fun _ _ => trivial)
    (S := fun _ s => P s.router s.pass.table s.pass.ledger.attempts) hstart
    (fun _ _ _ _ h => h)
    (fun managed turn s s' hs hturned _ => hturn managed turn s s' hs (hturned.effect hs))
    (fun _ _ h => h)
    (fun res _ _ res' _ hdisabled _ => hsettle res res' hdisabled.effect)
    (fun res _ _ res' _ henabled => hsettle res res' henabled.effect) hpruned

/-- No entry is new after a reconciliation. -/
theorem remains_reconcileWith {r : Router} (hk : r.Keyed) (T : RouteTable σ)
    (visits : Nat → Visit) (table : σ) : r.Remains (r.reconcileWith T visits table).router := by
  refine reconcileWith_stages hk (A := fun _ => True) (fun _ _ => trivial)
    (Q := fun r' _ _ => r.Remains r') (S := fun _ s => r.Remains s.router) (.refl r)
    (fun _ _ _ _ h => h) ?_ (fun _ _ h => h) ?_ ?_ ?_
  · intro managed turn s s' hs hturned _ h
    exact h.trans (hturned.remains hs)
  · intro res d claim res' _ hdisabled _ h
    exact h.trans hdisabled.remains
  · intro res d claim res' _ henabled h
    exact h.trans henabled.remains
  · intro r' _ _ h
    exact h.trans (remains_pruned r')

/-- In a reachable router everything stands under its own name. -/
theorem Reachable.keyed {r : Router} (h : r.Reachable) : r.Keyed := by
  induction h with
  | new policy => exact keyed_new policy
  | addPeer _ name spec ih => exact ih.addPeer name spec
  | deletePeer _ name connection ih => exact (marks_deletePeer name connection).keyed ih
  | addService _ name destination connection ih => exact ih.addService name destination connection
  | deleteService _ name destination connection ih =>
    exact (marks_deleteService name destination connection).keyed ih
  | flush _ ih => exact marks_flush.keyed ih
  | recordRound _ results ih => exact (marks_recordRound results).keyed ih
  | reconcile _ T visits table ih => exact ih.reconcileWith T visits table

end Router

end RouteKeeper
