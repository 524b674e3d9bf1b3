import RouteKeeper.Proofs.History

/-!
# Runs

A run is a series of operations on a router that writes one route table. The table may be of any
kind and behave in any way. A run remembers all attempts that were made on it, so that one can tell
what was written last, and what was lost when.

## Main definitions

* `Operation` — an operation of a router.
* `Run` — a router, its table, and all attempts so far.
* `Router.EachSelector` — a property of the selectors and selections of all groups.
* `LostSince` — a property was upset by some operation and has not held since.

## Main statements

* `Operation.path?_edit`, `Operation.service?_edit` — what operations leave of an entry.
* `Router.Reachable.edit_induction` — what operations and reconciliations keep, reachable routers
  have.
* `Router.EachSelector.reconcileWith` — what selections keep, reconciliations keep.
* `Run.after_induction` — what every operation keeps, a run keeps.
* `Run.keyed_after` — the router of a run is reachable.
* `lostSince_iff` — a property that only some operations can upset is lost only through them.
-/
namespace RouteKeeper

variable {σ : Type}

/-! ## Operations -/

/-- An operation of a router. -/
inductive Operation where
  | addPeer (name : GroupName) (spec : PathSpec)
  | deletePeer (name : GroupName) (connection : ConnectionName)
  | addService (name : GroupName) (destination : Prefix) (connection : ConnectionName)
  | deleteService (name : GroupName) (destination : Prefix) (connection : ConnectionName)
  | flush
  | recordRound (results : RoundTrips)
  | reconcile (visits : Nat → Visit)

namespace Operation

/-- What an operation makes of a router at once. All that a reconciliation does, it does in passes
over a table. -/
def edit (op : Operation) (r : Router) : Router :=
  match op with
  | .addPeer name spec => r.addPeer name spec
  | .deletePeer name connection => r.deletePeer name connection
  | .addService name destination connection => r.addService name destination connection
  | .deleteService name destination connection => r.deleteService name destination connection
  | .flush => r.flush
  | .recordRound results => r.recordRound results
  | .reconcile _ => r

end Operation

namespace Router

variable {r r' : Router}

/-- Marks and measurements change no record. -/
theorem Marks.route?_eq (h : r.Marks r') (n : GroupName) (k : Claimant) (d : Prefix) :
    r'.route? n k d = r.route? n k d := by
  cases k with
  | path c =>
    have hpath := h.path n c
    rw [route?, route?]
    rcases hp : r.path? n c with _ | p <;> rcases hp' : r'.path? n c with _ | p' <;>
      rw [hp, hp'] at hpath
    · cases hpath
    · cases hpath
    · obtain ⟨hspec, hinstalled, -⟩ := Prod.mk.inj (Option.some.inj hpath) |>.imp id Prod.mk.inj
      simp only [Option.filter_some, Path.destination, hspec]
      by_cases hd : Prefix.host p.spec.address = d <;> simp [hd, hinstalled]
  | service =>
    have hservice := h.service n d
    rw [route?, route?]
    cases hs : r.service? n d <;> cases hs' : r'.service? n d <;> rw [hs, hs'] at hservice
    · cases hservice
    · cases hservice
    · obtain ⟨-, hactive, -⟩ := Prod.mk.inj (Option.some.inj hservice) |>.imp id Prod.mk.inj
      simp [hactive]

/-- Asking for a path leaves the records of all other entries. -/
theorem route?_addPeer_of_ne {name : GroupName} {spec : PathSpec} {n : GroupName} {k : Claimant}
    (hne : ¬ (n = name ∧ k = .path spec.connection)) (d : Prefix) :
    (r.addPeer name spec).route? n k d = r.route? n k d := by
  cases husable : spec.isUsable with
  | false => rw [addPeer_of_not_isUsable husable]
  | true =>
    cases k with
    | path c =>
      rw [route?, route?, path?_addPeer husable, if_neg]
      rintro ⟨rfl, rfl⟩
      exact hne ⟨rfl, rfl⟩
    | service => rw [route?, route?, service?_addPeer]

/-- A path takes its record along to the address that it is asked for with. -/
theorem route?_addPeer_self (name : GroupName) {spec : PathSpec} (husable : spec.isUsable = true)
    (d : Prefix) : (r.addPeer name spec).route? name (.path spec.connection) d =
      if Prefix.host spec.normal.address = d then
        (r.path? name spec.connection).bind Path.installed else none := by
  rw [route?, path?_addPeer husable, if_pos ⟨rfl, rfl⟩, Option.filter_some, destination_requested]
  by_cases hd : Prefix.host spec.normal.address = d <;> simp [hd, installed_requested]

/-- A service that is added has no route. -/
theorem route?_addService (name : GroupName) (destination : Prefix) (connection : ConnectionName)
    (n : GroupName) (k : Claimant) (d : Prefix) :
    (r.addService name destination connection).route? n k d = r.route? n k d := by
  cases k with
  | path c => rw [route?, path?_addService, route?]
  | service =>
    have hcore := service?_addService (r := r) name destination connection n d
    have hroute : ∀ o : Option Service, (o.bind fun s => s.active.map fun route =>
        route.hop.interface) =
        (o.map Service.core).bind fun core => core.2.1.map fun route => route.hop.interface := by
      rintro (_ | s) <;> rfl
    rw [route?, route?, hroute, hcore]
    split
    · cases r.service? n d <;> rfl
    · rw [← hroute]

end Router

/-- A path was measured or marked to be removed, if that. -/
structure Path.Kept (p p' : Path) : Prop where
  spec : p'.spec = p.spec
  installed : p'.installed = p.installed
  flags : p'.flags = p.flags ∨ p'.flags = p.flags.toDelete

theorem Path.Kept.refl (p : Path) : p.Kept p := ⟨rfl, rfl, .inl rfl⟩

theorem Path.Kept.disabled {p p' : Path} (h : p.Kept p') : p'.flags.disabled = p.flags.disabled := by
  rcases h.flags with h | h <;> rw [h]
  rfl

namespace Operation

variable {r : Router} {n : GroupName}

/-- After an operation a path is the one that was asked for, or was measured by a round, or is the
one from before, perhaps marked to be removed. -/
theorem path?_edit_cases {op : Operation} {c : ConnectionName} {p' : Path}
    (h : (op.edit r).path? n c = some p') :
    (∃ spec, op = .addPeer n spec ∧ spec.isUsable = true ∧ spec.connection = c ∧
      p' = r.requested n spec) ∨
    (∃ results, op = .recordRound results ∧ (r.recordRound results).path? n c = some p') ∨
    (∀ results, op ≠ .recordRound results) ∧
      ∃ p, r.path? n c = some p ∧ (p' = p ∨ p' = p.doomed) := by
  have hdoomed : (r.path? n c).map Path.doomed = some p' →
      ∃ p, r.path? n c = some p ∧ (p' = p ∨ p' = p.doomed) := by
    intro h
    obtain ⟨p, hp, hp'⟩ := Option.map_eq_some_iff.1 h
    exact ⟨p, hp, .inr hp'.symm⟩
  cases op with
  | addPeer name spec =>
    cases husable : spec.isUsable with
    | false =>
      rw [edit, Router.addPeer_of_not_isUsable husable] at h
      exact .inr (.inr ⟨nofun, p', h, .inl rfl⟩)
    | true =>
      rw [edit, Router.path?_addPeer husable] at h
      split at h
      case isTrue hkey =>
        obtain ⟨rfl, rfl⟩ := hkey
        exact .inl ⟨spec, rfl, husable, rfl, (Option.some.inj h).symm⟩
      case isFalse => exact .inr (.inr ⟨nofun, p', h, .inl rfl⟩)
  | deletePeer name connection =>
    rw [edit, Router.path?_deletePeer] at h
    split at h
    · exact .inr (.inr ⟨nofun, hdoomed h⟩)
    · exact .inr (.inr ⟨nofun, p', h, .inl rfl⟩)
  | addService name destination connection =>
    rw [edit, Router.path?_addService] at h
    exact .inr (.inr ⟨nofun, p', h, .inl rfl⟩)
  | deleteService name destination connection =>
    rw [edit, Router.path?_deleteService] at h
    exact .inr (.inr ⟨nofun, p', h, .inl rfl⟩)
  | flush =>
    rw [edit, Router.path?_flush] at h
    exact .inr (.inr ⟨nofun, hdoomed h⟩)
  | recordRound results => exact .inr (.inl ⟨results, rfl, h⟩)
  | reconcile => exact .inr (.inr ⟨nofun, p', h, .inl rfl⟩)

/-- After an operation a path is the one that was asked for, or the one from before. -/
theorem path?_edit {op : Operation} {c : ConnectionName} {p' : Path}
    (h : (op.edit r).path? n c = some p') :
    (∃ spec, op = .addPeer n spec ∧ spec.isUsable = true ∧ spec.connection = c ∧
      p' = r.requested n spec) ∨ ∃ p, r.path? n c = some p ∧ p.Kept p' := by
  rcases path?_edit_cases h with hasked | ⟨results, -, hmeasured⟩ | ⟨-, p, hp, rfl | rfl⟩
  · exact .inl hasked
  · obtain ⟨p, window, hp, rfl⟩ := Router.path?_recordRound hmeasured
    exact .inr ⟨p, hp, rfl, rfl, .inl rfl⟩
  · exact .inr ⟨p', hp, .refl p'⟩
  · exact .inr ⟨p, hp, rfl, rfl, .inr rfl⟩

/-- After an operation a service is a new one without a route, or the one from before but for its
candidates. -/
theorem service?_edit {op : Operation} {d : Prefix} {s' : Service}
    (h : (op.edit r).service? n d = some s') :
    ∃ s candidates, s' = { s with candidates } ∧
      (r.service? n d = some s ∨ s = .new d (r.claims + 1)) := by
  have hkept : (∃ s candidates, r.service? n d = some s ∧ s' = { s with candidates }) →
      ∃ s candidates, s' = { s with candidates } ∧
        (r.service? n d = some s ∨ s = .new d (r.claims + 1)) := by
    rintro ⟨s, candidates, hs, rfl⟩
    exact ⟨s, candidates, rfl, .inl hs⟩
  cases op with
  | addPeer name spec =>
    rw [edit, Router.service?_addPeer] at h
    exact hkept ⟨s', s'.candidates, h, rfl⟩
  | deletePeer name connection => exact hkept (Router.service?_deletePeer h)
  | addService name destination connection =>
    obtain ⟨candidates, hservice⟩ :=
      Router.exists_service?_addService (r := r) name destination connection n d
    rw [edit, hservice] at h
    split at h
    case isFalse => exact hkept ⟨s', s'.candidates, h, rfl⟩
    case isTrue =>
      refine ⟨_, candidates, (Option.some.inj h).symm, ?_⟩
      cases r.service? n d with
      | none => exact .inr rfl
      | some s => exact .inl rfl
  | deleteService name destination connection => exact hkept (Router.service?_deleteService h)
  | flush => exact hkept (Router.service?_flush h)
  | recordRound results =>
    rw [edit, Router.service?_recordRound] at h
    exact hkept ⟨s', s'.candidates, h, rfl⟩
  | reconcile => exact hkept ⟨s', s'.candidates, h, rfl⟩

/-- An operation that asks for no path changes no record. -/
theorem route?_edit {op : Operation} (hop : ∀ name spec, op ≠ .addPeer name spec) (n : GroupName)
    (k : Claimant) (d : Prefix) : (op.edit r).route? n k d = r.route? n k d := by
  cases op with
  | addPeer name spec => exact absurd rfl (hop name spec)
  | deletePeer name connection => exact (Router.marks_deletePeer name connection).route?_eq n k d
  | addService name destination connection =>
    exact Router.route?_addService name destination connection n k d
  | deleteService name destination connection =>
    exact (Router.marks_deleteService name destination connection).route?_eq n k d
  | flush => exact Router.marks_flush.route?_eq n k d
  | recordRound results => exact (Router.marks_recordRound results).route?_eq n k d
  | reconcile => rfl

theorem reachable_edit (hr : r.Reachable) (op : Operation) : (op.edit r).Reachable := by
  cases op with
  | addPeer name spec => exact hr.addPeer name spec
  | deletePeer name connection => exact hr.deletePeer name connection
  | addService name destination connection => exact hr.addService name destination connection
  | deleteService name destination connection => exact hr.deleteService name destination connection
  | flush => exact hr.flush
  | recordRound results => exact hr.recordRound results
  | reconcile => exact hr

end Operation

/-- What every operation and every reconciliation keeps holds of reachable routers. -/
theorem Router.Reachable.edit_induction {r : Router} {P : Router → Prop}
    (hnew : ∀ policy, P (.new policy))
    (hedit : ∀ (r : Router) (op : Operation), P r → P (op.edit r))
    (hreconcile : ∀ {σ : Type} (r : Router) (T : RouteTable σ) (visits : Nat → Visit) (table : σ),
      r.Keyed → P r → P (r.reconcileWith T visits table).router)
    (h : r.Reachable) : P r := by
  induction h with
  | new policy => exact hnew policy
  | addPeer _ name spec ih => exact hedit _ (.addPeer name spec) ih
  | deletePeer _ name connection ih => exact hedit _ (.deletePeer name connection) ih
  | addService _ name destination connection ih =>
    exact hedit _ (.addService name destination connection) ih
  | deleteService _ name destination connection ih =>
    exact hedit _ (.deleteService name destination connection) ih
  | flush _ ih => exact hedit _ .flush ih
  | recordRound _ results ih => exact hedit _ (.recordRound results) ih
  | reconcile hr T visits table ih => exact hreconcile _ T visits table hr.keyed ih

/-! ## Selectors -/

namespace Router

/-- The property holds of the selector and the selection of every group, and of those of a new
one. -/
structure EachSelector (P : Selector → Option Selection → Prop) (r : Router) : Prop where
  fresh : P (.new r.policy) none
  group {n : GroupName} {g : Group} : r.groups.get? n = some g → P g.selector g.selection

namespace EachSelector

variable {r : Router} {P : Selector → Option Selection → Prop}

theorem of_group (h : r.EachSelector P) (name : GroupName) :
    P (r.group name).selector (r.group name).selection := by
  rw [Router.group]
  cases hgroup : r.groups.get? name with
  | none => exact h.fresh
  | some g => exact h.group hgroup

theorem insert (h : r.EachSelector P) (name : GroupName) {g : Group} (claims : Nat)
    (hg : P g.selector g.selection) :
    (⟨r.policy, r.groups.insert name g, claims⟩ : Router).EachSelector P where
  fresh := h.fresh
  group hgroup := by
    rw [OrderedMap.get?_insert] at hgroup
    split at hgroup
    · cases hgroup
      exact hg
    · exact h.group hgroup

theorem pruned (h : r.EachSelector P) : r.pruned.EachSelector P where
  fresh := h.fresh
  group hgroup := h.group ((get?_groups_pruned_eq_some_iff r).1 hgroup).1

/-- What is asked for and what is measured changes no selector and no selection. -/
theorem edit (h : r.EachSelector P) (op : Operation) : (op.edit r).EachSelector P := by
  have hmodify : ∀ {name : GroupName} {f : Group → Group},
      (∀ g, (f g).selector = g.selector ∧ (f g).selection = g.selection) →
        ({ r with groups := r.groups.modify name f } : Router).EachSelector P := by
    intro name f hf
    refine ⟨h.fresh, fun {n g'} hgroup => ?_⟩
    rw [OrderedMap.get?_modify] at hgroup
    split at hgroup
    · obtain ⟨g, hg, rfl⟩ := Option.map_eq_some_iff.1 hgroup
      rw [(hf g).1, (hf g).2]
      exact h.group hg
    · exact h.group hgroup
  have hmap : ∀ {f : Group → Group},
      (∀ g, (f g).selector = g.selector ∧ (f g).selection = g.selection) →
        ({ r with groups := r.groups.map f } : Router).EachSelector P := by
    intro f hf
    refine ⟨h.fresh, fun {n g'} hgroup => ?_⟩
    rw [OrderedMap.get?_map] at hgroup
    obtain ⟨g, hg, rfl⟩ := Option.map_eq_some_iff.1 hgroup
    rw [(hf g).1, (hf g).2]
    exact h.group hg
  cases op with
  | addPeer name spec =>
    simp only [Operation.edit, addPeer]
    split
    · exact h.insert name _ (h.of_group name)
    · exact h
  | deletePeer name connection =>
    refine hmodify fun g => ?_
    unfold Group.deletePath
    split <;> exact ⟨rfl, rfl⟩
  | addService name destination connection => exact h.insert name _ (h.of_group name)
  | deleteService name destination connection => exact hmodify fun g => ⟨rfl, rfl⟩
  | flush => exact hmap fun g => ⟨rfl, rfl⟩
  | recordRound results => exact hmap fun g => ⟨rfl, rfl⟩
  | reconcile => exact h

section Reconciled

variable (hselect : ∀ (s : Selector) (selection : Option Selection) (paths : Paths),
  P s selection → P (s.select Loss.less paths).2 (some (s.select Loss.less paths).1))

include hselect

/-- What selections keep, passes keep. -/
theorem step {T : RouteTable σ} {visits : Nat → Visit} {s : Reconciled σ}
    (h : s.router.EachSelector P) (hk : s.router.Keyed) :
    (s.step T visits).router.EachSelector P := by
  have hkeep : ∀ {r : Router} {name : GroupName} {g g' : Group}, r.EachSelector P →
      r.groups.get? name = some g → g'.selector = g.selector → g'.selection = g.selection →
        (r.putGroup name g').EachSelector P := by
    intro r name g g' h hgroup hselector hselection
    refine h.insert name _ ?_
    rw [hselector, hselection]
    exact h.group hgroup
  have hturned : (s.turned T visits).router.EachSelector P := by
    refine passStage_induction (P := fun _ stage => stage.router.EachSelector P) h ?_
    intro turn rest stage stage' hstage hturn
    cases hturn with
    | noPath | noGroup | noService => exact hstage
    | path hgroup | service hgroup => exact hkeep hstage hgroup rfl rfl
    | select hgroup => exact hstage.insert _ _ (hselect _ _ _ (hstage.group hgroup))
  rw [Reconciled.router_step]
  refine resolve_induction T _ _ (keyed_passStage hk)
    (Q := fun _ _ res => res.router.EachSelector P) hturned ?_ ?_
  · intro i is js res res' hres _ hdisabled
    cases hdisabled with
    | path _ hgroup | service _ hgroup => exact hkeep hres hgroup rfl rfl
  · intro j js res res' hres _ henabled
    cases henabled with
    | path _ hgroup | service _ hgroup => exact hkeep hres hgroup rfl rfl

theorem iterate {T : RouteTable σ} {visits : Nat → Visit} {s : Reconciled σ}
    (h : s.router.EachSelector P) (hk : s.router.Keyed) (n : Nat) :
    (Reconciled.iterate T visits n s).router.EachSelector P :=
  (Reconciled.iterate_induction (P := fun s => s.router.Keyed ∧ s.router.EachSelector P)
    (fun _ hs => ⟨keyed_step hs.1, hs.2.step hselect hs.1⟩) n ⟨hk, h⟩).2

theorem reconcileWith (h : r.EachSelector P) (hk : r.Keyed) (T : RouteTable σ)
    (visits : Nat → Visit) (table : σ) :
    (r.reconcileWith T visits table).router.EachSelector P := by
  rw [router_reconcileWith]
  exact (iterate hselect h hk maxPasses).pruned

end Reconciled

end EachSelector

/-- What holds of a new selector, and is kept by selections, holds in every reachable router. -/
theorem Reachable.eachSelector {r : Router} (h : r.Reachable)
    {P : Selector → Option Selection → Prop} (hnew : ∀ policy, P (.new policy) none)
    (hselect : ∀ (s : Selector) (selection : Option Selection) (paths : Paths),
      P s selection → P (s.select Loss.less paths).2 (some (s.select Loss.less paths).1)) :
    r.EachSelector P :=
  h.edit_induction (P := EachSelector P) (fun policy => ⟨hnew policy, nofun⟩)
    (fun _ op hr => hr.edit op)
    fun _ T visits table hk hr => hr.reconcileWith hselect hk T visits table

end Router

/-! ## Runs -/

/-- A router, the table that it writes, and all attempts on the table, the newest first. -/
structure Run (σ : Type) where
  router : Router
  table : σ
  history : List Attempt

namespace Run

/-- A router without groups, and a table. -/
def start (policy : Policy) (table : σ) : Run σ := ⟨.new policy, table, []⟩

def perform (T : RouteTable σ) (s : Run σ) : Operation → Run σ
  | .reconcile visits =>
    let reconciled := s.router.reconcileWith T visits s.table
    ⟨reconciled.router, reconciled.table, reconciled.ledger.attempts ++ s.history⟩
  | op => { s with router := op.edit s.router }

variable {T : RouteTable σ}

theorem router_perform_reconcile (s : Run σ) (visits : Nat → Visit) :
    (s.perform T (.reconcile visits)).router = (s.router.reconcileWith T visits s.table).router := by
  simp only [perform]

theorem table_perform_reconcile (s : Run σ) (visits : Nat → Visit) :
    (s.perform T (.reconcile visits)).table = (s.router.reconcileWith T visits s.table).table := by
  simp only [perform]

theorem history_perform_reconcile (s : Run σ) (visits : Nat → Visit) :
    (s.perform T (.reconcile visits)).history =
      (s.router.reconcileWith T visits s.table).ledger.attempts ++ s.history := by
  simp only [perform]

theorem perform_of_ne {op : Operation} (hop : ∀ visits, op ≠ .reconcile visits) (s : Run σ) :
    s.perform T op = { s with router := op.edit s.router } := by
  cases op with
  | reconcile visits => exact absurd rfl (hop visits)
  | _ => rfl

/-- The run over some operations. -/
def after (T : RouteTable σ) (policy : Policy) (table : σ) (ops : List Operation) : Run σ :=
  ops.foldl (perform T) (start policy table)

variable {policy : Policy} {table : σ}

theorem after_concat (ops : List Operation) (op : Operation) :
    after T policy table (ops ++ [op]) = (after T policy table ops).perform T op := by
  simp [after]

/-- What every operation keeps, a run keeps. -/
theorem after_induction {P : Run σ → Prop} (hstart : P (start policy table))
    (hedit : ∀ (s : Run σ) (op : Operation), P s → P { s with router := op.edit s.router })
    (hreconcile : ∀ (s : Run σ) (visits : Nat → Visit), s.router.Reachable → P s →
      P (s.perform T (.reconcile visits))) (ops : List Operation) :
    P (after T policy table ops) := by
  have hrun : (after T policy table ops).router.Reachable ∧ P (after T policy table ops) := by
    induction ops using List.reverseRecOn with
    | nil => exact ⟨.new policy, hstart⟩
    | append_singleton ops op ih =>
      obtain ⟨hr, hP⟩ := ih
      rw [after_concat]
      by_cases hop : ∃ visits, op = .reconcile visits
      · obtain ⟨visits, rfl⟩ := hop
        refine ⟨?_, hreconcile _ visits hr hP⟩
        rw [router_perform_reconcile]
        exact hr.reconcile T visits _
      · rw [perform_of_ne (not_exists.1 hop)]
        exact ⟨op.reachable_edit hr, hedit _ op hP⟩
  exact hrun.2

theorem reachable_after (ops : List Operation) :
    (after T policy table ops).router.Reachable := by
  refine after_induction (P := fun s => s.router.Reachable) (.new policy) ?_ ?_ ops
  · intro s op hr
    exact op.reachable_edit hr
  · intro s visits hr _
    rw [router_perform_reconcile]
    exact hr.reconcile T visits s.table

theorem keyed_after (ops : List Operation) : (after T policy table ops).router.Keyed :=
  (reachable_after ops).keyed

end Run

/-! ## What is lost, and since when -/

section LostSince

variable {α : Type} {Good : List α → Prop} {Upset : List α → α → Prop}

/-- Some step upset a property of the steps made so far, and it has not held since. -/
def LostSince (Good : List α → Prop) (Upset : List α → α → Prop) (l : List α) : Prop :=
  ∃ before a after, l = before ++ a :: after ∧ Upset before a ∧
    ∀ later, later <+: after → ¬ Good (before ++ a :: later)

/-- What is lost stays lost as long as it does not hold. -/
theorem LostSince.concat {l : List α} {a : α} (h : LostSince Good Upset l)
    (hnot : ¬ Good (l ++ [a])) : LostSince Good Upset (l ++ [a]) := by
  obtain ⟨before, b, after, rfl, hupset, hsince⟩ := h
  refine ⟨before, b, after ++ [a], by simp, hupset, ?_⟩
  intro later hlater
  rcases List.prefix_concat_iff.1 hlater with rfl | hlater
  · simpa using hnot
  · exact hsince later hlater

/-- A property that holds at first and that only certain steps can upset does not hold exactly if
one of them upset it and it has not held since. -/
theorem lostSince_iff (hstart : Good [])
    (hstep : ∀ l a, Good l → ¬ Upset l a → Good (l ++ [a])) (l : List α) :
    LostSince Good Upset l ↔ ¬ Good l := by
  constructor
  · rintro ⟨before, a, after, rfl, -, hsince⟩
    exact hsince after (List.prefix_refl after)
  · intro hnot
    induction l using List.reverseRecOn with
    | nil => exact absurd hstart hnot
    | append_singleton l a ih =>
      by_cases hgood : Good l
      · have hupset : Upset l a := by
          by_contra hcalm
          exact hnot (hstep l a hgood hcalm)
        refine ⟨l, a, [], rfl, hupset, ?_⟩
        intro later hlater
        rwa [List.prefix_nil.1 hlater]
      · exact (ih hgood).concat hnot

end LostSince

end RouteKeeper
