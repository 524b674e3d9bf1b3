import Mathlib.Logic.Function.Iterate
import RouteKeeper.Proofs.Canonical
import RouteKeeper.Proofs.Choices
import RouteKeeper.Proofs.Numbering

/-!
# Sound routers

What everything else about a router rests on: groups, paths and services stand under the keys that
they name, paths name their groups, and every entry has a number of its own. Operations keep this,
and so does every single turn and every single step of a resolution, whatever the table answers.
Between operations no group is empty besides. As a consequence a plan for a service can always be
carried out: the connection to go through has a path, and a route to be cleared is there.

## Main definitions

* `Router.Sound` — everything stands where it should, and numbers are distinct.
* `Router.Furnished` — no group is empty.
* `Group.Provides` — what a plan for a service needs is there.
* `Reconciled.midway` — a pass after some of its turns.

## Main statements

* `Router.Reachable.sound`, `Router.Reachable.furnished` — reachable routers are sound and
  furnished.
* `Router.Sound.midway`, `Router.Sound.step` — a reconciliation keeps routers sound throughout.
* `Router.Sound.provides` — no plan lacks what it needs.
* `Run.claims_after_le` — every operation makes one claim at most.
-/
namespace RouteKeeper

variable {σ : Type}

namespace Router

/-- Everything stands under its own name, services under normal prefixes; paths name their groups,
and the numbers of paths and services are distinct. -/
structure Sound (r : Router) : Prop extends Keyed r, Numbered r where
  group {n : GroupName} {c : ConnectionName} {p : Path} : r.path? n c = some p → p.group = n
  normal {n : GroupName} {d : Prefix} {s : Service} : r.service? n d = some s → d.normal = d

variable {r r' : Router}

/-- A router without new entries is sound if its keys and numbers are. -/
theorem Sound.remains (h : r.Sound) (hremains : r.Remains r') (hk : r'.Keyed) (hn : r'.Numbered) :
    r'.Sound where
  toKeyed := hk
  toNumbered := hn
  group hp' := by
    obtain ⟨p, hp, -, hgroup, -⟩ := hremains.origin hp'
    exact hgroup.trans (h.group hp)
  normal hs' := by
    obtain ⟨s, hs⟩ := hremains.service hs'
    exact h.normal hs

/-! ## Reachable routers -/

/-- The paths of a reachable router name their groups. -/
theorem Reachable.group_eq (h : r.Reachable) {n : GroupName} {c : ConnectionName} {p : Path}
    (hp : r.path? n c = some p) : p.group = n := by
  have hrun : r.Reachable ∧ ∀ n c p, r.path? n c = some p → p.group = n := by
    refine h.edit_induction (P := fun r => r.Reachable ∧ ∀ n c p, r.path? n c = some p → p.group = n)
      (fun policy => ⟨.new policy, nofun⟩) ?_ ?_
    · rintro r op ⟨hr, hgroup⟩
      refine ⟨op.reachable_edit hr, fun n c p' hp' => ?_⟩
      rcases Operation.path?_edit_cases hp' with
        ⟨spec, -, -, -, rfl⟩ | ⟨results, -, hmeasured⟩ | ⟨-, p, hp, rfl | rfl⟩
      · rw [requested]
        cases hold : r.path? n spec.connection with
        | none => exact hr.keyed.name_group n
        | some p => exact hgroup n _ p hold
      · obtain ⟨p, window, hp, rfl⟩ := path?_recordRound hmeasured
        exact hgroup n c p hp
      · exact hgroup n c p' hp
      · exact hgroup n c p hp
    · rintro σ r T visits table hk ⟨hr, hgroup⟩
      refine ⟨hr.reconcile T visits table, fun n c p' hp' => ?_⟩
      obtain ⟨p, hp, -, hsame, -⟩ := (remains_reconcileWith hk T visits table).origin hp'
      exact hsame.trans (hgroup n c p hp)
  exact hrun.2 n c p hp

theorem Reachable.sound (h : r.Reachable) : r.Sound where
  toKeyed := h.keyed
  toNumbered := h.numbered
  group := h.group_eq
  normal := h.canonical.destination

end Router

/-! ## Empty groups -/

namespace OrderedMap

variable {κ ν : Type} [KeyOrder κ] (m : OrderedMap κ ν)

@[simp] theorem isEmpty_mapWithKey (f : κ → ν → ν) : (m.mapWithKey f).isEmpty = m.isEmpty :=
  List.isEmpty_map

@[simp] theorem isEmpty_map (f : ν → ν) : (m.map f).isEmpty = m.isEmpty := m.isEmpty_mapWithKey _

@[simp] theorem isEmpty_modify [DecidableEq κ] (k : κ) (f : ν → ν) :
    (m.modify k f).isEmpty = m.isEmpty := m.isEmpty_mapWithKey _

end OrderedMap

namespace Group

variable (g : Group)

theorem isEmpty_addPath (spec : PathSpec) (claim : Nat) : (g.addPath spec claim).isEmpty = false :=
  Router.isEmpty_of_get?_paths (OrderedMap.get?_insert_self ..)

theorem isEmpty_addService (destination : Prefix) (connection : ConnectionName) (claim : Nat) :
    (g.addService destination connection claim).isEmpty = false :=
  Router.isEmpty_of_get?_services (OrderedMap.get?_insert_self ..)

@[simp] theorem isEmpty_deletePath (connection : ConnectionName) :
    (g.deletePath connection).isEmpty = g.isEmpty := by
  unfold deletePath
  split <;> simp [isEmpty]

@[simp] theorem isEmpty_deleteService (destination : Prefix) (connection : ConnectionName) :
    (g.deleteService destination connection).isEmpty = g.isEmpty := by
  simp [isEmpty, deleteService]

@[simp] theorem isEmpty_flush : g.flush.isEmpty = g.isEmpty := by simp [isEmpty, flush]

end Group

namespace Router

variable {r : Router}

/-- No group is empty. -/
def Furnished (r : Router) : Prop := ∀ n g, r.groups.get? n = some g → g.isEmpty = false

namespace Furnished

theorem insert (h : r.Furnished) (name : GroupName) {g : Group} (claims : Nat)
    (hg : g.isEmpty = false) : (⟨r.policy, r.groups.insert name g, claims⟩ : Router).Furnished := by
  intro n g' hgroup
  rw [OrderedMap.get?_insert] at hgroup
  split at hgroup
  · cases hgroup
    exact hg
  · exact h n g' hgroup

theorem modify (h : r.Furnished) (name : GroupName) {f : Group → Group}
    (hf : ∀ g, (f g).isEmpty = g.isEmpty) :
    ({ r with groups := r.groups.modify name f } : Router).Furnished := by
  intro n g' hgroup
  rw [OrderedMap.get?_modify] at hgroup
  split at hgroup
  · obtain ⟨g, hg, rfl⟩ := Option.map_eq_some_iff.1 hgroup
    rw [hf]
    exact h n g hg
  · exact h n g' hgroup

theorem map (h : r.Furnished) {f : Group → Group} (hf : ∀ g, (f g).isEmpty = g.isEmpty) :
    ({ r with groups := r.groups.map f } : Router).Furnished := by
  intro n g' hgroup
  rw [OrderedMap.get?_map] at hgroup
  obtain ⟨g, hg, rfl⟩ := Option.map_eq_some_iff.1 hgroup
  rw [hf]
  exact h n g hg

theorem edit (h : r.Furnished) (op : Operation) : (op.edit r).Furnished := by
  cases op with
  | addPeer name spec =>
    cases husable : spec.isUsable with
    | false => rwa [Operation.edit, addPeer_of_not_isUsable husable]
    | true =>
      rw [Operation.edit, addPeer_of_isUsable husable]
      exact h.insert name _ (Group.isEmpty_addPath ..)
  | deletePeer name connection => exact h.modify name fun g => g.isEmpty_deletePath connection
  | addService name destination connection => exact h.insert name _ (Group.isEmpty_addService ..)
  | deleteService name destination connection =>
    exact h.modify name fun g => g.isEmpty_deleteService destination connection
  | flush => exact h.map Group.isEmpty_flush
  | recordRound results => exact h.map fun g => by simp [Group.isEmpty]
  | reconcile => exact h

end Furnished

/-- Reachable routers are furnished: reconciliations drop the groups that they emptied. -/
theorem Reachable.furnished (h : r.Reachable) : r.Furnished := by
  refine h.edit_induction (fun policy => nofun) (fun _ op hr => hr.edit op) ?_
  intro σ r T visits table _ _ n g hgroup
  rw [router_reconcileWith] at hgroup
  exact ((get?_groups_pruned_eq_some_iff _).1 hgroup).2

/-! ## Claims made -/

theorem claims_edit_le (r : Router) (op : Operation) : (op.edit r).claims ≤ r.claims + 1 := by
  cases op with
  | addPeer name spec =>
    simp only [Operation.edit, addPeer]
    split <;> simp
  | addService => exact Nat.le_refl _
  | deletePeer | deleteService | flush | recordRound | reconcile => exact Nat.le_succ _

theorem claims_reconcileWith (hk : r.Keyed) (T : RouteTable σ) (visits : Nat → Visit) (table : σ) :
    (r.reconcileWith T visits table).router.claims = r.claims := by
  refine reconcileWith_stages hk (A := fun _ => True) (fun _ _ => trivial)
    (Q := fun r' _ _ => r'.claims = r.claims) (S := fun _ s => s.router.claims = r.claims) rfl
    (fun _ _ _ _ h => h) ?_ (fun _ _ h => h) ?_ ?_ (fun _ _ _ h => h)
  · intro managed turn s s' _ hturned _ h
    cases hturned <;> exact h
  · intro res d claim res' _ hdisabled _ h
    cases hdisabled <;> exact h
  · intro res d claim res' _ henabled h
    cases henabled <;> exact h

end Router

/-- Every operation makes one claim at most. -/
theorem Run.claims_after_le (T : RouteTable σ) (policy : Policy) (table : σ) (ops : List Operation) :
    (after T policy table ops).router.claims ≤ ops.length := by
  induction ops using List.reverseRecOn with
  | nil => exact Nat.le_refl 0
  | append_singleton ops op ih =>
    rw [after_concat, List.length_append, List.length_singleton]
    by_cases hop : ∃ visits, op = .reconcile visits
    · obtain ⟨visits, rfl⟩ := hop
      rw [router_perform_reconcile, Router.claims_reconcileWith (keyed_after ops)]
      omega
    · rw [perform_of_ne (not_exists.1 hop)]
      have hedit := Router.claims_edit_le (after T policy table ops).router op
      simp only
      omega

/-! ## Reconciliations -/

theorem Stage.Turned.sound {T : RouteTable σ} {managed : List String} {s s' : Stage σ} {turn : Turn}
    (h : Turned T managed s turn s') (hs : s.router.Sound) : s'.router.Sound :=
  hs.remains (h.remains hs.toKeyed) (h.keyed hs.toKeyed) (h.numbered hs.toNumbered)

namespace Resolution

variable {T : RouteTable σ} {res res' : Resolution σ} {d : Prefix} {claim : Claim}

theorem Disabled.sound (h : Disabled T res d claim res') (hres : res.router.Sound) :
    res'.router.Sound :=
  hres.remains h.remains (h.keyed hres.toKeyed) (h.numbered hres.toNumbered)

theorem Enabled.sound (h : Enabled res d claim res') (hres : res.router.Sound) : res'.router.Sound :=
  hres.remains h.remains (h.keyed hres.toKeyed) (h.numbered hres.toNumbered)

end Resolution

/-- A pass after some of its turns. -/
def Reconciled.midway (T : RouteTable σ) (s : Reconciled σ) (turns : List Turn) : Stage σ :=
  turns.foldl (Stage.take T s.router.managedInterfaces) ⟨s.router, ⟨s.table, s.router.owners, s.ledger⟩⟩

theorem Reconciled.turned_eq_midway (T : RouteTable σ) (visits : Nat → Visit) (s : Reconciled σ) :
    s.turned T visits = s.midway T (s.router.turns (visits s.passes)) := rfl

section Remains

variable {r : Router} {s : Reconciled σ}

/-- Turns add nothing to a router. -/
theorem Reconciled.remains_midway (hk : s.router.Keyed) (T : RouteTable σ) (turns : List Turn) :
    s.router.Remains (s.midway T turns).router := by
  have hkept : (s.midway T turns).router.Keyed ∧ s.router.Remains (s.midway T turns).router :=
    Stage.foldl_take_induction
      (P := fun _ stage => stage.router.Keyed ∧ s.router.Remains stage.router)
      (fun _ _ _ _ h hturned => ⟨hturned.keyed h.1, h.2.trans (hturned.remains h.1)⟩) ⟨hk, .refl _⟩
  exact hkept.2

theorem Router.remains_resolve (hk : r.Keyed) (T : RouteTable σ) (table : σ) (ledger : Ledger) :
    r.Remains (r.resolve T table ledger).2.router :=
  resolve_induction T table ledger hk (Q := fun _ _ res => r.Remains res.router) (.refl r)
    (fun _ _ _ _ _ h _ hdisabled => h.trans hdisabled.remains)
    fun _ _ _ _ h _ henabled => h.trans henabled.remains

theorem Reconciled.remains_step (hk : s.router.Keyed) (T : RouteTable σ) (visits : Nat → Visit) :
    s.router.Remains (s.step T visits).router := by
  rw [router_step, resolution, turned_eq_midway]
  exact (remains_midway hk T _).trans (Router.remains_resolve (Router.keyed_passStage hk) T _ _)

/-- Passes add nothing to a router, however many are made. -/
theorem Reconciled.remains_steps (hk : s.router.Keyed) (T : RouteTable σ) (visits : Nat → Visit)
    (k : Nat) : ((step T visits)^[k] s).router.Keyed ∧
      s.router.Remains ((step T visits)^[k] s).router := by
  induction k with
  | zero => exact ⟨hk, .refl _⟩
  | succ k ih =>
    rw [Function.iterate_succ_apply']
    exact ⟨Router.keyed_step ih.1, ih.2.trans (remains_step ih.1 T visits)⟩

end Remains

namespace Router.Sound

variable {r : Router}

/-- Turns keep a router sound. -/
theorem midway {s : Reconciled σ} (h : s.router.Sound) (T : RouteTable σ) (turns : List Turn) :
    (s.midway T turns).router.Sound :=
  Stage.foldl_take_induction (P := fun _ stage => stage.router.Sound)
    (fun _ _ _ _ hstage hturned => hturned.sound hstage) h

theorem resolve (h : r.Sound) (T : RouteTable σ) (table : σ) (ledger : Ledger) :
    (r.resolve T table ledger).2.router.Sound :=
  resolve_induction T table ledger h.toKeyed (Q := fun _ _ res => res.router.Sound) h
    (fun _ _ _ _ _ hres _ hdisabled => hdisabled.sound hres)
    fun _ _ _ _ hres _ henabled => henabled.sound hres

theorem step {s : Reconciled σ} (h : s.router.Sound) (T : RouteTable σ) (visits : Nat → Visit) :
    (s.step T visits).router.Sound := by
  rw [Reconciled.router_step, Reconciled.resolution, Reconciled.turned_eq_midway]
  exact (h.midway T _).resolve T _ _

/-- Passes keep a router sound, however many are made. -/
theorem steps {s : Reconciled σ} (h : s.router.Sound) (T : RouteTable σ) (visits : Nat → Visit)
    (k : Nat) : ((Reconciled.step T visits)^[k] s).router.Sound := by
  induction k with
  | zero => exact h
  | succ k ih =>
    rw [Function.iterate_succ_apply']
    exact ih.step T visits

end Router.Sound

/-! ## Plans -/

/-- What a plan for a service needs is there: the path to go through, or the route to clear. -/
def Group.Provides (g : Group) (s : Service) : ServicePlan → Prop
  | .keep => True
  | .install target | .move target => ∃ p, g.paths.get? target = some p ∧
      g.routeThrough target = some ⟨target, ⟨p.interface, some p.spec.nextHop⟩⟩
  | .clear route => s.active = some route

/-- In a sound router every plan for a service can be carried out. -/
theorem Router.Sound.provides {r : Router} (h : r.Sound) {n : GroupName} {g : Group}
    (hgroup : r.groups.get? n = some g) (s : Service) : g.Provides s (s.plan (g.desired s)) := by
  have hpath : ∀ target, g.desired s = some target → ∃ p, g.paths.get? target = some p ∧
      g.routeThrough target = some ⟨target, ⟨p.interface, some p.spec.nextHop⟩⟩ := by
    intro target hdesired
    obtain ⟨route, hroute⟩ := Group.exists_routeThrough (h.toKeyed.paths hgroup) hdesired
    obtain ⟨p, hp, -⟩ := Option.map_eq_some_iff.1 hroute
    exact ⟨p, hp, by rw [Group.routeThrough, hp, Option.map_some]⟩
  cases hplan : s.plan (g.desired s) with
  | keep => trivial
  | install target => exact hpath target (Service.plan_eq_install_iff.1 hplan).2.2.2
  | move target => exact hpath target (Service.plan_eq_move_iff.1 hplan).2.2.2
  | clear route => exact (Service.plan_eq_clear_iff.1 hplan).1

end RouteKeeper
