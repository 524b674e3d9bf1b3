import RouteKeeper.Proofs.Runs
import RouteKeeper.Proofs.Sweep

/-!
# Recorded routes have one owner

As long as no removal fails, a disabled entry never has a route: whatever disables it takes the
route away, and nothing that is disabled is given one. A complete pass leaves routes only to entries
that are to stay. Since each claimed prefix is held by one group in the end, all routes that are
recorded for a prefix after a reconciliation belong to that group.

## Main definitions

* `RouteTable.Yields` — a table that refuses no removal.
* `Router.Withdrawn` — no disabled entry has a route.
* `Router.Upheld` — every recorded route is of an entry that is to stay.
* `Router.OwnedBy` — the routes recorded for a prefix belong to one group.

## Main statements

* `Run.withdrawn_after` — disabled entries have no routes all along a run.
* `Router.upheld_reconcileWith` — what a reconciliation leaves.
* `Run.ownedBy_after_reconcile`, `Run.sole_owner` — after a reconciliation a prefix has one owner.
-/
namespace RouteKeeper

variable {σ : Type}

/-! ## Disabled entries have no routes -/

namespace Router

/-- No disabled entry has a route. -/
structure Withdrawn (r : Router) : Prop where
  path {n : GroupName} {c : ConnectionName} {p : Path} (hp : r.path? n c = some p)
    (hdisabled : p.flags.disabled = true) : p.installed = none
  service {n : GroupName} {d : Prefix} {s : Service} (hs : r.service? n d = some s)
    (hdisabled : s.disabled = true) : s.active = none

theorem withdrawn_new (policy : Policy) : (new policy).Withdrawn where
  path hp := by cases hp
  service hs := by cases hs

theorem Withdrawn.edit {r : Router} (h : r.Withdrawn) (op : Operation) :
    (op.edit r).Withdrawn where
  path {n c p'} hp' hdisabled := by
    rcases Operation.path?_edit hp' with ⟨spec, rfl, -, rfl, rfl⟩ | ⟨p, hp, hkept⟩
    · unfold requested at hdisabled ⊢
      cases hp : r.path? n spec.connection with
      | none => rfl
      | some p =>
        rw [hp] at hdisabled
        have hnone : p.installed = none := h.path hp hdisabled
        exact hnone
    · rw [hkept.installed]
      exact h.path hp (hkept.disabled.symm.trans hdisabled)
  service {n d s'} hs' hdisabled := by
    obtain ⟨s, candidates, rfl, hs | rfl⟩ := Operation.service?_edit hs'
    · have hnone : s.active = none := h.service hs hdisabled
      exact hnone
    · rfl

theorem Withdrawn.pruned {r : Router} (h : r.Withdrawn) : r.pruned.Withdrawn where
  path hp := h.path ((path?_pruned r _ _).symm.trans hp)
  service hs := h.service ((service?_pruned r _ _).symm.trans hs)

end Router

/-- A turn gives no route to a disabled path. -/
theorem PathTurn.withdrawn {T : RouteTable σ} {managed : List String} {group : GroupName}
    {pass pass' : Pass σ} {path path' : Path}
    (h : PathTurn T managed group pass path (some path') pass')
    (hpath : path.flags.disabled = true → path.installed = none)
    (hdisabled : path'.flags.disabled = true) : path'.installed = none := by
  cases h with
  | removeFailed | idle | installFailed => exact hpath hdisabled
  | install _ henabled =>
    have hsame : path.flags.disabled = true := hdisabled
    rw [henabled] at hsame
    cases hsame

/-- A turn gives no route to a disabled service. -/
theorem ServiceTurn.withdrawn {T : RouteTable σ} {managed : List String} {g : Group}
    {pass pass' : Pass σ} {service service' : Service}
    (h : ServiceTurn T managed g pass service (some service') pass')
    (hservice : service.disabled = true → service.active = none)
    (hdisabled : service'.disabled = true) : service'.active = none := by
  have hsame : service.disabled = true :=
    (congrArg Service.disabled (h.bare_eq service' rfl)).symm.trans hdisabled
  generalize hkept : some service' = kept at h
  cases h with
  | keep => rw [Service.active_of_settle hkept.symm, hservice hsame]
  | clear => exact Service.active_of_settle hkept.symm
  | blocked | clearFailed | installFailed | moveFailed =>
    cases hkept
    exact hservice hsame
  | install hplan =>
    rw [(Service.plan_eq_install_iff.1 hplan).2.2.1] at hsame
    cases hsame
  | move hplan =>
    rw [(Service.plan_eq_move_iff.1 hplan).2.2.1] at hsame
    cases hsame

namespace Stage

variable {T : RouteTable σ} {managed : List String} {s s' : Stage σ} {turn : Turn}

theorem Turned.withdrawn (h : Turned T managed s turn s') (hk : s.router.Keyed)
    (hs : s.router.Withdrawn) : s'.router.Withdrawn where
  path {n c p'} hp' hdisabled := by
    by_cases hown : turn = .path n c
    · subst hown
      rcases h.path_cases hk with ⟨-, rfl⟩ | ⟨p, kept, hp, hturn, hkept⟩
      · exact hs.path hp' hdisabled
      · rw [hp'] at hkept
        subst hkept
        exact hturn.withdrawn (hs.path hp) hdisabled
    · rw [h.path?_of_ne hown] at hp'
      exact hs.path hp' hdisabled
  service {n d service'} hservice' hdisabled := by
    by_cases hown : turn = .service n d
    · subst hown
      rcases h.service_cases with ⟨-, rfl⟩ | ⟨g, service, kept, hgroup, hservice, hturn, hkept⟩
      · exact hs.service hservice' hdisabled
      · rw [hservice'] at hkept
        subst hkept
        exact hturn.withdrawn (hs.service (Router.service?_eq_some_iff.2 ⟨g, hgroup, hservice⟩))
          hdisabled
    · rw [h.service?_of_ne hown] at hservice'
      exact hs.service hservice' hdisabled

end Stage

namespace Resolution

variable {T : RouteTable σ} {res res' : Resolution σ} {d : Prefix} {claim : Claim}

/-- What is disabled loses its route, unless the removal fails. -/
theorem Disabled.withdrawn (h : Disabled T res d claim res')
    (hreleased : ∀ a ∈ res'.ledger.attempts, a.Releases) (hres : res.router.Withdrawn) :
    res'.router.Withdrawn where
  path hp' hdisabled := by
    rcases h.path?_cases hp' with hp | ⟨p, stays, -, rfl, hstays⟩
    · exact hres.path hp hdisabled
    · rw [hstays hreleased]
      rfl
  service hs' hdisabled := by
    rcases h.service?_cases hs' with hs | ⟨s, stays, -, rfl, hstays⟩
    · exact hres.service hs hdisabled
    · rw [hstays hreleased]
      rfl

theorem Enabled.withdrawn (h : Enabled res d claim res') (hres : res.router.Withdrawn) :
    res'.router.Withdrawn where
  path hp' hdisabled := by
    rcases h.path?_cases hp' with hp | ⟨p, -, rfl⟩
    · exact hres.path hp hdisabled
    · cases hdisabled
  service hs' hdisabled := by
    rcases h.service?_cases hs' with hs | ⟨s, -, rfl⟩
    · exact hres.service hs hdisabled
    · cases hdisabled

end Resolution

/-- A reconciliation in which no removal fails leaves disabled entries without routes. -/
theorem Router.Withdrawn.reconcileWith {r : Router} (h : r.Withdrawn) (hk : r.Keyed)
    {T : RouteTable σ} {visits : Nat → Visit} {table : σ}
    (hreleased : ∀ a ∈ (r.reconcileWith T visits table).ledger.attempts, a.Releases) :
    (r.reconcileWith T visits table).router.Withdrawn := by
  refine reconcileWith_stages hk (Q := fun r _ _ => r.Withdrawn)
    (S := fun _ s => s.router.Withdrawn) hreleased h (fun _ _ _ _ h => h) ?_ (fun _ _ h => h)
    ?_ ?_ (fun _ _ _ h => h.pruned)
  · intro managed turn s s' hs hturned _
    exact hturned.withdrawn hs
  · intro res d claim res' _ hdisabled hA
    exact hdisabled.withdrawn hA
  · intro res d claim res' _ henabled
    exact henabled.withdrawn

/-! ## Routes of entries that are to stay -/

/-- Every recorded route is of a claim. -/
def Router.Upheld (r : Router) : Prop := ∀ n k d, r.route? n k d ≠ none → r.claim? n k d ≠ none

/-- After its turn a path is to stay, unless its removal failed. -/
theorem PathTurn.live {T : RouteTable σ} {managed : List String} {group : GroupName}
    {pass pass' : Pass σ} {path path' : Path}
    (h : PathTurn T managed group pass path (some path') pass')
    (hreleased : ∀ a ∈ pass'.ledger.attempts, a.Releases) :
    path'.flags.pendingDelete = false := by
  cases h with
  | removeFailed =>
    have hnone := hreleased _ (by rw [Pass.attempts_tried_error]; exact List.mem_cons_self) _ rfl
    cases hnone
  | idle hdelete | installFailed hdelete | install hdelete => exact hdelete

/-- After its turn a service with a route is to stay, unless the removal failed. -/
theorem ServiceTurn.live {T : RouteTable σ} {managed : List String} {g : Group}
    {pass pass' : Pass σ} {service service' : Service}
    (h : ServiceTurn T managed g pass service (some service') pass')
    (hreleased : ∀ a ∈ pass'.ledger.attempts, a.Releases) (hroute : service'.active ≠ none) :
    service'.isCleared = false := by
  have hsame : service'.isCleared = service.isCleared := by
    simpa using congrArg Service.isCleared (h.bare_eq service' rfl)
  rw [hsame]
  generalize hkept : some service' = kept at h
  cases h with
  | keep hplan =>
    rw [Service.active_of_settle hkept.symm] at hroute
    rcases hplan with hplan | ⟨target, hplan | hplan, -⟩
    · rcases Service.plan_eq_keep_iff.1 hplan with ⟨hnone, -⟩ | ⟨route, -, hcleared, -⟩
      · exact absurd hnone hroute
      · exact hcleared
    · exact (Service.plan_eq_install_iff.1 hplan).2.1
    · exact (Service.plan_eq_move_iff.1 hplan).2.1
  | blocked hplan | install hplan | installFailed hplan =>
    exact (Service.plan_eq_install_iff.1 hplan).2.1
  | move hplan | moveFailed hplan => exact (Service.plan_eq_move_iff.1 hplan).2.1
  | clear => exact absurd (Service.active_of_settle hkept.symm) hroute
  | clearFailed =>
    have hnone := hreleased _ (by rw [Pass.attempts_tried_error]; exact List.mem_cons_self) _ rfl
    cases hnone

/-- After its turn an entry with a route is to stay, unless a removal failed. -/
theorem Stage.Turned.upheld {T : RouteTable σ} {managed : List String} {s s' : Stage σ}
    {n : GroupName} {k : Claimant} {d : Prefix} (h : Turned T managed s (k.turn n d) s')
    (hk : s.router.Keyed) (hreleased : ∀ a ∈ s'.pass.ledger.attempts, a.Releases)
    (hroute : s'.router.route? n k d ≠ none) : s'.router.claim? n k d ≠ none := by
  obtain ⟨i, hroute⟩ := Option.ne_none_iff_exists'.1 hroute
  cases k with
  | path c =>
    obtain ⟨p', hp', hd, -⟩ := Router.route?_path_eq_some_iff.1 hroute
    rcases h.path_cases hk with ⟨hnone, rfl⟩ | ⟨p, kept, -, hturn, hkept⟩
    · rw [hnone] at hp'
      cases hp'
    · rw [hp'] at hkept
      subst hkept
      have hlive := hturn.live hreleased
      rw [Router.claim?_path_eq_some_iff.2 ⟨p', hp', hlive, hd, rfl⟩]
      exact Option.some_ne_none _
  | service =>
    obtain ⟨service', route, hs', hactive, -⟩ := Router.route?_service_eq_some_iff.1 hroute
    rcases h.service_cases with ⟨hnone, rfl⟩ | ⟨g, service, kept, -, -, hturn, hkept⟩
    · rw [hnone] at hs'
      cases hs'
    · rw [hs'] at hkept
      subst hkept
      have hlive := hturn.live hreleased (by simp [hactive])
      rw [Router.claim?_service_eq_some_iff.2 ⟨service', hs', hlive, rfl⟩]
      exact Option.some_ne_none _

namespace Router

variable {T : RouteTable σ} {r : Router}

/-- A complete pass in which no removal fails leaves routes only to entries that are to stay. -/
theorem upheld_passStage (hk : r.Keyed) {visit : Visit} (hvisit : visit.IsComplete) (table : σ)
    (ledger : Ledger)
    (hreleased : ∀ a ∈ (r.passStage T visit table ledger).pass.ledger.attempts, a.Releases) :
    (r.passStage T visit table ledger).router.Upheld := by
  intro n k d
  -- up to its own turn an entry may be one that is to go; afterwards nobody touches it
  have hpass := passStage_schedule hk T visit table ledger (P := fun rest s =>
    (∀ a ∈ s.pass.ledger.attempts, a.Releases) →
      k.turn n d ∈ rest ∨ (s.router.route? n k d ≠ none → s.router.claim? n k d ≠ none)) ?_ ?_
  · exact (hpass.2 hreleased).resolve_left List.not_mem_nil
  · intro _
    by_cases hroute : r.route? n k d = none
    · exact .inr fun h => absurd hroute h
    · exact .inl (turn_mem_turns_of_route? hvisit hroute)
  · intro turn rest s s' hstanding hturned h hreleased'
    by_cases hown : turn = k.turn n d
    · subst hown
      exact .inr (hturned.upheld hstanding.keyed hreleased')
    · rw [hturned.route?_of_ne hown, hturned.claim?_of_ne hown]
      have hbefore := h fun a ha =>
        hreleased' a ((hturned.effect hstanding.keyed).mem_attempts ha)
      exact hbefore.imp_left fun hmem => (List.mem_cons.1 hmem).resolve_left (Ne.symm hown)

/-- A resolution gives no route and takes no claim away. -/
theorem Upheld.resolve (h : r.Upheld) (hk : r.Keyed) (table : σ) (ledger : Ledger) :
    (r.resolve T table ledger).2.router.Upheld := by
  intro n k d hroute
  have hbefore : r.route? n k d ≠ none := by
    refine resolve_induction T table ledger hk (Q := fun _ _ res =>
      res.router.route? n k d ≠ none → r.route? n k d ≠ none) id ?_ ?_ hroute
    · intro i is js res res' hres _ hdisabled hroute
      exact hres (hdisabled.effect.route?_ne_none hroute)
    · intro j js res res' hres _ henabled hroute
      exact hres ((henabled.effect (T := T)).route?_ne_none hroute)
  rw [Ne, claim?_resolve_eq_none_iff T table ledger hk]
  exact h n k d hbefore

/-- A reconciliation in which no removal fails leaves routes only to entries that are to stay. -/
theorem upheld_reconcileWith (hk : r.Keyed) {visits : Nat → Visit}
    (hvisits : ∀ i, (visits i).IsComplete) {table : σ}
    (hreleased : ∀ a ∈ (r.reconcileWith T visits table).ledger.attempts, a.Releases) :
    (r.reconcileWith T visits table).router.Upheld := by
  -- only the last pass counts
  have hkeyed : ∀ s : Reconciled σ, s.router.Keyed → (s.step T visits).router.Keyed :=
    fun _ => keyed_step
  obtain ⟨q, hq, hlast⟩ :=
    Reconciled.exists_iterate_eq_step hkeyed 2 (s := r.unreconciled table) hk
  rw [ledger_reconcileWith, show maxPasses = 2 + 1 from rfl, hlast] at hreleased
  have hturned : (q.turned T visits).router.Upheld :=
    upheld_passStage hq (hvisits q.passes) q.table q.ledger fun a ha =>
      hreleased a (mem_attempts_step hq ha)
  have hstep : (q.step T visits).router.Upheld := by
    rw [Reconciled.router_step]
    exact hturned.resolve (Reconciled.keyed_turned hq) _ _
  rw [router_reconcileWith, show maxPasses = 2 + 1 from rfl, hlast]
  intro n k d
  rw [route?_pruned, claim?_pruned]
  exact hstep n k d

/-! ## Owners -/

/-- All routes that are recorded for the prefix belong to the group, and each is of an entry that is
enabled and to stay. -/
structure OwnedBy (r : Router) (n : GroupName) (d : Prefix) : Prop where
  path {m : GroupName} {c : ConnectionName} {p : Path} (hp : r.path? m c = some p)
    (hroute : p.isInstalled = true) (hd : p.destination = d) :
    m = n ∧ p.flags.disabled = false ∧ p.flags.pendingDelete = false
  service {m : GroupName} {e : Prefix} {s : Service} (hs : r.service? m e = some s)
    (hroute : s.active ≠ none) (hd : s.destination = d) :
    m = n ∧ s.disabled = false ∧ s.isCleared = false

/-- If disabled entries have no routes and all routes are of claims, the routes for a prefix belong
to the group that holds it. -/
theorem Holds.ownedBy {n : GroupName} {d : Prefix} (h : r.Holds n d) (hk : r.Keyed)
    (hwithdrawn : r.Withdrawn) (hupheld : r.Upheld) : r.OwnedBy n d where
  path {m c p} hp hroute hd := by
    obtain ⟨i, hi⟩ := Option.isSome_iff_exists.1 hroute
    have hne : r.route? m (.path c) d ≠ none := by
      rw [route?_path_eq_some_iff.2 ⟨p, hp, hd, hi⟩]
      exact Option.some_ne_none i
    obtain ⟨claim, hclaim⟩ := Option.ne_none_iff_exists'.1 (hupheld _ _ _ hne)
    have hholds := ((holds_iff hk).1 h).2 m (.path c) claim hclaim
    obtain ⟨p', hp', hlive, -, rfl⟩ := claim?_path_eq_some_iff.1 hclaim
    rw [hp] at hp'
    cases hp'
    have henabled : p.flags.disabled = false := by
      by_contra hdisabled
      rw [hwithdrawn.path hp (by simpa using hdisabled)] at hi
      cases hi
    exact ⟨hholds.1 henabled, henabled, hlive⟩
  service {m e s} hs hroute hd := by
    have he := hk.destination hs
    subst he hd
    obtain ⟨route, hactive⟩ := Option.ne_none_iff_exists'.1 hroute
    have hne : r.route? m .service s.destination ≠ none := by
      rw [route?_service_eq_some_iff.2 ⟨s, route, hs, hactive, rfl⟩]
      exact Option.some_ne_none _
    obtain ⟨claim, hclaim⟩ := Option.ne_none_iff_exists'.1 (hupheld _ _ _ hne)
    have hholds := ((holds_iff hk).1 h).2 m .service claim hclaim
    obtain ⟨s', hs', hlive, rfl⟩ := claim?_service_eq_some_iff.1 hclaim
    rw [hs] at hs'
    cases hs'
    have henabled : s.disabled = false := by
      by_contra hdisabled
      exact hroute (hwithdrawn.service hs (by simpa using hdisabled))
    exact ⟨hholds.1 henabled, henabled, hlive⟩

/-- A prefix for which no route is recorded belongs to any group. -/
theorem ownedBy_of_route?_eq_none {d : Prefix} (hk : r.Keyed)
    (hnone : ∀ m k, r.route? m k d = none) (n : GroupName) : r.OwnedBy n d where
  path {m c p} hp hroute hd := by
    obtain ⟨i, hi⟩ := Option.isSome_iff_exists.1 hroute
    have hrecorded := route?_path_eq_some_iff.2 ⟨p, hp, hd, hi⟩
    rw [hnone] at hrecorded
    cases hrecorded
  service {m e s} hs hroute hd := by
    have he := hk.destination hs
    subst he hd
    obtain ⟨route, hactive⟩ := Option.ne_none_iff_exists'.1 hroute
    have hrecorded := route?_service_eq_some_iff.2 ⟨s, route, hs, hactive, rfl⟩
    rw [hnone] at hrecorded
    cases hrecorded

end Router

/-! ## Runs in which no removal fails -/

/-- Every removal succeeds. -/
def RouteTable.Yields (T : RouteTable σ) : Prop :=
  ∀ d interface table, (T.remove d interface table).1 = .ok ()

/-- Where every removal succeeds, none of a reconciliation fails. -/
theorem RouteTable.Yields.releases {T : RouteTable σ} (hT : T.Yields) {r : Router} (hk : r.Keyed)
    (visits : Nat → Visit) (table : σ) :
    ∀ a ∈ (r.reconcileWith T visits table).ledger.attempts, a.Releases := by
  refine Router.reconcileWith_induction hk (P := fun _ _ attempts => ∀ a ∈ attempts, a.Releases)
    (by simp) ?_ ?_ (fun _ _ _ h => h) visits
  · intro managed turn s s' _ heffect h
    cases heffect with
    | quiet _ hpass => rwa [hpass]
    | @failed a _ _ hcall _ hattempts =>
      rw [hattempts]
      refine List.forall_mem_cons.2 ⟨fun i haction => ?_, h⟩
      rw [haction] at hcall
      cases hcall with
      | remove hcall =>
        have hok := hT a.destination i s.pass.table
        rw [hcall] at hok
        cases hok
    | removed _ _ _ _ _ _ _ hattempts | placed _ _ _ _ _ _ hattempts =>
      rw [hattempts]
      exact List.forall_mem_cons.2 ⟨fun _ _ => rfl, h⟩
  · intro res res' heffect h
    cases heffect with
    | quiet _ _ hattempts => rwa [hattempts]
    | @failed a i _ _ hcall =>
      have hok := hT a.destination i res.table
      rw [hcall] at hok
      cases hok
    | removed _ _ _ hattempts =>
      rw [hattempts]
      exact List.forall_mem_cons.2 ⟨fun _ _ => rfl, h⟩

namespace Run

variable {T : RouteTable σ} {policy : Policy} {table : σ}

theorem releases_after (hT : T.Yields) (ops : List Operation) :
    ∀ a ∈ (after T policy table ops).history, a.Releases := by
  refine after_induction (P := fun s => ∀ a ∈ s.history, a.Releases) (by simp [start]) ?_ ?_ ops
  · intro s op h
    exact h
  · intro s visits hr h a ha
    rw [history_perform_reconcile, List.mem_append] at ha
    rcases ha with ha | ha
    · exact hT.releases hr.keyed visits s.table a ha
    · exact h a ha

/-- As long as no removal fails, disabled entries have no routes. -/
theorem withdrawn_after {ops : List Operation}
    (hreleased : ∀ a ∈ (after T policy table ops).history, a.Releases) :
    (after T policy table ops).router.Withdrawn := by
  refine after_induction (P := fun s => (∀ a ∈ s.history, a.Releases) → s.router.Withdrawn)
    (fun _ => Router.withdrawn_new policy) ?_ ?_ ops hreleased
  · intro s op h hreleased
    exact (h hreleased).edit op
  · intro s visits hr h hreleased
    rw [history_perform_reconcile] at hreleased
    rw [router_perform_reconcile]
    exact (h fun a ha => hreleased a (List.mem_append_right _ ha)).reconcileWith hr.keyed
      fun a ha => hreleased a (List.mem_append_left _ ha)

/-- After a reconciliation, if no removal ever failed, a prefix has one owner. -/
theorem ownedBy_after_reconcile {ops : List Operation} {visits : Nat → Visit}
    (hvisits : ∀ i, (visits i).IsComplete)
    (hreleased : ∀ a ∈ (after T policy table (ops ++ [.reconcile visits])).history, a.Releases)
    (d : Prefix) :
    ∃ n, (after T policy table (ops ++ [.reconcile visits])).router.OwnedBy n d := by
  have hwithdrawn := withdrawn_after hreleased
  have hkeyed : (after T policy table (ops ++ [.reconcile visits])).router.Keyed := keyed_after _
  have hk : (after T policy table ops).router.Keyed := keyed_after ops
  rw [after_concat] at *
  rw [history_perform_reconcile] at hreleased
  rw [router_perform_reconcile] at *
  have hupheld := Router.upheld_reconcileWith hk hvisits fun a ha =>
    hreleased a (List.mem_append_left _ ha)
  by_cases hclaimed : ∃ c, ((after T policy table ops).router.reconcileWith T visits
      (after T policy table ops).table).router.Claimed d c
  · obtain ⟨n, hn⟩ := Router.exists_holds_reconcileWith hk T visits _ hclaimed
    exact ⟨n, hn.ownedBy hkeyed hwithdrawn hupheld⟩
  · refine ⟨⟨""⟩, Router.ownedBy_of_route?_eq_none hkeyed ?_ _⟩
    rw [Router.exists_claimed_iff hkeyed] at hclaimed
    intro m k
    by_contra hroute
    exact hclaimed ⟨m, k, hupheld m k d hroute⟩

/-- Over a table that refuses no removal, whatever else it does, all routes recorded for a prefix
after a reconciliation belong to one group, and their entries are enabled and to stay. -/
theorem sole_owner (hT : T.Yields) (policy : Policy) (table : σ) (ops : List Operation)
    {visits : Nat → Visit} (hvisits : ∀ i, (visits i).IsComplete) (d : Prefix) :
    ∃ n, (after T policy table (ops ++ [.reconcile visits])).router.OwnedBy n d :=
  ownedBy_after_reconcile hvisits (releases_after hT _) d

/-- Two groups ask for paths to one address, and the routes are reconciled. -/
def rivalry : List Operation :=
  [.addPeer ⟨"alpha"⟩ (.v4 "t1" "wg-a" 1), .addPeer ⟨"beta"⟩ (.v4 "t1" "wg-b" 1),
    .reconcile fun _ => .inOrder]

/-- A table in memory that refuses no removal, whatever its rules say. -/
def yielding : RouteTable RouteTable.Memory :=
  { RouteTable.memory with
    remove := fun d interface m =>
      (.ok (), { m with
        routes := if (m.routes.get? d).any (·.interface = interface) then m.routes.erase d
          else m.routes }) }

/-- A table that refuses one route. -/
def refusing : RouteTable.Memory :=
  ⟨.empty, [⟨.add, some (.host (.v4 1)), .refused, "busy", some 1⟩]⟩

/-- The refused route would have been alpha's; so the prefix is beta's. -/
theorem sole_owner_rivalry :
    yielding.Yields ∧ ((after yielding .default refusing rivalry).router.route? ⟨"beta"⟩
        (.path ⟨"t1"⟩) (.host (.v4 1)) = some "wg-b") ∧
      ∃ n, (after yielding .default refusing rivalry).router.OwnedBy n (.host (.v4 1)) := by
  have hT : yielding.Yields := fun _ _ _ => rfl
  refine ⟨hT, by decide +kernel, ?_⟩
  exact sole_owner hT .default refusing (rivalry.take 2) (fun _ => Visit.isComplete_inOrder) _

end Run

end RouteKeeper
