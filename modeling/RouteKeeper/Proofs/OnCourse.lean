import RouteKeeper.Proofs.Foreign
import RouteKeeper.Proofs.Waiting

/-!
# Routes of services and the paths that they go through

The route of a service is written with the interface and the next hop that the path of its
connection has at that moment. Later a reconciliation compares connections only: as long as the
service is to go through the same connection its route is kept, whatever has become of the path. So
a route is off the course of its path exactly if the path was asked for anew, with another interface
or next hop, while the route was there, and the route was not written since.

## Main definitions

* `PathSpec.onward` — where packets go that are sent along a path.
* `Router.OnCourse` — the route of a service goes where the path of its connection goes.
* `Router.Redirects` — the operations that take a path away from under a route.

## Main statements

* `Router.onCourse_reconcileWith` — what a reconciliation keeps, and what it puts right.
* `Run.onCourse_iff` — when routes of services follow their paths.
-/
namespace RouteKeeper

variable {σ : Type}

/-- Where packets go that are sent along the path: its interface, and the gateway or the peer. -/
def PathSpec.onward (s : PathSpec) : Hop := ⟨s.interface, some s.nextHop⟩

namespace Router

variable {r r' : Router} {n : GroupName} {d : Prefix}

/-- The route of a service. -/
def active? (r : Router) (n : GroupName) (d : Prefix) : Option ActiveRoute :=
  (r.service? n d).bind Service.active

/-- If the service has a route, and its connection a path, the route goes where the path goes. -/
def OnCourse (r : Router) (n : GroupName) (d : Prefix) : Prop :=
  ∀ route p, r.active? n d = some route → r.path? n route.connection = some p →
    route.hop = p.spec.onward

theorem active?_eq_some_iff {route : ActiveRoute} :
    r.active? n d = some route ↔ ∃ s, r.service? n d = some s ∧ s.active = some route :=
  Option.bind_eq_some_iff

theorem onCourse_iff_hop {route : ActiveRoute} {p : Path} (hactive : r.active? n d = some route)
    (hpath : r.path? n route.connection = some p) :
    r.OnCourse n d ↔ route.hop = p.spec.onward := by
  refine ⟨fun h => h route p hactive hpath, fun h route' p' hactive' hpath' => ?_⟩
  obtain rfl := Option.some.inj (hactive.symm.trans hactive')
  obtain rfl := Option.some.inj (hpath.symm.trans hpath')
  exact h

/-- Where routes are kept or taken away, and paths keep their specifications, routes stay on
course. -/
theorem OnCourse.remains (h : r.OnCourse n d) (hremains : r.Remains r')
    (hactive : ∀ route, r'.active? n d = some route → r.active? n d = some route) :
    r'.OnCourse n d := by
  intro route p' hroute hp'
  obtain ⟨p, hp, hspec⟩ := hremains.path hp'
  rw [hspec]
  exact h route p (hactive route hroute) hp

/-- A route through a path of the group is on course. -/
theorem onCourse_of_routeThrough {g : Group} {c : ConnectionName} {route : ActiveRoute}
    (hgroup : r.groups.get? n = some g) (hroute : g.routeThrough c = some route)
    (hactive : r'.active? n d = some route) (hpath : ∀ c, r'.path? n c = r.path? n c) :
    r'.OnCourse n d := by
  obtain ⟨p, hp, rfl⟩ := Option.map_eq_some_iff.1 hroute
  have hp' : r'.path? n c = some p := by rw [hpath, path?_of_get? hgroup, hp]
  exact (onCourse_iff_hop hactive hp').2 rfl

theorem onCourse_pruned : r.pruned.OnCourse n d ↔ r.OnCourse n d := by
  simp only [OnCourse, active?, path?_pruned, service?_pruned]

end Router

namespace Stage

variable {T : RouteTable σ} {managed : List String} {s s' : Stage σ} {turn : Turn}
  {n : GroupName} {d : Prefix}

/-- A turn that writes the route of a service puts it on course; any other keeps it there. -/
theorem Turned.onCourse (h : Turned T managed s turn s') (hk : s.router.Keyed) :
    s'.router.OnCourse n d ∨ (s.router.OnCourse n d → s'.router.OnCourse n d) ∧
      ∀ hop, ⟨n, .service, d, .install hop, none⟩ ∈ s'.pass.ledger.attempts →
        ⟨n, .service, d, .install hop, none⟩ ∈ s.pass.ledger.attempts := by
  by_cases hown : turn = .service n d
  case neg =>
    refine .inr ⟨fun hs => hs.remains (h.remains hk) ?_, fun hop hmem => ?_⟩
    · intro route hroute
      rwa [Router.active?, h.service?_of_ne hown] at hroute
    · rcases h.cause hk with hsame | ⟨m, k, e, action, error, hturn, hattempts, -⟩
      · rwa [hsame] at hmem
      · rw [hattempts] at hmem
        refine (List.mem_cons.1 hmem).resolve_left ?_
        rintro ⟨⟩
        exact hown hturn
  subst hown
  rcases h.service_cases with ⟨-, rfl⟩ | ⟨g, service, kept, hgroup, hservice, hturn, hkept⟩
  · exact .inr ⟨id, fun _ => id⟩
  have hs : s.router.service? n d = some service :=
    Router.service?_eq_some_iff.2 ⟨g, hgroup, hservice⟩
  have hpath : ∀ c, s'.router.path? n c = s.router.path? n c :=
    fun c => h.path?_of_ne (by simp)
  have hactive : s'.router.active? n d = kept.bind Service.active := by
    rw [Router.active?, hkept]
  have hstays : (∀ route, kept.bind Service.active = some route → service.active = some route) →
      s.router.OnCourse n d → s'.router.OnCourse n d := by
    intro hsame hs'
    refine hs'.remains (h.remains hk) fun route hroute => ?_
    rw [hactive] at hroute
    exact Router.active?_eq_some_iff.2 ⟨service, hs, hsame route hroute⟩
  have hwritten : ∀ {target route}, g.routeThrough target = some route →
      kept.bind Service.active = some route → s'.router.OnCourse n d :=
    fun hroute hbound =>
      Router.onCourse_of_routeThrough hgroup hroute (hactive.trans hbound) hpath
  have hsettled : ∀ service : Service, service.settle.bind Service.active = service.active := by
    intro service
    simpa using service.bind_active_settle id
  generalize s'.pass = pass' at hturn ⊢
  cases hturn with
  | keep =>
    refine .inr ⟨hstays fun route hroute => ?_, fun _ => id⟩
    rwa [hsettled] at hroute
  | clear =>
    refine .inl fun route _ hroute => ?_
    rw [hactive, hsettled] at hroute
    cases hroute
  | install _ hroute | move _ hroute => exact .inl (hwritten hroute (hsettled _))
  | blocked => exact .inr ⟨hstays fun _ => id, fun _ => id⟩
  | clearFailed | installFailed | moveFailed =>
    refine .inr ⟨hstays fun _ => id, fun hop hmem => ?_⟩
    rw [Pass.attempts_tried_error] at hmem
    exact (List.mem_cons.1 hmem).resolve_left (by simp)

end Stage

namespace Resolution

variable {T : RouteTable σ} {res res' : Resolution σ} {d e : Prefix} {claim : Claim}
  {n : GroupName}

theorem Disabled.onCourse (h : Disabled T res e claim res') (hres : res.router.OnCourse n d) :
    res'.router.OnCourse n d := by
  refine hres.remains h.remains fun route hroute => ?_
  obtain ⟨s', hs', hactive⟩ := Router.active?_eq_some_iff.1 hroute
  rcases h.service?_cases hs' with hs | ⟨s, stays, hs, rfl, -⟩
  · exact Router.active?_eq_some_iff.2 ⟨s', hs, hactive⟩
  · refine Router.active?_eq_some_iff.2 ⟨s, hs, ?_⟩
    cases stays with
    | true => exact hactive
    | false => cases hactive

theorem Enabled.onCourse (h : Enabled res e claim res') (hres : res.router.OnCourse n d) :
    res'.router.OnCourse n d := by
  refine hres.remains h.remains fun route hroute => ?_
  obtain ⟨s', hs', hactive⟩ := Router.active?_eq_some_iff.1 hroute
  rcases h.service?_cases hs' with hs | ⟨s, hs, rfl⟩
  · exact Router.active?_eq_some_iff.2 ⟨s', hs, hactive⟩
  · exact Router.active?_eq_some_iff.2 ⟨s, hs, hactive⟩

/-- A resolution installs nothing. -/
theorem Effect.mem_attempts_of_install (h : Effect T res res') {k : Claimant} {hop : Hop}
    (hmem : ⟨n, k, d, .install hop, none⟩ ∈ res'.ledger.attempts) :
    ⟨n, k, d, .install hop, none⟩ ∈ res.ledger.attempts := by
  cases h with
  | quiet _ _ hattempts => rwa [hattempts] at hmem
  | failed _ _ hattempts herror =>
    rw [hattempts] at hmem
    refine (List.mem_cons.1 hmem).resolve_left ?_
    rintro rfl
    cases herror
  | removed _ _ _ hattempts =>
    rw [hattempts] at hmem
    exact (List.mem_cons.1 hmem).resolve_left (by simp)

end Resolution

namespace Router

variable {r : Router} {n : GroupName} {d : Prefix}

/-- Over any table, whichever calls fail, a reconciliation keeps the route of a service on course,
and puts it on course if it writes it. -/
theorem onCourse_reconcileWith (hk : r.Keyed) (T : RouteTable σ) (visits : Nat → Visit) (table : σ)
    (h : r.OnCourse n d ∨ ∃ hop, ⟨n, .service, d, .install hop, none⟩ ∈
      (r.reconcileWith T visits table).ledger.attempts) :
    (r.reconcileWith T visits table).router.OnCourse n d := by
  refine reconcileWith_stages hk (A := fun _ => True) (fun _ _ => trivial)
    (Q := fun r' _ attempts => (r.OnCourse n d ∨
      ∃ hop, ⟨n, .service, d, .install hop, none⟩ ∈ attempts) → r'.OnCourse n d)
    (S := fun _ s => (r.OnCourse n d ∨
      ∃ hop, ⟨n, .service, d, .install hop, none⟩ ∈ s.pass.ledger.attempts) →
        s.router.OnCourse n d) ?_ (fun _ _ _ _ h => h) ?_ (fun _ _ h => h) ?_ ?_ ?_ h
  · intro h
    exact h.resolve_right (by simp)
  · intro managed turn s s' hs hturned _ h h'
    rcases hturned.onCourse hs with hwritten | ⟨hkeeps, hmem⟩
    · exact hwritten
    · exact hkeeps (h (h'.imp_right fun ⟨hop, hhop⟩ => ⟨hop, hmem hop hhop⟩))
  · intro res e claim res' _ hdisabled _ h h'
    exact hdisabled.onCourse
      (h (h'.imp_right fun ⟨hop, hhop⟩ => ⟨hop, hdisabled.effect.mem_attempts_of_install hhop⟩))
  · intro res e claim res' _ henabled h h'
    exact henabled.onCourse (h (h'.imp_right fun ⟨hop, hhop⟩ =>
      ⟨hop, (henabled.effect (T := T)).mem_attempts_of_install hhop⟩))
  · intro r' t attempts h h'
    exact onCourse_pruned.2 (h h')

/-! ## Operations -/

/-- The operation asks for the path that the route of the service goes through, but leads it
elsewhere. -/
def Redirects (r : Router) (n : GroupName) (d : Prefix) : Operation → Prop
  | .addPeer name spec => name = n ∧ spec.isUsable = true ∧ ∃ route, r.active? n d = some route ∧
      route.connection = spec.connection ∧ route.hop ≠ spec.normal.onward
  | _ => False

/-- What an operation does at once leaves the route of a service, if it has one. -/
theorem active?_of_edit {op : Operation} {route : ActiveRoute}
    (h : (op.edit r).active? n d = some route) : r.active? n d = some route := by
  obtain ⟨s', hs', hactive⟩ := active?_eq_some_iff.1 h
  obtain ⟨s, candidates, rfl, hs | rfl⟩ := Operation.service?_edit hs'
  · exact active?_eq_some_iff.2 ⟨s, hs, hactive⟩
  · cases hactive

/-- What an operation does at once keeps the route of a service on course, unless it redirects the
path. -/
theorem OnCourse.edit {op : Operation} (h : r.OnCourse n d) (hcalm : ¬ r.Redirects n d op) :
    (op.edit r).OnCourse n d := by
  intro route p' hroute hp'
  have hheld := active?_of_edit hroute
  rcases Operation.path?_edit hp' with ⟨spec, rfl, husable, hconnection, rfl⟩ | ⟨p, hp, hkept⟩
  · rw [spec_requested]
    by_contra hoff
    exact hcalm ⟨rfl, husable, route, hheld, hconnection.symm, hoff⟩
  · rw [hkept.spec]
    exact h route p hheld hp

/-- An operation that redirects the path leaves the route off course. -/
theorem not_onCourse_of_redirects {op : Operation} (h : r.Redirects n d op) :
    ¬ (op.edit r).OnCourse n d := by
  intro hcourse
  cases op with
  | addPeer name spec =>
    obtain ⟨rfl, husable, route, hroute, hconnection, hoff⟩ := h
    have hactive : (r.addPeer name spec).active? name d = some route := by
      rwa [active?, service?_addPeer]
    have hpath : (r.addPeer name spec).path? name route.connection =
        some (r.requested name spec) := by
      rw [path?_addPeer husable, if_pos ⟨rfl, hconnection⟩]
    have hsame := (onCourse_iff_hop hactive hpath).1 hcourse
    rw [spec_requested] at hsame
    exact hoff hsame
  | _ => exact h

end Router

/-! ## Runs -/

/-- After a reconciliation without failures there is a path for the connection that the route of a
service goes through. -/
theorem Reconciled.Last.exists_path {T : RouteTable σ} {visits : Nat → Visit} {q s : Reconciled σ}
    (h : Last T visits q s) {n : GroupName} {d : Prefix} {route : ActiveRoute}
    (hactive : s.router.active? n d = some route) :
    ∃ p, s.router.path? n route.connection = some p := by
  obtain ⟨service, hs, hactive⟩ := Router.active?_eq_some_iff.1 hactive
  have hroute : s.router.route? n .service d = some route.hop.interface :=
    Router.route?_service_eq_some_iff.2 ⟨service, route, hs, hactive, rfl⟩
  obtain ⟨c, -, hservice⟩ := h.fits n .service d (by simp [hroute])
  have hpreferred := (hservice rfl).2
  rw [Router.through?_of_service? hs, hactive, Option.map_some] at hpreferred
  obtain ⟨g, service', hgroup, -, hdesired⟩ := Router.preferred?_eq_some_iff.1 hpreferred.symm
  have hkeyed : s.router.Keyed := h.router ▸ h.standing.keyed.pruned
  have hpaths : ∀ c p, g.reselect.paths.get? c = some p → p.connection = c :=
    fun c p hp => hkeyed.paths hgroup c p hp
  obtain ⟨route', hroute'⟩ := Group.exists_routeThrough hpaths hdesired
  obtain ⟨p, hp, -⟩ := Option.map_eq_some_iff.1 hroute'
  exact ⟨p, Router.path?_eq_some_iff.2 ⟨g, hgroup, hp⟩⟩

namespace Run

variable {T : RouteTable σ} {policy : Policy} {table : σ} {n : GroupName} {d : Prefix}

/-- Only the operations that redirect its path take the route of a service off course. -/
theorem onCourse_after_concat {ops : List Operation} {op : Operation}
    (h : (after T policy table ops).router.OnCourse n d)
    (hcalm : ¬ (after T policy table ops).router.Redirects n d op) :
    (after T policy table (ops ++ [op])).router.OnCourse n d := by
  have hk : (after T policy table ops).router.Keyed := keyed_after ops
  rw [after_concat]
  by_cases hreconcile : ∃ visits, op = .reconcile visits
  · obtain ⟨visits, rfl⟩ := hreconcile
    rw [router_perform_reconcile]
    exact Router.onCourse_reconcileWith hk T visits _ (.inl h)
  · rw [perform_of_ne (not_exists.1 hreconcile)]
    exact h.edit hcalm

/-- After a reconciliation without failures, of any run over any table, there is a path for the
connection that the route of a service goes through. The route is recorded with its interface and
next hop, unless some operation redirected the path and the route was not on course since; a route
that this reconciliation wrote is. -/
theorem onCourse_iff {ops : List Operation} {visits : Nat → Visit}
    (hvisits : ∀ i, (visits i).IsComplete)
    (hclean : ∀ a ∈ ((after T policy table ops).router.reconcileWith T visits
      (after T policy table ops).table).ledger.attempts, a.error = none)
    {s : Service} {route : ActiveRoute}
    (hs : (after T policy table (ops ++ [.reconcile visits])).router.service? n d = some s)
    (hactive : s.active = some route) :
    ∃ p, (after T policy table (ops ++ [.reconcile visits])).router.path? n route.connection =
        some p ∧
      (route.hop = ⟨p.interface, some p.spec.nextHop⟩ ↔
        ¬ LostSince (fun ops => (after T policy table ops).router.OnCourse n d)
          (fun ops op => (after T policy table ops).router.Redirects n d op)
          (ops ++ [.reconcile visits])) ∧
      ((∃ hop, ⟨n, .service, d, .install hop, none⟩ ∈ ((after T policy table ops).router.reconcileWith
        T visits (after T policy table ops).table).ledger.attempts) →
          route.hop = ⟨p.interface, some p.spec.nextHop⟩) := by
  have hk : (after T policy table ops).router.Keyed := keyed_after ops
  rw [lostSince_iff, not_not]
  · rw [after_concat, router_perform_reconcile] at *
    have hroute := Router.active?_eq_some_iff.2 ⟨s, hs, hactive⟩
    obtain ⟨q, hlast⟩ := Reconciled.exists_last hk hvisits hclean
    obtain ⟨p, hp⟩ := hlast.exists_path hroute
    have hcourse := Router.onCourse_iff_hop hroute hp
    refine ⟨p, hp, hcourse.symm, fun hwritten => hcourse.1 ?_⟩
    exact Router.onCourse_reconcileWith hk T visits _ (.inr hwritten)
  · intro route p hroute
    cases hroute
  · intro ops op h hcalm
    exact onCourse_after_concat h hcalm

/-- A service has its route, and the path that it goes through is asked for through another
interface. -/
def detour : List Operation :=
  [.addPeer ⟨"alpha"⟩ (.v4 "t1" "wg-a" 1), .addService ⟨"alpha"⟩ Router.site ⟨"t1"⟩,
    .recordRound (OrderedMap.empty.insert (.v4 1) (some (.clamp 10000000))),
    .reconcile fun _ => .inOrder, .addPeer ⟨"alpha"⟩ (.v4 "t1" "wg-b" 1)]

/-- The run over them. -/
def detoured : Run RouteTable.Memory := after RouteTable.memory .default .empty detour

/-- What a reconciliation then makes of it. -/
def reconciled : Reconciled RouteTable.Memory :=
  detoured.router.reconcileWith RouteTable.memory (fun _ => .inOrder) detoured.table

/-- The path is written through the other interface, the route of the service is not, though no call
failed. -/
theorem detour_keeps_route :
    (∀ a ∈ reconciled.ledger.attempts, a.error = none) ∧
      reconciled.router.route? ⟨"alpha"⟩ (.path ⟨"t1"⟩) (.host (.v4 1)) = some "wg-b" ∧
      (reconciled.router.path? ⟨"alpha"⟩ ⟨"t1"⟩).map (fun p => p.spec.onward) =
        some ⟨"wg-b", some (.v4 1)⟩ ∧
      reconciled.router.active? ⟨"alpha"⟩ Router.site =
        some ⟨⟨"t1"⟩, ⟨"wg-a", some (.v4 1)⟩⟩ := by
  decide +kernel

/-- The route was lost to the second request for the path. -/
theorem onCourse_iff_detour :
    (∀ a ∈ reconciled.ledger.attempts, a.error = none) ∧
      ∃ s route p, reconciled.router.service? ⟨"alpha"⟩ Router.site = some s ∧
        s.active = some route ∧
        reconciled.router.path? ⟨"alpha"⟩ route.connection = some p ∧
        route.hop ≠ ⟨p.interface, some p.spec.nextHop⟩ ∧
        LostSince
          (fun ops => (after RouteTable.memory .default .empty ops).router.OnCourse ⟨"alpha"⟩
            Router.site)
          (fun ops op => (after RouteTable.memory .default .empty ops).router.Redirects ⟨"alpha"⟩
            Router.site op) (detour ++ [.reconcile fun _ => .inOrder]) := by
  have hclean : ∀ a ∈ reconciled.ledger.attempts, a.error = none := by decide +kernel
  have hrun : (after RouteTable.memory .default .empty
      (detour ++ [.reconcile fun _ => .inOrder])).router = reconciled.router := by
    rw [after_concat, router_perform_reconcile]
    rfl
  have hroute : reconciled.router.active? ⟨"alpha"⟩ Router.site =
      some ⟨⟨"t1"⟩, ⟨"wg-a", some (.v4 1)⟩⟩ := by decide +kernel
  have honward : (reconciled.router.path? ⟨"alpha"⟩ ⟨"t1"⟩).map (fun p => p.spec.onward) =
      some ⟨"wg-b", some (.v4 1)⟩ := by decide +kernel
  obtain ⟨s, hs, hactive⟩ := Router.active?_eq_some_iff.1 hroute
  obtain ⟨p, hp, hcourse, -⟩ := onCourse_iff (T := RouteTable.memory) (fun _ => Visit.isComplete_inOrder)
    hclean (hrun ▸ hs) hactive
  rw [hrun] at hp
  rw [hp, Option.map_some, Option.some.injEq] at honward
  have hoff : (⟨"wg-a", some (.v4 1)⟩ : Hop) ≠ ⟨p.interface, some p.spec.nextHop⟩ := by
    rw [show (⟨p.interface, some p.spec.nextHop⟩ : Hop) = ⟨"wg-b", some (.v4 1)⟩ from honward]
    decide
  refine ⟨hclean, s, _, p, hs, hactive, hp, hoff, ?_⟩
  by_contra hnot
  exact hoff (hcourse.2 hnot)

end Run

end RouteKeeper
