import RouteKeeper.Proofs.Faithful
import RouteKeeper.Proofs.Runs

/-!
# Entries of other programs

An entry through an interface that the router does not use was put into the table by another
program. No removal takes it away, since removals name an interface that the router has recorded,
and no route is made in its place, since the owner is looked up first. Only one call asks nobody:
the one that moves the route of a service to another connection. So an entry of another program is
lost exactly if a service that had a route for the prefix was moved onto it.

## Main definitions

* `Router.Uses` — an interface belongs to the router.
* `Router.Fate` — what becomes of an entry of another program.

## Main statements

* `Stage.Turned.uses` — a reconciliation takes no further interfaces into use.
* `Stage.Turned.installed_or_replaced` — how a route is put in place.
* `Router.foreign_kept_iff` — when an entry of another program is kept.
-/
namespace RouteKeeper

variable {σ : Type}

/-! ## Interfaces in use -/

namespace Router

/-- The interface is that of a path, of the route of a path, or of the route of a service. -/
def Uses (r : Router) (i : String) : Prop :=
  (∃ n c p, r.path? n c = some p ∧ (p.interface = i ∨ p.installed = some i)) ∨
    ∃ n d s route, r.service? n d = some s ∧ s.active = some route ∧ route.hop.interface = i

theorem mem_managedInterfaces_iff {r : Router} {i : String} :
    i ∈ r.managedInterfaces ↔ r.Uses i := by
  simp only [managedInterfaces, List.mem_flatMap, OrderedMap.mem_values_iff, List.mem_append,
    List.mem_filterMap, List.mem_cons, Option.mem_toList, Option.map_eq_some_iff, Uses]
  constructor
  · rintro ⟨g, ⟨n, hgroup⟩, ⟨p, ⟨c, hp⟩, hi⟩ | ⟨s, ⟨d, hs⟩, route, hactive, hi⟩⟩
    · exact .inl ⟨n, c, p, path?_eq_some_iff.2 ⟨g, hgroup, hp⟩, hi.imp Eq.symm id⟩
    · exact .inr ⟨n, d, s, route, service?_eq_some_iff.2 ⟨g, hgroup, hs⟩, hactive, hi⟩
  · rintro (⟨n, c, p, hp, hi⟩ | ⟨n, d, s, route, hs, hactive, hi⟩)
    · obtain ⟨g, hgroup, hp⟩ := path?_eq_some_iff.1 hp
      exact ⟨g, ⟨n, hgroup⟩, .inl ⟨p, ⟨c, hp⟩, hi.imp Eq.symm id⟩⟩
    · obtain ⟨g, hgroup, hs⟩ := service?_eq_some_iff.1 hs
      exact ⟨g, ⟨n, hgroup⟩, .inr ⟨s, ⟨d, hs⟩, route, hactive, hi⟩⟩

theorem uses_of_route? {r : Router} {n : GroupName} {k : Claimant} {d : Prefix} {i : String}
    (h : r.route? n k d = some i) : r.Uses i := by
  cases k with
  | path c =>
    obtain ⟨p, hp, -, hi⟩ := route?_path_eq_some_iff.1 h
    exact .inl ⟨n, c, p, hp, .inr hi⟩
  | service =>
    obtain ⟨s, route, hs, hactive, hi⟩ := route?_service_eq_some_iff.1 h
    exact .inr ⟨n, d, s, route, hs, hactive, hi⟩

theorem uses_of_routeThrough {r : Router} {n : GroupName} {g : Group} {c : ConnectionName}
    {route : ActiveRoute} (hgroup : r.groups.get? n = some g)
    (h : g.routeThrough c = some route) : r.Uses route.hop.interface := by
  obtain ⟨p, hp, rfl⟩ := Option.map_eq_some_iff.1 h
  exact .inl ⟨n, c, p, path?_eq_some_iff.2 ⟨g, hgroup, hp⟩, .inl rfl⟩

/-- A router whose paths and services go through interfaces in use takes no others into use. -/
theorem Uses.of_entries {r r' : Router}
    (hpath : ∀ n c p', r'.path? n c = some p' → r.Uses p'.interface ∧
      ∀ i, p'.installed = some i → r.Uses i)
    (hservice : ∀ n d s' route, r'.service? n d = some s' → s'.active = some route →
      r.Uses route.hop.interface) {i : String} (h : r'.Uses i) : r.Uses i := by
  rcases h with ⟨n, c, p, hp, rfl | hi⟩ | ⟨n, d, s, route, hs, hactive, rfl⟩
  · exact (hpath n c p hp).1
  · exact (hpath n c p hp).2 i hi
  · exact hservice n d s route hs hactive

theorem uses_path {r : Router} {n : GroupName} {c : ConnectionName} {p : Path}
    (hp : r.path? n c = some p) :
    r.Uses p.interface ∧ ∀ i, p.installed = some i → r.Uses i :=
  ⟨.inl ⟨n, c, p, hp, .inl rfl⟩, fun _ hi => .inl ⟨n, c, p, hp, .inr hi⟩⟩

theorem uses_service {r : Router} {n : GroupName} {d : Prefix} {s : Service} {route : ActiveRoute}
    (hs : r.service? n d = some s) (hactive : s.active = some route) :
    r.Uses route.hop.interface :=
  .inr ⟨n, d, s, route, hs, hactive, rfl⟩

theorem uses_pruned {r : Router} {i : String} : r.pruned.Uses i ↔ r.Uses i := by
  simp only [Uses, path?_pruned, service?_pruned]

end Router

/-- A turn records for a path no other route than through its own interface. -/
theorem PathTurn.interface_eq {T : RouteTable σ} {managed : List String} {group : GroupName}
    {pass pass' : Pass σ} {path path' : Path}
    (h : PathTurn T managed group pass path (some path') pass') :
    path'.interface = path.interface ∧
      (path'.installed = path.installed ∨ path'.installed = some path.interface) := by
  cases h with
  | removeFailed | idle | installFailed => exact ⟨rfl, .inl rfl⟩
  | install => exact ⟨rfl, .inr rfl⟩

/-- A turn records for a service no other route than through a path of its group. -/
theorem ServiceTurn.active_eq {T : RouteTable σ} {managed : List String} {g : Group}
    {pass pass' : Pass σ} {service service' : Service}
    (h : ServiceTurn T managed g pass service (some service') pass') {route : ActiveRoute}
    (hactive : service'.active = some route) :
    service.active = some route ∨ ∃ target, g.routeThrough target = some route := by
  have hsettled : ∀ {s : Service}, s.settle = some service' → s.active = some route :=
    fun hs => (Service.active_of_settle hs).symm.trans hactive
  generalize hkept : some service' = kept at h
  cases h with
  | keep => exact .inl (hsettled hkept.symm)
  | clear => cases hsettled hkept.symm
  | blocked | clearFailed | installFailed | moveFailed =>
    cases hkept
    exact .inl hactive
  | install _ hroute | move _ hroute =>
    cases hsettled hkept.symm
    exact .inr ⟨_, hroute⟩

namespace Stage

variable {T : RouteTable σ} {managed : List String} {s s' : Stage σ} {turn : Turn}

/-- A turn takes no further interface into use. -/
theorem Turned.uses (h : Turned T managed s turn s') (hk : s.router.Keyed) {i : String}
    (hi : s'.router.Uses i) : s.router.Uses i := by
  refine hi.of_entries ?_ ?_
  · intro n c p' hp'
    by_cases hown : turn = .path n c
    · subst hown
      rcases h.path_cases hk with ⟨-, rfl⟩ | ⟨p, kept, hp, hturn, hkept⟩
      · exact Router.uses_path hp'
      · rw [hp'] at hkept
        subst hkept
        obtain ⟨hinterface, hinstalled⟩ := hturn.interface_eq
        have hold := Router.uses_path hp
        rw [hinterface]
        refine ⟨hold.1, fun i hi => ?_⟩
        rcases hinstalled with hsame | hplaced
        · exact hold.2 i (hsame.symm.trans hi)
        · rw [hplaced] at hi
          cases hi
          exact hold.1
    · rw [h.path?_of_ne hown] at hp'
      exact Router.uses_path hp'
  · intro n d service' route hs' hactive
    by_cases hown : turn = .service n d
    · subst hown
      rcases h.service_cases with ⟨-, rfl⟩ | ⟨g, service, kept, hgroup, hservice, hturn, hkept⟩
      · exact Router.uses_service hs' hactive
      · rw [hs'] at hkept
        subst hkept
        rcases hturn.active_eq hactive with hold | ⟨target, hroute⟩
        · exact Router.uses_service (Router.service?_eq_some_iff.2 ⟨g, hgroup, hservice⟩) hold
        · exact Router.uses_of_routeThrough hgroup hroute
    · rw [h.service?_of_ne hown] at hs'
      exact Router.uses_service hs' hactive

/-- A route is put in place through an interface in use, and after the owner of the prefix was
looked up; or it is that of a service that has a route, and is moved. -/
theorem Turned.installed_or_replaced (h : Turned T managed s turn s') (hk : s.router.Keyed)
    {n : GroupName} {k : Claimant} {d : Prefix} {hop : Hop}
    (hattempts : s'.pass.ledger.attempts =
      ⟨n, k, d, .install hop, none⟩ :: s.pass.ledger.attempts) :
    s.router.Uses hop.interface ∧
      ((∃ outcome, install T managed d hop s.pass.table = (.ok outcome, s'.pass.table)) ∨
        k = .service ∧ s.router.route? n .service d ≠ none ∧
          T.replace d hop s.pass.table = (.ok (), s'.pass.table)) := by
  cases turn with
  | path m c =>
    rcases h.path_cases hk with ⟨-, rfl⟩ | ⟨p, kept, hp, hturn, -⟩
    · exact absurd hattempts.symm (List.cons_ne_self _ _)
    generalize s'.pass = pass' at hturn hattempts ⊢
    cases hturn with
    | drop | idle => exact absurd hattempts.symm (List.cons_ne_self _ _)
    | remove => simp at hattempts
    | removeFailed | installFailed => simp at hattempts
    | @install outcome table _ _ _ _ hcall =>
      simp only [Pass.ledger_own, Pass.attempts_tried_ok, List.cons.injEq, Attempt.mk.injEq,
        Action.install.injEq, and_true] at hattempts
      obtain ⟨rfl, rfl, rfl, rfl⟩ := hattempts
      exact ⟨(Router.uses_path hp).1, .inl ⟨outcome, by simpa using hcall⟩⟩
  | select m =>
    cases h with
    | noGroup | select => exact absurd hattempts.symm (List.cons_ne_self _ _)
  | service m e =>
    rcases h.service_cases with ⟨-, rfl⟩ | ⟨g, service, kept, hgroup, hservice, hturn, -⟩
    · exact absurd hattempts.symm (List.cons_ne_self _ _)
    have hs : s.router.service? m e = some service :=
      Router.service?_eq_some_iff.2 ⟨g, hgroup, hservice⟩
    have hname := hk.name hgroup
    have hdestination := hk.destination hs
    subst hname hdestination
    generalize s'.pass = pass' at hturn hattempts ⊢
    cases hturn with
    | keep | blocked => exact absurd hattempts.symm (List.cons_ne_self _ _)
    | clear => simp at hattempts
    | clearFailed | installFailed | moveFailed => simp at hattempts
    | @install target route outcome table _ hroute _ hcall =>
      simp only [attempts_finishService_ok, List.cons.injEq, Attempt.mk.injEq,
        Action.install.injEq, and_true] at hattempts
      obtain ⟨rfl, rfl, rfl, rfl⟩ := hattempts
      exact ⟨Router.uses_of_routeThrough hgroup hroute, .inl ⟨outcome, by simpa using hcall⟩⟩
    | @move target route table hplan hroute hcall =>
      simp only [attempts_finishService_ok, List.cons.injEq, Attempt.mk.injEq,
        Action.install.injEq, and_true] at hattempts
      obtain ⟨rfl, rfl, rfl, rfl⟩ := hattempts
      obtain ⟨⟨old, hactive, -⟩, -⟩ := Service.plan_eq_move_iff.1 hplan
      refine ⟨Router.uses_of_routeThrough hgroup hroute, .inr ⟨rfl, ?_, by simpa using hcall⟩⟩
      rw [Router.route?_service_eq_some_iff.2 ⟨service, old, hs, hactive, rfl⟩]
      exact Option.some_ne_none _

end Stage

namespace Resolution

variable {T : RouteTable σ} {res res' : Resolution σ} {d : Prefix} {claim : Claim}

theorem Disabled.uses (h : Disabled T res d claim res') {i : String} (hi : res'.router.Uses i) :
    res.router.Uses i := by
  refine hi.of_entries ?_ ?_
  · intro n c p' hp'
    rcases h.path?_cases hp' with hp | ⟨p, stays, hp, rfl, -⟩
    · exact Router.uses_path hp
    · have hold := Router.uses_path hp
      refine ⟨hold.1, fun i hi => hold.2 i ?_⟩
      cases stays with
      | true => exact hi
      | false => cases hi
  · intro n e s' route hs' hactive
    rcases h.service?_cases hs' with hs | ⟨s, stays, hs, rfl, -⟩
    · exact Router.uses_service hs hactive
    · refine Router.uses_service hs ?_
      cases stays with
      | true => exact hactive
      | false => cases hactive

theorem Enabled.uses (h : Enabled res d claim res') {i : String} (hi : res'.router.Uses i) :
    res.router.Uses i := by
  refine hi.of_entries ?_ ?_
  · intro n c p' hp'
    rcases h.path?_cases hp' with hp | ⟨p, hp, rfl⟩
    · exact Router.uses_path hp
    · have hold := Router.uses_path hp
      exact hold
  · intro n e s' route hs' hactive
    rcases h.service?_cases hs' with hs | ⟨s, hs, rfl⟩ <;> exact Router.uses_service hs hactive

end Resolution

/-! ## What becomes of an entry -/

namespace Router

/-- What has become of an entry that was not the router's at the start: it is still there, and all
routes of services for the prefix are old; or a service that had a route was given one in its place,
and what is there now is the router's. -/
inductive Fate (start : Router) (d : Prefix) (hop : Hop) (r : Router)
    (routes : OrderedMap Prefix Hop) (attempts : List Attempt) : Prop
  | kept (hget : routes.get? d = some hop)
    (hnone : ∀ n h, ⟨n, .service, d, .install h, none⟩ ∉ attempts)
    (hold : ∀ n, r.route? n .service d ≠ none → start.route? n .service d ≠ none)
  | taken {n : GroupName} {h : Hop} (hhad : start.route? n .service d ≠ none)
    (hmem : ⟨n, .service, d, .install h, none⟩ ∈ attempts)
    (hours : ∀ h', routes.get? d = some h' → start.Uses h'.interface)

variable {start r r' : Router} {d : Prefix} {hop : Hop} {routes routes' : OrderedMap Prefix Hop}
  {attempts : List Attempt}

/-- Where the entry stays and no route for the prefix is put in place, nothing becomes of it. -/
theorem Fate.congr (h : Fate start d hop r routes attempts)
    (hget : routes'.get? d = routes.get? d)
    (hroute : ∀ n, r'.route? n .service d ≠ none → r.route? n .service d ≠ none) :
    Fate start d hop r' routes' attempts := by
  cases h with
  | kept hget₀ hnone hold =>
    exact .kept (hget.trans hget₀) hnone fun n hn => hold n (hroute n hn)
  | taken hhad hmem hours => exact .taken hhad hmem fun h' hget' => hours h' (hget.symm.trans hget')

/-- An attempt that puts no route for the prefix in place changes nothing. -/
theorem Fate.attempt (h : Fate start d hop r routes attempts) {a : Attempt}
    (ha : ∀ n hop, a ≠ ⟨n, .service, d, .install hop, none⟩) :
    Fate start d hop r routes (a :: attempts) := by
  cases h with
  | kept hget hnone hold =>
    refine .kept hget (fun n h hmem => ?_) hold
    exact (List.mem_cons.1 hmem).elim (fun heq => ha n h heq.symm) (hnone n h)
  | taken hhad hmem hours => exact .taken hhad (List.mem_cons_of_mem _ hmem) hours

/-- A removal takes away what is the router's, if anything. -/
theorem Fate.remove {T : RouteTable σ} {contents : σ → OrderedMap Prefix Hop}
    (hT : T.Faithful contents) {s s' : σ}
    (h : Fate start d hop r (contents s) attempts) (hforeign : ¬ start.Uses hop.interface)
    {n : GroupName} {k : Claimant} {e : Prefix} {i : String} (hi : start.Uses i)
    (hcall : T.remove e i s = (.ok (), s')) (hroute : ∀ m j e', r'.route? m j e' =
      if m = n ∧ j = k ∧ e' = e then none else r.route? m j e') :
    Fate start d hop r' (contents s') (⟨n, k, e, .remove i, none⟩ :: attempts) := by
  have hless : ∀ m, r'.route? m .service d ≠ none → r.route? m .service d ≠ none := by
    intro m hm
    rw [hroute] at hm
    split at hm
    · exact absurd rfl hm
    · exact hm
  refine Fate.attempt ?_ (by simp)
  cases h with
  | kept hget hnone hold =>
    refine .kept ?_ hnone fun m hm => hold m (hless m hm)
    rw [hT.get?_remove_ok hcall, if_neg, hget]
    rintro ⟨rfl, hmatch⟩
    rw [hget, Option.any_some, decide_eq_true_eq] at hmatch
    rw [hmatch] at hforeign
    exact hforeign hi
  | taken hhad hmem hours =>
    refine .taken hhad hmem fun h' hget' => ?_
    rw [hT.get?_remove_ok hcall] at hget'
    split at hget'
    · cases hget'
    · exact hours h' hget'

/-- A turn lets an entry be, unless it moves the route of a service onto it. -/
theorem Fate.turned {T : RouteTable σ} {contents : σ → OrderedMap Prefix Hop}
    (hT : T.Faithful contents) {managed : List String} {turn : Turn} {s s' : Stage σ}
    (h : Fate start d hop s.router (contents s.pass.table) s.pass.ledger.attempts)
    (hforeign : ¬ start.Uses hop.interface) (hmanaged : ∀ i ∈ managed, start.Uses i)
    (huses : ∀ i, s.router.Uses i → start.Uses i) (hk : s.router.Keyed)
    (hturned : Stage.Turned T managed s turn s') :
    Fate start d hop s'.router (contents s'.pass.table) s'.pass.ledger.attempts := by
  cases hturned.effect hk with
  | quiet hroute hpass =>
    rw [hpass]
    exact h.congr rfl fun n hn => by rwa [← hroute]
  | failed hroute hcall _ hattempts herror =>
    rw [hattempts]
    refine (h.congr ?_ fun n hn => by rwa [← hroute]).attempt ?_
    · rw [hT.failedCall hcall]
    · rintro n hop rfl
      cases herror
  | removed _ hhad _ _ hcall hroute _ hattempts =>
    rw [hattempts]
    exact h.remove hT hforeign (huses _ (uses_of_route? hhad)) hcall hroute
  | @placed n k e hop' hturn _ _ hcall hroute _ hattempts =>
    rw [hattempts]
    obtain ⟨hours, hhow⟩ := hturned.installed_or_replaced hk hattempts
    have hours := huses _ hours
    have hinsert : contents s'.pass.table = (contents s.pass.table).insert e hop' :=
      hT.placed_ok hcall
    by_cases he : d = e
    · subst he
      have hget : (contents s'.pass.table).get? d = some hop' := by
        rw [hinsert, OrderedMap.get?_insert, if_pos rfl]
      have hours' : ∀ h', (contents s'.pass.table).get? d = some h' → start.Uses h'.interface := by
        intro h' hget'
        rw [hget] at hget'
        cases hget'
        exact hours
      cases h with
      | kept hget₀ hnone hold =>
        rcases hhow with ⟨outcome, hinstall⟩ | ⟨rfl, hhad, -⟩
        · exact absurd (hmanaged _ ((hT.install_ok hinstall).2 hop hget₀)) hforeign
        · exact .taken (hold n hhad) List.mem_cons_self hours'
      | taken hhad hmem => exact .taken hhad (List.mem_cons_of_mem _ hmem) hours'
    · refine (h.congr ?_ fun m hm => ?_).attempt ?_
      · rw [hinsert, OrderedMap.get?_insert, if_neg he]
      · rwa [hroute, if_neg fun hkey => he hkey.2.2] at hm
      · rintro m h' ⟨⟩
        exact he rfl

/-- A step of a resolution lets an entry be. -/
theorem Fate.settled {T : RouteTable σ} {contents : σ → OrderedMap Prefix Hop}
    (hT : T.Faithful contents) {res res' : Resolution σ}
    (h : Fate start d hop res.router (contents res.table) res.ledger.attempts)
    (hforeign : ¬ start.Uses hop.interface) (huses : ∀ i, res.router.Uses i → start.Uses i)
    (heffect : Resolution.Effect T res res') :
    Fate start d hop res'.router (contents res'.table) res'.ledger.attempts := by
  cases heffect with
  | quiet hroute htable hattempts =>
    rw [htable, hattempts]
    exact h.congr rfl fun n hn => by rwa [← hroute]
  | failed hroute hcall hattempts herror =>
    rw [hattempts]
    refine (h.congr ?_ fun n hn => by rwa [← hroute]).attempt ?_
    · rw [hT.remove_error hcall]
    · rintro n hop rfl
      cases herror
  | removed hhad hcall hroute hattempts =>
    rw [hattempts]
    exact h.remove hT hforeign (huses _ (uses_of_route? hhad)) hcall hroute

/-- In a reconciliation one of two things becomes of an entry that is not the router's. -/
theorem fate_reconcileWith {T : RouteTable σ} {contents : σ → OrderedMap Prefix Hop}
    (hT : T.Faithful contents) (hk : r.Keyed) (visits : Nat → Visit) {table : σ}
    (hget : (contents table).get? d = some hop) (hforeign : ¬ r.Uses hop.interface) :
    Fate r d hop (r.reconcileWith T visits table).router
      (contents (r.reconcileWith T visits table).table)
      (r.reconcileWith T visits table).ledger.attempts := by
  suffices h : (∀ i, (r.reconcileWith T visits table).router.Uses i → r.Uses i) ∧
      Fate r d hop (r.reconcileWith T visits table).router
        (contents (r.reconcileWith T visits table).table)
        (r.reconcileWith T visits table).ledger.attempts from h.2
  refine reconcileWith_stages hk (A := fun _ => True) (fun _ _ => trivial)
    (Q := fun r' t attempts =>
      (∀ i, r'.Uses i → r.Uses i) ∧ Fate r d hop r' (contents t) attempts)
    (S := fun managed s => (∀ i ∈ managed, r.Uses i) ∧ (∀ i, s.router.Uses i → r.Uses i) ∧
      Fate r d hop s.router (contents s.pass.table) s.pass.ledger.attempts)
    ⟨fun _ => id, .kept hget (by simp) fun _ => id⟩ ?_ ?_ (fun _ _ h => h.2) ?_ ?_ ?_
  · rintro r' t ledger - ⟨huses, hfate⟩
    exact ⟨fun i hi => huses i (mem_managedInterfaces_iff.1 hi), huses, hfate⟩
  · rintro managed turn s s' hs hturned - ⟨hmanaged, huses, hfate⟩
    exact ⟨hmanaged, fun i hi => huses i (hturned.uses hs hi),
      hfate.turned hT hforeign hmanaged huses hs hturned⟩
  · rintro res e claim res' - hdisabled - ⟨huses, hfate⟩
    exact ⟨fun i hi => huses i (hdisabled.uses hi),
      hfate.settled hT hforeign huses hdisabled.effect⟩
  · rintro res e claim res' - henabled ⟨huses, hfate⟩
    exact ⟨fun i hi => huses i (henabled.uses hi),
      hfate.settled hT hforeign huses henabled.effect⟩
  · rintro r' t attempts ⟨huses, hfate⟩
    exact ⟨fun i hi => huses i (uses_pruned.1 hi),
      hfate.congr rfl fun n hn => by rwa [route?_pruned] at hn⟩

/-- An entry through an interface that the router does not use is kept exactly if no route of a
service for its prefix is put in place; and else a service that had one before was moved onto it. -/
theorem foreign_kept_iff {T : RouteTable σ} {contents : σ → OrderedMap Prefix Hop}
    (hT : T.Faithful contents) (hr : r.Reachable) (visits : Nat → Visit) {table : σ}
    (hget : (contents table).get? d = some hop) (hforeign : ¬ r.Uses hop.interface) :
    let s := r.reconcileWith T visits table
    ((contents s.table).get? d = some hop ↔
        ∀ n h, ⟨n, .service, d, .install h, none⟩ ∉ s.ledger.attempts) ∧
      ((contents s.table).get? d ≠ some hop → ∃ n h, r.route? n .service d ≠ none ∧
        ⟨n, .service, d, .install h, none⟩ ∈ s.ledger.attempts) := by
  intro s
  cases fate_reconcileWith hT hr.keyed visits hget hforeign with
  | kept hkept hnone => exact ⟨⟨fun _ => hnone, fun _ => hkept⟩, fun hlost => absurd hkept hlost⟩
  | @taken n h hhad hmem hours =>
    refine ⟨⟨fun hkept => ?_, fun hnone => absurd hmem (hnone n h)⟩, fun _ => ⟨n, h, hhad, hmem⟩⟩
    exact absurd (hours hop hkept) hforeign

/-- The prefix of a site. -/
def site : Prefix := ⟨.v4 0x0A080000, 16, by decide⟩

/-- A service through two connections, of which the one that its route goes through is then
withdrawn. -/
def switching : List Operation :=
  [.addPeer ⟨"alpha"⟩ (.v4 "t1" "wg-a" 1), .addPeer ⟨"alpha"⟩ (.v4 "t2" "wg-b" 2),
    .addService ⟨"alpha"⟩ site ⟨"t1"⟩, .addService ⟨"alpha"⟩ site ⟨"t2"⟩,
    .recordRound ((OrderedMap.empty.insert (.v4 1) (some (.clamp 10000000))).insert (.v4 2)
      (some (.clamp 20000000))),
    .reconcile fun _ => .inOrder, .deleteService ⟨"alpha"⟩ site ⟨"t1"⟩]

/-- The router whose service is to switch. -/
def switcher : Router := (Run.after RouteTable.memory .default .empty switching).router

theorem switcher_reachable : switcher.Reachable := Run.reachable_after switching

/-- A table with one entry, of another program. -/
def intruded : RouteTable.Memory :=
  ⟨OrderedMap.empty.insert site ⟨"eth9", none⟩, []⟩

theorem intruded_foreign : ¬ switcher.Uses "eth9" := by
  rw [← mem_managedInterfaces_iff]
  decide +kernel

/-- The service is moved onto the entry of another program. -/
theorem foreign_kept_iff_switching :
    switcher.Reachable ∧ ¬ switcher.Uses "eth9" ∧
      intruded.routes.get? site = some ⟨"eth9", none⟩ ∧
      ∃ n h, switcher.route? n .service site ≠ none ∧ ⟨n, .service, site, .install h, none⟩ ∈
        (switcher.reconcileWith RouteTable.memory (fun _ => .inOrder) intruded).ledger.attempts := by
  have hget : intruded.routes.get? site = some ⟨"eth9", none⟩ := by decide +kernel
  refine ⟨switcher_reachable, intruded_foreign, hget, ?_⟩
  refine (foreign_kept_iff RouteTable.faithful_memory switcher_reachable (fun _ => .inOrder) hget
    intruded_foreign).2 ?_
  decide +kernel

/-- The entry is gone: the route goes through the service's other connection. -/
theorem switching_hijacks :
    switcher.Reachable ∧ ¬ switcher.Uses "eth9" ∧
      intruded.routes.get? site = some ⟨"eth9", none⟩ ∧
      (switcher.reconcileWith RouteTable.memory (fun _ => .inOrder) intruded).table.routes.get?
        site = some ⟨"wg-b", some (.v4 2)⟩ :=
  ⟨switcher_reachable, intruded_foreign, by decide +kernel, by decide +kernel⟩

end Router

end RouteKeeper
