import RouteKeeper.Proofs.Faithful
import RouteKeeper.Proofs.Ownership

/-!
# Recorded routes and the table

A route that is recorded should be in the table. The entries of one group that share a prefix share
one entry of the table, through the interface of whichever was put in place last; so each of them
may find there the interface of another. That goes well until one of them goes: it may take the
entry with it, and nothing puts the route of the others back. The same can happen when a path takes
its record along to another prefix, which has its entry from somebody else, or has none. Nothing
else upsets it, whichever calls fail.

## Main definitions

* `Router.InTable` — all routes recorded for a prefix are in the table.
* `Router.Serves` — they are, and belong to one group.
* `Router.Shared` — another entry of the group counts on the prefix.
* `Run.Upsets` — the operations that may upset it.

## Main statements

* `Router.Serves.reconcileWith` — a reconciliation keeps a prefix served, unless it takes the route
  of an entry away that shares it.
* `Run.serves_after_concat` — only the operations that may upset it do.
* `Run.inTable_iff` — after a reconciliation, all routes recorded for a prefix are in the table
  unless some operation upset it and it was not served since.
-/
namespace RouteKeeper

variable {σ : Type}

namespace Router

/-- Every route recorded for the prefix is in the table, through an interface that some entry of its
group records. -/
def InTable (r : Router) (routes : OrderedMap Prefix Hop) (d : Prefix) : Prop :=
  ∀ n k i, r.route? n k d = some i →
    ∃ hop j, routes.get? d = some hop ∧ r.route? n j d = some hop.interface

/-- The routes recorded for the prefix are in the table, and belong to one group. -/
structure Serves (r : Router) (routes : OrderedMap Prefix Hop) (d : Prefix) : Prop where
  alone {m n : GroupName} {j k : Claimant} (hm : r.route? m j d ≠ none)
    (hn : r.route? n k d ≠ none) : m = n
  inTable : r.InTable routes d

/-- Another entry of the group claims the prefix, or has a route for it. -/
def Shared (r : Router) (n : GroupName) (k : Claimant) (d : Prefix) : Prop :=
  ∃ j, j ≠ k ∧ (r.claim? n j d ≠ none ∨ r.route? n j d ≠ none)

/-! ## Steps -/

section Step

variable {r r' : Router} {routes routes' : OrderedMap Prefix Hop} {d : Prefix} {n : GroupName}
  {k : Claimant}

theorem serves_of_route?_eq_none (hnone : ∀ m j, r.route? m j d = none) : r.Serves routes d where
  alone hm := absurd (hnone _ _) hm
  inTable n k i hi := by
    rw [hnone] at hi
    cases hi

theorem Serves.congr (h : r.Serves routes d) (hget : routes'.get? d = routes.get? d)
    (hroute : ∀ m j, r'.route? m j d = r.route? m j d) : r'.Serves routes' d where
  alone {m n j k} hm hn := by
    rw [hroute] at hm hn
    exact h.alone hm hn
  inTable n k i hi := by
    rw [hroute] at hi
    obtain ⟨hop, j, hhop, hj⟩ := h.inTable n k i hi
    exact ⟨hop, j, hget.trans hhop, (hroute n j).trans hj⟩

/-- Where nothing shares the prefix, no route is left once one is taken away. -/
theorem Serves.route?_eq_none (h : r.Serves routes d) (hhad : r.route? n k d ≠ none)
    (halone : ∀ j, j ≠ k → r.route? n j d = none)
    (hroute : ∀ m j, r'.route? m j d = if m = n ∧ j = k then none else r.route? m j d)
    (m : GroupName) (j : Claimant) : r'.route? m j d = none := by
  rw [hroute]
  split
  case isTrue => rfl
  case isFalse hkey =>
    by_contra hne
    have hm := h.alone hne hhad
    subst hm
    exact hne (halone j fun hj => hkey ⟨rfl, hj⟩)

/-- Where all routes are of a group that puts another one in place, all are of that group. -/
theorem eq_of_placed {i : String} (hown : ∀ m j, r.route? m j d ≠ none → m = n)
    (hroute : ∀ m j, r'.route? m j d = if m = n ∧ j = k then some i else r.route? m j d)
    (m : GroupName) (j : Claimant) (hne : r'.route? m j d ≠ none) : m = n := by
  rw [hroute] at hne
  split at hne
  case isTrue hkey => exact hkey.1
  case isFalse => exact hown m j hne

/-- A route that is put in place serves all of its group. -/
theorem serves_of_placed (hown : ∀ m j, r.route? m j d ≠ none → m = n) {hop : Hop}
    (hget : routes'.get? d = some hop) (hroute : ∀ m j, r'.route? m j d =
      if m = n ∧ j = k then some hop.interface else r.route? m j d) : r'.Serves routes' d where
  alone hm hn := (eq_of_placed hown hroute _ _ hm).trans (eq_of_placed hown hroute _ _ hn).symm
  inTable m j i hi := by
    have hm := eq_of_placed hown hroute m j (by simp [hi])
    subst hm
    exact ⟨hop, k, hget, by rw [hroute, if_pos ⟨rfl, rfl⟩]⟩

end Step

/-! ## Within a reconciliation -/

/-- The claims to the prefix, and the routes recorded for it, are of entries that claimed it or had
a route for it at the start. -/
structure Stems (start r : Router) (d : Prefix) : Prop where
  claim {n : GroupName} {k : Claimant} (h : r.claim? n k d ≠ none) : start.claim? n k d ≠ none
  route {n : GroupName} {k : Claimant} (h : r.route? n k d ≠ none) :
    start.claim? n k d ≠ none ∨ start.route? n k d ≠ none

variable {start r r' : Router} {d : Prefix}

/-- Where claims are only marked, none is new. -/
theorem claim?_ne_none_of_bare {n : GroupName} {k : Claimant} {f : Claim → Claim}
    (hbare : (r'.claim? n k d).map Claim.bare = (r.claim? n k d).map f)
    (hclaim : r'.claim? n k d ≠ none) : r.claim? n k d ≠ none := by
  intro hnone
  rw [hnone, Option.map_none, Option.map_eq_none_iff] at hbare
  exact hclaim hbare

theorem stems_refl (r : Router) (d : Prefix) : r.Stems r d := ⟨id, .inr⟩

/-- Where no claim and no route is new, all stem from the start. -/
theorem Stems.of_subset (h : start.Stems r d)
    (hclaim : ∀ {n k}, r'.claim? n k d ≠ none → r.claim? n k d ≠ none)
    (hroute : ∀ {n k}, r'.route? n k d ≠ none → r.route? n k d ≠ none) : start.Stems r' d :=
  ⟨fun hc => h.claim (hclaim hc), fun hr => h.route (hroute hr)⟩

/-- Where nothing shared the prefix at the start, no other entry of the group has a route for it. -/
theorem Stems.route?_eq_none (h : start.Stems r d) {n : GroupName} {k : Claimant}
    (halone : ¬ start.Shared n k d) (j : Claimant) (hj : j ≠ k) : r.route? n j d = none := by
  by_contra hne
  exact halone ⟨j, hj, h.route hne⟩

end Router

namespace Stage

variable {T : RouteTable σ} {routes : σ → OrderedMap Prefix Hop} {managed : List String}
  {start : Router} {d : Prefix} {s s' : Stage σ} {turn : Turn}

/-- In the middle of a pass: the prefix is served, and whoever has a route for it owns it. -/
structure Served (routes : σ → OrderedMap Prefix Hop) (start : Router) (d : Prefix) (s : Stage σ) :
    Prop where
  serves : s.router.Serves (routes s.pass.table) d
  stems : start.Stems s.router d
  owner {n : GroupName} {k : Claimant} (h : s.router.route? n k d ≠ none) :
    s.pass.owners.get? d = some n

section Served

variable (h : s.Served routes start d)
  (hclaim : ∀ {m j}, s'.router.claim? m j d ≠ none → s.router.claim? m j d ≠ none)
include h hclaim

/-- Where nothing changes for the prefix, it goes on being served. -/
theorem Served.congr (hroute : ∀ m j, s'.router.route? m j d = s.router.route? m j d)
    (hget : (routes s'.pass.table).get? d = (routes s.pass.table).get? d)
    (howner : s'.pass.owners.get? d = s.pass.owners.get? d) : s'.Served routes start d := by
  refine ⟨h.serves.congr hget hroute, ?_, ?_⟩
  · exact h.stems.of_subset hclaim fun hne => by rwa [← hroute]
  · intro n k hne
    rw [hroute] at hne
    rw [howner]
    exact h.owner hne

/-- Where a route is taken away that no other entry of its group counts on, none is left. -/
theorem Served.removed {n : GroupName} {k : Claimant} (hhad : s.router.route? n k d ≠ none)
    (halone : ¬ start.Shared n k d)
    (hroute : ∀ m j, s'.router.route? m j d =
      if m = n ∧ j = k then none else s.router.route? m j d) : s'.Served routes start d := by
  have hnone := h.serves.route?_eq_none hhad (h.stems.route?_eq_none halone) hroute
  refine ⟨Router.serves_of_route?_eq_none hnone, ?_, fun hne => absurd (hnone _ _) hne⟩
  exact h.stems.of_subset hclaim fun hne => absurd (hnone _ _) hne

/-- Where a route is put in place that is due, for a group that has the prefix if any group has, the
prefix is served. -/
theorem Served.placed {n : GroupName} {k : Claimant} {hop : Hop} (hdue : s.router.Due n k d)
    (hfree : s.pass.isBlocked d n = false ∨ s.router.route? n k d ≠ none)
    (hget : (routes s'.pass.table).get? d = some hop)
    (hroute : ∀ m j, s'.router.route? m j d =
      if m = n ∧ j = k then some hop.interface else s.router.route? m j d)
    (howner : s'.pass.owners.get? d = some n) : s'.Served routes start d := by
  have hown : ∀ m j, s.router.route? m j d ≠ none → m = n := by
    intro m j hne
    rcases hfree with hfree | hhad
    · exact (Pass.isBlocked_eq_false_iff _ _ _).1 hfree m (h.owner hne)
    · exact h.serves.alone hne hhad
  refine ⟨Router.serves_of_placed hown hget hroute, ⟨fun hne => h.stems.claim (hclaim hne), ?_⟩, ?_⟩
  · intro m j hne
    rw [hroute] at hne
    split at hne
    case isTrue hkey =>
      -- the route is new, but it is due, and so of a claim
      obtain ⟨rfl, rfl⟩ := hkey
      obtain ⟨⟨c, hc, -⟩, -⟩ := hdue
      exact .inl (h.stems.claim (by simp [hc]))
    case isFalse => exact h.stems.route hne
  · intro m j hne
    rw [Router.eq_of_placed hown hroute m j hne, howner]

end Served

/-- A turn keeps a prefix served, unless it takes the route of an entry away that shares it. -/
theorem Served.turned (hT : T.Faithful routes) (h : s.Served routes start d)
    (hk : s.router.Keyed) (hturned : Turned T managed s turn s')
    (hcalm : ∀ n k i, s'.pass.ledger.attempts =
      ⟨n, k, d, .remove i, none⟩ :: s.pass.ledger.attempts → ¬ start.Shared n k d) :
    s'.Served routes start d := by
  have hclaim : ∀ {m j}, s'.router.claim? m j d ≠ none → s.router.claim? m j d ≠ none :=
    Router.claim?_ne_none_of_bare (hturned.claim?_bare _ _ _)
  cases hturned.effect hk with
  | quiet hroute hpass =>
    exact h.congr hclaim (fun m j => hroute m j d) (by rw [hpass]) (by rw [hpass])
  | failed hroute hcall howners =>
    refine h.congr hclaim (fun m j => hroute m j d) ?_ (by rw [howners])
    rw [hT.failedCall hcall]
  | @removed n k e i _ hhad _ _ hcall hroute howners hattempts =>
    by_cases he : d = e
    · subst he
      refine h.removed hclaim (by simp [hhad]) (hcalm n k i hattempts) fun m j => ?_
      simp [hroute]
    · refine h.congr hclaim (fun m j => ?_) ?_ ?_
      · rw [hroute, if_neg fun hkey => he hkey.2.2]
      · rw [hT.get?_remove_ok hcall, if_neg fun hkey => he hkey.1]
      · rw [howners, if_neg fun hkey => he hkey.1]
  | @placed n k e hop _ hdue hfree hcall hroute howners =>
    have hinsert : routes s'.pass.table = (routes s.pass.table).insert e hop := hT.placed_ok hcall
    by_cases he : d = e
    · subst he
      have hget : (routes s'.pass.table).get? d = some hop := by
        rw [hinsert, OrderedMap.get?_insert, if_pos rfl]
      refine h.placed hclaim hdue hfree hget (fun m j => ?_) ?_
      · simp [hroute]
      · rw [howners, OrderedMap.get?_insert, if_pos rfl]
    · refine h.congr hclaim (fun m j => ?_) ?_ ?_
      · rw [hroute, if_neg fun hkey => he hkey.2.2]
      · rw [hinsert, OrderedMap.get?_insert, if_neg he]
      · rw [howners, OrderedMap.get?_insert, if_neg he]

end Stage

namespace Router

variable {T : RouteTable σ} {routes : σ → OrderedMap Prefix Hop} {start r : Router} {d : Prefix}

/-- If the prefix is served, whoever has a route for it owns it at the start of a pass. -/
theorem Serves.get?_owners (hk : r.Keyed) {contents : OrderedMap Prefix Hop}
    (h : r.Serves contents d) {n : GroupName} {k : Claimant} (hn : r.route? n k d ≠ none) :
    r.owners.get? d = some n := by
  refine (get?_owners_eq_some_iff hk).2 ⟨records_iff.2 ⟨k, hn⟩, fun m hm => .inl ?_⟩
  obtain ⟨j, hj⟩ := records_iff.1 hm
  exact h.alone hj hn

/-- A step of a resolution keeps a prefix served, unless it takes the route of an entry away that
shares it. -/
theorem Serves.settled (hT : T.Faithful routes) {res res' : Resolution σ}
    (h : res.router.Serves (routes res.table) d) (hstems : start.Stems res.router d)
    (heffect : Resolution.Effect T res res')
    (hcalm : ∀ n k i, res'.ledger.attempts =
      ⟨n, k, d, .remove i, none⟩ :: res.ledger.attempts → ¬ start.Shared n k d) :
    res'.router.Serves (routes res'.table) d := by
  cases heffect with
  | quiet hroute htable => exact h.congr (by rw [htable]) fun m j => hroute m j d
  | failed hroute hcall =>
    exact h.congr (by rw [hT.remove_error hcall]) fun m j => hroute m j d
  | @removed n k e i hhad hcall hroute hattempts =>
    by_cases he : d = e
    · subst he
      refine serves_of_route?_eq_none (h.route?_eq_none (n := n) (k := k) (by simp [hhad])
        (hstems.route?_eq_none (hcalm n k i hattempts)) fun m j => ?_)
      simp [hroute]
    · refine h.congr ?_ fun m j => ?_
      · rw [hT.get?_remove_ok hcall, if_neg fun hkey => he hkey.1]
      · rw [hroute, if_neg fun hkey => he hkey.2.2]

/-- A reconciliation keeps a prefix served, unless it takes the route of an entry away that shares
it. -/
theorem Serves.reconcileWith (hT : T.Faithful routes) (hk : r.Keyed) {visits : Nat → Visit}
    {table : σ} (h : r.Serves (routes table) d)
    (hcalm : ∀ a ∈ (r.reconcileWith T visits table).ledger.attempts,
      ∀ n k i, a = ⟨n, k, d, .remove i, none⟩ → ¬ r.Shared n k d) :
    (r.reconcileWith T visits table).router.Serves
      (routes (r.reconcileWith T visits table).table) d := by
  suffices hboth : (r.reconcileWith T visits table).router.Serves
      (routes (r.reconcileWith T visits table).table) d ∧
        r.Stems (r.reconcileWith T visits table).router d from hboth.1
  refine reconcileWith_stages hk hcalm
    (Q := fun r' t _ => r'.Serves (routes t) d ∧ r.Stems r' d)
    (S := fun _ s => s.Served routes r d) ⟨h, stems_refl r d⟩ ?_ ?_ (fun _ _ h => ⟨h.1, h.2⟩)
    ?_ ?_ ?_
  · rintro r' t ledger hk' ⟨hserves, hstems⟩
    exact ⟨hserves, hstems, hserves.get?_owners hk'⟩
  · intro managed turn s s' hs hturned hA h
    refine h.turned hT hs hturned fun n k i hattempts => ?_
    exact hA _ (hattempts ▸ List.mem_cons_self) n k i rfl
  · rintro res e claim res' - hdisabled hA ⟨hserves, hstems⟩
    refine ⟨hserves.settled hT hstems hdisabled.effect fun n k i hattempts => ?_, ?_⟩
    · exact hA _ (hattempts ▸ List.mem_cons_self) n k i rfl
    · exact hstems.of_subset (claim?_ne_none_of_bare (hdisabled.claim?_bare _ _ _))
        hdisabled.effect.route?_ne_none
  · rintro res e claim res' - henabled ⟨hserves, hstems⟩
    refine ⟨hserves.congr (by rw [henabled.table_eq]) fun m j => henabled.route?_eq m j d, ?_⟩
    refine hstems.of_subset (claim?_ne_none_of_bare (henabled.claim?_bare _ _ _)) fun hne => ?_
    rwa [henabled.route?_eq] at hne
  · rintro r' t attempts ⟨hserves, hstems⟩
    refine ⟨hserves.congr rfl fun m j => route?_pruned r' m j d, ?_⟩
    refine hstems.of_subset (fun hne => ?_) fun hne => ?_
    · rwa [claim?_pruned] at hne
    · rwa [route?_pruned] at hne

/-! ## Asking for a path -/

/-- Asking for a path leaves the records for a prefix, unless a path with a route moves onto it or
off it. -/
theorem route?_addPeer (name : GroupName) {spec : PathSpec} (husable : spec.isUsable = true)
    (d : Prefix) :
    (∀ m j, (r.addPeer name spec).route? m j d = r.route? m j d) ∨
      ∃ p, r.path? name spec.connection = some p ∧ p.isInstalled = true ∧
        (p.update spec).destination ≠ p.destination ∧ ((p.update spec).destination = d ∨
          p.destination = d ∧ ∀ m j, (r.addPeer name spec).route? m j d =
            if m = name ∧ j = .path spec.connection then none else r.route? m j d) := by
  have hsame : (r.addPeer name spec).route? name (.path spec.connection) d =
      r.route? name (.path spec.connection) d →
        ∀ m j, (r.addPeer name spec).route? m j d = r.route? m j d := by
    intro hown m j
    by_cases hkey : m = name ∧ j = .path spec.connection
    · obtain ⟨rfl, rfl⟩ := hkey
      exact hown
    · exact route?_addPeer_of_ne hkey d
  have hafter := route?_addPeer_self (r := r) name husable d
  cases hp : r.path? name spec.connection with
  | none =>
    rw [hp] at hafter
    exact .inl (hsame (hafter.trans (by simp [route?, hp])))
  | some p =>
    have hbefore : r.route? name (.path spec.connection) d =
        if p.destination = d then p.installed else none := by
      rw [route?, hp, Option.filter_some]
      by_cases hd : p.destination = d <;> simp [hd]
    rw [hp, Option.bind_some] at hafter
    cases hroute : p.installed with
    | none => exact .inl (hsame (by simp [hbefore, hafter, hroute]))
    | some i =>
      have hplaced : p.isInstalled = true := by simp [Path.isInstalled, hroute]
      by_cases hmoved : (p.update spec).destination = p.destination
      · exact .inl (hsame (by rw [hbefore, hafter, ← hmoved]; rfl))
      by_cases honto : (p.update spec).destination = d
      · exact .inr ⟨p, rfl, hplaced, hmoved, .inl honto⟩
      have hafter := hafter.trans (if_neg honto)
      by_cases hoff : p.destination = d
      · refine .inr ⟨p, rfl, hplaced, hmoved, .inr ⟨hoff, fun m j => ?_⟩⟩
        split
        case isTrue hkey =>
          obtain ⟨rfl, rfl⟩ := hkey
          exact hafter
        case isFalse hkey => exact route?_addPeer_of_ne hkey d
      · exact .inl (hsame (by rw [hbefore, hafter, if_neg hoff]))

theorem OwnedBy.eq_of_route? {n : GroupName} (h : r.OwnedBy n d) (hk : r.Keyed) {m : GroupName}
    {k : Claimant} (hroute : r.route? m k d ≠ none) : m = n := by
  obtain ⟨i, hi⟩ := Option.ne_none_iff_exists'.1 hroute
  cases k with
  | path c =>
    obtain ⟨p, hp, hd, hinstalled⟩ := route?_path_eq_some_iff.1 hi
    exact (h.path hp (by simp [Path.isInstalled, hinstalled]) hd).1
  | service =>
    obtain ⟨s, route, hs, hactive, -⟩ := route?_service_eq_some_iff.1 hi
    exact (h.service hs (by simp [hactive]) (hk.destination hs)).1

end Router

/-! ## Runs -/

namespace Run

variable {T : RouteTable σ} {routes : σ → OrderedMap Prefix Hop} {policy : Policy} {table : σ}

/-- The operation may upset the service of a prefix: it moves a path with a route onto the prefix,
or off it while another entry of the group counts on it; or it takes the route of an entry for it
away while another entry of the group does. -/
def Upsets (T : RouteTable σ) (s : Run σ) (d : Prefix) : Operation → Prop
  | .addPeer name spec => spec.isUsable = true ∧ ∃ p, s.router.path? name spec.connection = some p ∧
      p.isInstalled = true ∧ (p.update spec).destination ≠ p.destination ∧
      ((p.update spec).destination = d ∨
        p.destination = d ∧ s.router.Shared name (.path spec.connection) d)
  | .reconcile visits => ∃ n k i, s.router.Shared n k d ∧ ⟨n, k, d, .remove i, none⟩ ∈
      (s.router.reconcileWith T visits s.table).ledger.attempts
  | _ => False

/-- Only the operations that may upset the service of a prefix do. -/
theorem serves_after_concat (hT : T.Faithful routes) {ops : List Operation} {op : Operation}
    {d : Prefix} (h : (after T policy table ops).router.Serves
      (routes (after T policy table ops).table) d)
    (hcalm : ¬ Upsets T (after T policy table ops) d op) :
    (after T policy table (ops ++ [op])).router.Serves
      (routes (after T policy table (ops ++ [op])).table) d := by
  have hk : (after T policy table ops).router.Keyed := keyed_after ops
  rw [after_concat]
  by_cases hreconcile : ∃ visits, op = .reconcile visits
  · obtain ⟨visits, rfl⟩ := hreconcile
    rw [router_perform_reconcile, table_perform_reconcile]
    refine h.reconcileWith hT hk fun a ha n k i heq hshared => ?_
    exact hcalm ⟨n, k, i, hshared, heq ▸ ha⟩
  rw [perform_of_ne (not_exists.1 hreconcile)]
  by_cases hadd : ∃ name spec, op = .addPeer name spec
  · obtain ⟨name, spec, rfl⟩ := hadd
    show ((after T policy table ops).router.addPeer name spec).Serves _ d
    cases husable : spec.isUsable with
    | false =>
      rw [Router.addPeer_of_not_isUsable husable]
      exact h
    | true =>
      rcases Router.route?_addPeer (r := (after T policy table ops).router) name husable d with
        hsame | ⟨p, hp, hinstalled, hmoved, honto | ⟨hoff, hroute⟩⟩
      · exact h.congr rfl hsame
      · exact absurd ⟨husable, p, hp, hinstalled, hmoved, .inl honto⟩ hcalm
      · have hhad : (after T policy table ops).router.route? name (.path spec.connection) d ≠
            none := by
          obtain ⟨i, hi⟩ := Option.isSome_iff_exists.1 hinstalled
          rw [Router.route?_path_eq_some_iff.2 ⟨p, hp, hoff, hi⟩]
          exact Option.some_ne_none i
        refine Router.serves_of_route?_eq_none (h.route?_eq_none hhad (fun j hj => ?_) hroute)
        by_contra hne
        exact hcalm ⟨husable, p, hp, hinstalled, hmoved, .inr ⟨hoff, j, hj, .inr hne⟩⟩
  · refine h.congr rfl fun m j => Operation.route?_edit ?_ m j d
    rintro name spec rfl
    exact hadd ⟨name, spec, rfl⟩

/-- Over a table that does what it is told, and as long as no removal fails: after a reconciliation
every route recorded for a prefix is in the table, through an interface that its group records,
unless some operation upset the service of the prefix and it was not served since. -/
theorem inTable_iff (hT : T.Faithful routes) {ops : List Operation} {visits : Nat → Visit}
    (hvisits : ∀ i, (visits i).IsComplete)
    (hreleased : ∀ a ∈ (after T policy table (ops ++ [.reconcile visits])).history, a.Releases)
    (d : Prefix) :
    (after T policy table (ops ++ [.reconcile visits])).router.InTable
        (routes (after T policy table (ops ++ [.reconcile visits])).table) d ↔
      ¬ LostSince
        (fun ops => (after T policy table ops).router.Serves
          (routes (after T policy table ops).table) d)
        (fun ops op => Upsets T (after T policy table ops) d op) (ops ++ [.reconcile visits]) := by
  rw [lostSince_iff, not_not]
  · refine ⟨fun hin => ⟨fun hm hn => ?_, hin⟩, Router.Serves.inTable⟩
    obtain ⟨n, hn'⟩ := ownedBy_after_reconcile hvisits hreleased d
    have hk : (after T policy table (ops ++ [.reconcile visits])).router.Keyed := keyed_after _
    exact (hn'.eq_of_route? hk hm).trans (hn'.eq_of_route? hk hn).symm
  · exact Router.serves_of_route?_eq_none fun m j => by cases j <;> rfl
  · intro ops op h hcalm
    exact serves_after_concat hT h hcalm

/-- Two paths of a group to one address are installed, and the second is to go. -/
def sharing : List Operation :=
  [.addPeer ⟨"alpha"⟩ (.v4 "t1" "wg-a" 1), .addPeer ⟨"alpha"⟩ (.v4 "t2" "wg-b" 1),
    .reconcile fun _ => .inOrder, .deletePeer ⟨"alpha"⟩ ⟨"t2"⟩]

/-- The run over them, with a second reconciliation. -/
def shared : Run RouteTable.Memory :=
  after RouteTable.memory .default .empty (sharing ++ [.reconcile fun _ => .inOrder])

/-- No call of the run fails. -/
theorem shared_clean : ∀ a ∈ shared.history, a.error = none := by decide +kernel

/-- The first path has a route, by the record, but the second took the entry with it. -/
theorem shared_route? :
    shared.router.route? ⟨"alpha"⟩ (.path ⟨"t1"⟩) (.host (.v4 1)) = some "wg-a" ∧
      shared.table.routes.get? (.host (.v4 1)) = none := by
  decide +kernel

theorem inTable_iff_sharing :
    (∀ a ∈ shared.history, a.Releases) ∧ LostSince
      (fun ops => (after RouteTable.memory .default .empty ops).router.Serves
        (after RouteTable.memory .default .empty ops).table.routes (.host (.v4 1)))
      (fun ops op => Upsets RouteTable.memory (after RouteTable.memory .default .empty ops)
        (.host (.v4 1)) op) (sharing ++ [.reconcile fun _ => .inOrder]) := by
  have hreleased : ∀ a ∈ (after RouteTable.memory .default .empty
      (sharing ++ [.reconcile fun _ => .inOrder])).history, a.Releases :=
    fun a ha _ _ => shared_clean a ha
  have hinTable := inTable_iff RouteTable.faithful_memory (fun _ => Visit.isComplete_inOrder)
    hreleased (.host (.v4 1))
  refine ⟨hreleased, ?_⟩
  by_contra hnot
  obtain ⟨hop, j, hget, -⟩ := hinTable.2 hnot _ _ _ shared_route?.1
  have hnone := shared_route?.2
  rw [shared, hget] at hnone
  cases hnone

/-- A route that is recorded is not in the table, though no call failed. -/
theorem sharing_loses_entry :
    (∀ a ∈ shared.history, a.error = none) ∧
      ¬ shared.router.InTable shared.table.routes (.host (.v4 1)) := by
  refine ⟨shared_clean, fun hinTable => ?_⟩
  obtain ⟨hop, j, hget, -⟩ := hinTable _ _ _ shared_route?.1
  rw [shared_route?.2] at hget
  cases hget

end Run

end RouteKeeper
