import RouteKeeper.Proofs.Calls
import RouteKeeper.Proofs.Desired
import RouteKeeper.Proofs.Runs
import RouteKeeper.Proofs.Waiting

/-!
# The limit on the loss

A group selects nothing rather than a path that reaches the limit on the loss, and then no service
of it has a route. But the limit is put to the path to select only. A service that does not list
what is selected goes through the best of its own candidates, whatever that loses. So a service goes
through a path that reaches the limit exactly if all its candidates do, and something else is
selected.

## Main definitions

* `Journal.Yields` — no call that takes away or moves a route failed.
* `Router.Uniform` — all groups select by the policy of the router.
* `Group.IsSelected` — the selection of a group was made from its paths as they are.

## Main statements

* `Router.through?_passStage` — where the services of a router go through after a pass.
* `Reachable.uniform` — reachable routers are uniform.
* `Router.lossReaches_active_iff` — services and the limit after a reconciliation.
-/
namespace RouteKeeper

variable {σ : Type}

/-! ## Services go through what was preferred -/

/-- No removal and no replacement in the journal failed. -/
structure Journal.Yields (j : Journal) : Prop where
  removes (d : Prefix) (i : String) : (d, .remove i, true) ∉ j
  replaces (d : Prefix) (hop : Hop) : (d, .replace hop, true) ∉ j

theorem Journal.Yields.of_subset {j j' : Journal} (h : j'.Yields) (hsubset : j ⊆ j') : j.Yields where
  removes d i hmem := h.removes d i (hsubset hmem)
  replaces d hop hmem := h.replaces d hop (hsubset hmem)

namespace Stage

variable {T : RouteTable σ} {managed : List String} {s s' : Stage (σ × Journal)} {n : GroupName}
  {d : Prefix}

/-- The route that a service has after its turn goes through the connection assigned to it, if no
call to take it away or to move it failed. -/
theorem Turned.through?_eq_assigned? (h : Turned T.journaled managed s (.service n d) s')
    (hk : s.router.Keyed) (hyields : s'.pass.table.2.Yields)
    (hroute : s'.router.through? n d ≠ none) :
    ∃ service, s.router.service? n d = some service ∧
      s'.router.through? n d = s.router.assigned? n d := by
  rcases h.service_cases with ⟨hnone, rfl⟩ | ⟨g, service, kept, hgroup, hservice, hturn, hkept⟩
  · simp [Router.through?, hnone] at hroute
  refine ⟨service, Router.service?_eq_some_iff.2 ⟨g, hgroup, hservice⟩, ?_⟩
  rw [Router.assigned?_of_get? hgroup hservice]
  rw [Router.through?, hkept] at hroute ⊢
  cases kept with
  | none => exact absurd rfl hroute
  | some service' =>
    obtain ⟨route, hactive⟩ : ∃ route, service'.active = some route := by
      refine Option.ne_none_iff_exists'.1 fun hidle => hroute ?_
      simp [hidle]
    have hthrough := fun c hc =>
      Group.exists_routeThrough (s := service) (c := c) (hk.paths hgroup) hc
    rcases hturn.desired_of_active hthrough hactive with ⟨-, -, hdesired⟩ |
      ⟨e, ⟨i, hcall⟩ | ⟨hop, hcall⟩, -⟩
    · simp [hactive, hdesired]
    · refine absurd ?_ (hyields.removes service.destination i)
      rw [journal_of_remove_error hcall]
      exact List.mem_cons_self
    · refine absurd ?_ (hyields.replaces service.destination hop)
      rw [journal_of_replace_error hcall]
      exact List.mem_cons_self

end Stage

namespace Router

variable {T : RouteTable σ} {r : Router}

/-- After a complete pass services go through the connections that were preferred when it began, if
no call to take away or to move a route failed. -/
theorem through?_passStage (hk : r.Keyed) {visit : Visit} (hvisit : visit.IsComplete)
    (table : σ × Journal) (ledger : Ledger)
    (hyields : (r.passStage T.journaled visit table ledger).pass.table.2.Yields)
    {n : GroupName} {d : Prefix}
    (hroute : (r.passStage T.journaled visit table ledger).router.through? n d ≠ none) :
    (r.passStage T.journaled visit table ledger).router.through? n d = r.preferred? n d := by
  have hpass := passStage_schedule hk T.journaled visit table ledger (P := fun rest s =>
    s.pass.table.2.Yields → .service n d ∈ rest ∨
      (s.router.through? n d ≠ none → s.router.through? n d = r.preferred? n d)) ?_ ?_
  · exact (hpass.2 hyields).resolve_left List.not_mem_nil hroute
  · intro _
    cases hs : r.service? n d with
    | none => exact .inr fun hthrough => absurd (by simp [through?, hs]) hthrough
    | some service => exact .inl (service_mem_turns hvisit hs)
  · intro turn rest s s' hstanding hturn h hyields'
    have hbefore := h (hyields'.of_subset (hturn.journal_subset hstanding.keyed))
    by_cases hown : turn = .service n d
    · subst hown
      refine .inr fun hthrough => ?_
      obtain ⟨service, hs, hassigned⟩ :=
        hturn.through?_eq_assigned? hstanding.keyed hyields' hthrough
      exact hassigned.trans (hstanding.assigned?_eq_of_turn hs)
    · have hsame : s'.router.through? n d = s.router.through? n d := by
        rw [through?, through?, hturn.service?_of_ne hown]
      rw [hsame]
      exact hbefore.imp_left fun hmem => (List.mem_cons.1 hmem).resolve_left (Ne.symm hown)

/-! ## One policy for all groups -/

/-- The router and all its groups have the policy. -/
structure Uniform (policy : Policy) (r : Router) : Prop where
  router : r.policy = policy
  group {n : GroupName} {g : Group} : r.groups.get? n = some g → g.selector.policy = policy

variable {policy : Policy}

theorem uniform_iff :
    r.Uniform policy ↔ r.EachSelector fun selector _ => selector.policy = policy :=
  ⟨fun h => ⟨h.router, h.group⟩, fun h => ⟨h.fresh, h.group⟩⟩

/-- A reconciliation changes no policy. -/
theorem Uniform.reconcileWith {σ : Type} (h : r.Uniform policy) (hk : r.Keyed) (T : RouteTable σ)
    (visits : Nat → Visit) (table : σ) :
    (r.reconcileWith T visits table).router.Uniform policy :=
  uniform_iff.2 <| (uniform_iff.1 h).reconcileWith
    (fun s _ paths hs => (Selector.policy_select Loss.less s paths).trans hs) hk T visits table

/-- All groups of a reachable router have its policy. -/
theorem Reachable.uniform (h : r.Reachable) : r.Uniform r.policy := by
  refine h.edit_induction (P := fun r => r.Uniform r.policy) (fun policy => ⟨rfl, nofun⟩)
    (fun r op hr => ?_) fun r T visits table hk hr => ?_
  · have hedit := uniform_iff.2 ((uniform_iff.1 hr).edit op)
    rwa [hedit.router]
  · have hreconciled := hr.reconcileWith hk T visits table
    rwa [hreconciled.router]

end Router

/-! ## What the limit is put to -/

namespace Group

/-- The selection was made from the paths as they are, with some memory and the policy of the group.
-/
def IsSelected (g : Group) : Prop :=
  ∃ selector : Selector, selector.policy = g.selector.policy ∧
    g.selection = some (selector.select Loss.less g.paths).1

variable {g : Group} {s : Service} {c : ConnectionName}

/-- If a service has something to go through, then a path below the limit is selected, and it goes
through that if it can. Otherwise it goes through a path that reaches the limit only if all do that
it could go through. -/
theorem IsSelected.lossReaches_desired (h : g.IsSelected)
    (hkeyed : ∀ c p, g.paths.get? c = some p → p.connection = c)
    (hlimit : 0 < g.selector.policy.deleteThreshold) (hdesired : g.desired s = some c) :
    ∃ chosen p, g.selection.bind Selection.connection = some chosen.connection ∧
      g.paths.get? chosen.connection = some chosen ∧ chosen.isValid = true ∧
      chosen.window.lossReaches g.selector.policy.deleteThreshold = false ∧
      (chosen.connection ∈ s.liveCandidates → c = chosen.connection) ∧ g.Offers s c p ∧
      (p.window.lossReaches g.selector.policy.deleteThreshold = true ↔ ∀ c' q, g.Offers s c' q →
        q.window.lossReaches g.selector.policy.deleteThreshold = true) := by
  obtain ⟨selector, hpolicy, hselection⟩ := h
  have hdeleted : ∀ loss, g.selection ≠ some (.deleted loss) := by
    intro loss hnone
    rw [desired_of_isDelete hnone rfl rfl] at hdesired
    cases hdesired
  cases selector.outcome Loss.less g.paths with
  | none hbest hselect => exact absurd (by rw [hselection, hselect]) (hdeleted _)
  | tornDown best hbest htorn hselect => exact absurd (by rw [hselection, hselect]) (hdeleted _)
  | selected best hbest hkept hselect =>
    rw [hselect] at hselection
    obtain ⟨hget, hvalid⟩ := Selector.isValid_choose hkeyed hbest selector
    generalize (selector.choose Loss.less g.paths best).1 = chosen at hkept hselection hget hvalid
    have hbelow : chosen.window.lossReaches g.selector.policy.deleteThreshold = false := by
      rw [Selector.TearsDown, hpolicy] at hkept
      exact Bool.eq_false_iff.2 fun hreaches => hkept ⟨hlimit, hreaches⟩
    have hconnection : g.selection.bind Selection.connection = some chosen.connection := by
      rw [hselection]
      rfl
    by_cases hlisted : chosen.connection ∈ s.liveCandidates
    · have hoffers : g.Offers s chosen.connection chosen := ⟨hlisted, hget, hvalid⟩
      rw [desired_of_selected hselection rfl hoffers] at hdesired
      obtain rfl := Option.some.inj hdesired
      refine ⟨chosen, chosen, hconnection, hget, hvalid, hbelow, fun _ => rfl, hoffers, ?_⟩
      exact ⟨fun hreaches => by simp [hbelow] at hreaches, fun hall => hall _ _ hoffers⟩
    · rw [desired_of_unlisted hselection rfl (by rintro c ⟨⟩ p hp; exact hlisted hp.1)] at hdesired
      obtain ⟨p, hp, rfl⟩ := Option.map_eq_some_iff.1 hdesired
      obtain ⟨c, hoffers⟩ := mem_paths_usable_iff.1 (Path.isValid_of_best hp).1
      rw [hkeyed c p hoffers.2.1]
      refine ⟨chosen, p, hconnection, hget, hvalid, hbelow, fun hmem => absurd hmem hlisted,
        hoffers, fun hreaches c' q hq => ?_, fun hall => hall c p hoffers⟩
      exact Loss.reaches_of_less_eq_false (best_usable_least hp hq) p.window.capacity_pos hreaches

end Group

namespace Router

variable {T : RouteTable σ} {r : Router}

/-- After a reconciliation the groups have selected, and services go through what they should go
through, if no call to take away or to move a route failed. -/
theorem desired_active (hk : r.Keyed) {visits : Nat → Visit} (hvisits : ∀ i, (visits i).IsComplete)
    {table : σ × Journal} (hyields : (r.reconcileWith T.journaled visits table).table.2.Yields)
    {n : GroupName} {d : Prefix} {g : Group} {service : Service} {route : ActiveRoute}
    (hgroup : (r.reconcileWith T.journaled visits table).router.groups.get? n = some g)
    (hservice : g.services.get? d = some service) (hactive : service.active = some route) :
    g.IsSelected ∧ g.desired service = some route.connection := by
  obtain ⟨q, hkeyed, -, hrouter, htable, -⟩ := Reconciled.exists_final hk T.journaled visits table
    (P := fun _ => True) trivial fun _ _ _ => trivial
  rw [hrouter, get?_groups_pruned_eq_some_iff] at hgroup
  rw [htable] at hyields
  have hstanding : Stage.Standing q.router [] (q.turned T.journaled visits) :=
    standing_passStage hkeyed _ _ _ _
  have hs := service?_eq_some_iff.2 ⟨g, hgroup.1, hservice⟩
  have hthrough : (q.turned T.journaled visits).router.through? n d = some route.connection := by
    rw [through?_of_service? hs, hactive, Option.map_some]
  have hassigned := hstanding.assigned?_eq List.not_mem_nil hs
  rw [assigned?_of_get? hgroup.1 hservice] at hassigned
  have hpresent : (q.turned T.journaled visits).router.through? n d ≠ none := by simp [hthrough]
  have hpreferred := through?_passStage hkeyed (hvisits q.passes) q.table q.ledger hyields hpresent
  obtain ⟨g₀, -, hfollows, -, hafter⟩ := hstanding.group hgroup.1
  obtain ⟨hselection, hselector⟩ := hafter List.not_mem_nil
  refine ⟨⟨g₀.selector, ?_, ?_⟩, hassigned.trans (hpreferred.symm.trans hthrough)⟩
  · rw [hselector]
    exact (Selector.policy_select ..).symm
  · rw [hselection, Group.selection_reselect, ← Selector.select_candidates, ← hfollows.candidates,
      Selector.select_candidates]

/-- The first path answers, the second lost its round, and only the second is listed for a service.
-/
def straggler : Router :=
  let r := (new { Policy.default with windowSize := 1, deleteThreshold := 50 }).addPeer ⟨"alpha"⟩
    (.v4 "t1" "wg-a" 1)
  let r := (r.addPeer ⟨"alpha"⟩ (.v4 "t2" "wg-b" 2)).addService ⟨"alpha"⟩ (.single (.v4 9)) ⟨"t2"⟩
  r.recordRound (.ofList [(.v4 1, some (.millis 40)), (.v4 2, none)])

theorem straggler_reachable : straggler.Reachable :=
  ((((Reachable.new _).addPeer _ _).addPeer _ _).addService _ _ _).recordRound _

/-- What a reconciliation makes of it. -/
def straggled : Reconciled (RouteTable.Memory × Journal) :=
  straggler.reconcileWith RouteTable.memory.journaled (fun _ => .inOrder) (.empty, [])

theorem straggled_calls : ∀ call ∈ straggled.table.2, call.2.2 = false := by
  decide +kernel

/-- The service goes through the path that lost its round. -/
theorem exists_straggled : ∃ service route p,
    straggled.router.service? ⟨"alpha"⟩ (.single (.v4 9)) = some service ∧
      service.active = some route ∧ straggled.router.path? ⟨"alpha"⟩ route.connection = some p ∧
      p.window.lossReaches 50 = true := by
  have hroute : (straggled.router.service? ⟨"alpha"⟩ (.single (.v4 9))).bind Service.active =
      some ⟨⟨"t2"⟩, ⟨"wg-b", some (.v4 2)⟩⟩ := by decide +kernel
  have hlost : (straggled.router.path? ⟨"alpha"⟩ ⟨"t2"⟩).map (fun p => p.window.lossReaches 50) =
      some true := by decide +kernel
  obtain ⟨service, hservice, hactive⟩ := Option.bind_eq_some_iff.1 hroute
  obtain ⟨p, hp, hreaches⟩ := Option.map_eq_some_iff.1 hlost
  exact ⟨service, _, p, hservice, hactive, hp, hreaches⟩

/-- A service goes through a path that reaches the limit, though no call failed. -/
theorem straggler_served :
    straggler.Reachable ∧ 0 < straggler.policy.deleteThreshold ∧
      (∀ call ∈ straggled.table.2, call.2.2 = false) ∧
      ∃ service route p,
        straggled.router.service? ⟨"alpha"⟩ (.single (.v4 9)) = some service ∧
        service.active = some route ∧
        straggled.router.path? ⟨"alpha"⟩ route.connection = some p ∧
        p.window.lossReaches straggler.policy.deleteThreshold = true :=
  ⟨straggler_reachable, by decide, straggled_calls, exists_straggled⟩

/-- After a reconciliation of a reachable router with a limit on the loss, over any table, where no
removal and no replacement failed. If a service has a route, its group has selected a path below the
limit, and the route goes through that if it is a candidate to stay. In any case it goes through a
candidate with a path that may be selected, and that path reaches the limit exactly if the paths of
all such candidates do. -/
theorem lossReaches_active_iff (hr : r.Reachable) (hlimit : 0 < r.policy.deleteThreshold)
    (T : RouteTable σ) {visits : Nat → Visit} (hvisits : ∀ i, (visits i).IsComplete) (table : σ)
    (hyields : (r.reconcileWith T.journaled visits (table, [])).table.2.Yields)
    {n : GroupName} {d : Prefix} {g : Group} {service : Service} {route : ActiveRoute}
    (hgroup : (r.reconcileWith T.journaled visits (table, [])).router.groups.get? n = some g)
    (hservice : g.services.get? d = some service) (hactive : service.active = some route) :
    ∃ chosen p, g.selection.bind Selection.connection = some chosen.connection ∧
      g.paths.get? chosen.connection = some chosen ∧ chosen.isValid = true ∧
      chosen.window.lossReaches r.policy.deleteThreshold = false ∧
      (chosen.connection ∈ service.liveCandidates → route.connection = chosen.connection) ∧
      g.Offers service route.connection p ∧
      (p.window.lossReaches r.policy.deleteThreshold = true ↔ ∀ c q, g.Offers service c q →
        q.window.lossReaches r.policy.deleteThreshold = true) := by
  obtain ⟨hselected, hdesired⟩ := desired_active hr.keyed hvisits hyields hgroup hservice hactive
  have hreconciled := hr.reconcile T.journaled visits (table, [])
  have hpolicy : g.selector.policy = r.policy :=
    (hr.uniform.reconcileWith hr.keyed T.journaled visits (table, [])).group hgroup
  rw [← hpolicy] at hlimit ⊢
  exact hselected.lossReaches_desired (hreconciled.keyed.paths hgroup) hlimit hdesired

/-- The first path is selected and the service does not list it. -/
theorem lossReaches_active_iff_straggler :
    straggled.table.2.Yields ∧ ∃ g service route chosen p,
      straggled.router.groups.get? ⟨"alpha"⟩ = some g ∧
      g.services.get? (.single (.v4 9)) = some service ∧ service.active = some route ∧
      g.paths.get? chosen.connection = some chosen ∧
      chosen.window.lossReaches 50 = false ∧ chosen.connection ∉ service.liveCandidates ∧
      g.Offers service route.connection p ∧ p.window.lossReaches 50 = true := by
  obtain ⟨service, route, p, hs, hactive, hp, hreaches⟩ := exists_straggled
  have hyields : straggled.table.2.Yields :=
    ⟨fun d i hmem => by simpa using straggled_calls _ hmem,
      fun d hop hmem => by simpa using straggled_calls _ hmem⟩
  obtain ⟨g, hgroup, hservice⟩ := service?_eq_some_iff.1 hs
  obtain ⟨chosen, p', -, hget, -, hbelow, hlisted, hoffers, hall⟩ := lossReaches_active_iff
    straggler_reachable (by decide) RouteTable.memory (fun _ => Visit.isComplete_inOrder) .empty
    hyields hgroup hservice hactive
  have hsame : p' = p := by
    rw [path?_of_get? hgroup] at hp
    exact Option.some.inj (hoffers.2.1.symm.trans hp)
  subst hsame
  refine ⟨hyields, g, service, route, chosen, p', hgroup, hservice, hactive, hget, hbelow,
    fun hmem => ?_, hoffers, hreaches⟩
  have hchosen := hoffers.2.1
  rw [hlisted hmem, hget] at hchosen
  cases hchosen
  exact absurd (hbelow.symm.trans hreaches) (by decide)

end Router

end RouteKeeper
