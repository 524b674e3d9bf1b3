import RouteKeeper.Proofs.Choices
import RouteKeeper.Proofs.Routes

/-!
# The schedule of a pass

The turns of a pass follow the order of the groups; within a group all paths come before the
selection, and all services after it. So the selection that a service goes by is known from the
start: turns of paths do not touch the candidates.

## Main definitions

* `Turn.Before` — the order of turns.
* `Router.Wanted` — a claim is to have a route once its group has selected anew.
* `Stage.Standing` — what is known of a router in the middle of a pass.

## Main statements

* `passStage_schedule` — an induction on passes that knows the schedule.
* `Stage.Standing.due_iff` — a claim is due at its turn if it was wanted at the start.
-/
namespace RouteKeeper

variable {σ : Type}

/-! ## The order of turns -/

namespace Turn

/-- The group that a turn belongs to. -/
def group : Turn → GroupName
  | path n _ | select n | service n _ => n

/-- A turn may come before another one: the groups are in order, and in one group paths come before
the selection and services after it. -/
def Before (a b : Turn) : Prop :=
  KeyOrder.before a.group b.group = true ∨ a.group = b.group ∧
    match a, b with
    | path _ _, _ | select _, service _ _ | service _ _, service _ _ => True
    | _, _ => False

@[simp] theorem group_turn (k : Claimant) (n : GroupName) (d : Prefix) :
    (k.turn n d).group = n := by
  cases k <;> rfl

theorem Before.group {a b : Turn} (h : a.Before b) :
    a.group = b.group ∨ KeyOrder.before a.group b.group = true := by
  rcases h with h | ⟨h, -⟩
  · exact .inr h
  · exact .inl h

theorem not_before_select {n : GroupName} {d : Prefix} : ¬ (service n d).Before (select n) := by
  rintro (h | ⟨-, h⟩)
  · have hirrefl := KeyOrder.irrefl n
    rw [show KeyOrder.before n n = true from h] at hirrefl
    cases hirrefl
  · exact h

theorem not_select_before_select {n : GroupName} : ¬ (select n).Before (select n) := by
  rintro (h | ⟨-, h⟩)
  · have hirrefl := KeyOrder.irrefl n
    rw [show KeyOrder.before n n = true from h] at hirrefl
    cases hirrefl
  · exact h

end Turn

theorem Group.mem_turns_iff {visit : Visit} {n : GroupName} {g : Group} {turn : Turn} :
    turn ∈ g.turns visit n ↔ (∃ c ∈ g.paths.keys, turn = .path n c) ∨ turn = .select n ∨
      ∃ d ∈ visit g.name g.services.keys, turn = .service n d := by
  simp only [turns, List.mem_append, List.mem_map, List.mem_cons]
  grind

theorem Group.pairwise_turns (visit : Visit) (n : GroupName) (g : Group) :
    (g.turns visit n).Pairwise Turn.Before := by
  rw [turns, List.pairwise_append, List.pairwise_cons]
  refine ⟨?_, ⟨?_, ?_⟩, ?_⟩
  · rw [List.pairwise_map]
    exact List.pairwise_of_forall fun _ _ => .inr ⟨rfl, trivial⟩
  · intro b hb
    obtain ⟨d, -, rfl⟩ := List.mem_map.1 hb
    exact .inr ⟨rfl, trivial⟩
  · rw [List.pairwise_map]
    exact List.pairwise_of_forall fun _ _ => .inr ⟨rfl, trivial⟩
  · intro a ha b hb
    obtain ⟨c, -, rfl⟩ := List.mem_map.1 ha
    rcases List.mem_cons.1 hb with rfl | hb
    · exact .inr ⟨rfl, trivial⟩
    · obtain ⟨d, -, rfl⟩ := List.mem_map.1 hb
      exact .inr ⟨rfl, trivial⟩

/-- The services of a group are each visited once. -/
def Visit.IsComplete (visit : Visit) : Prop := ∀ n ds, (visit n ds).Perm ds

theorem Visit.isComplete_inOrder : Visit.inOrder.IsComplete := fun _ ds => List.Perm.refl ds

namespace Router

variable {r : Router}

theorem mem_turns_iff {visit : Visit} {turn : Turn} :
    turn ∈ r.turns visit ↔
      ∃ g, r.groups.get? turn.group = some g ∧ turn ∈ g.turns visit turn.group := by
  have hgroup : ∀ n g, turn ∈ Group.turns visit n g → turn.group = n := by
    intro n g h
    rcases Group.mem_turns_iff.1 h with ⟨c, -, rfl⟩ | rfl | ⟨d, -, rfl⟩ <;> rfl
  simp only [turns, List.mem_flatMap, Prod.exists]
  constructor
  · rintro ⟨n, g, hmem, hturn⟩
    rw [hgroup n g hturn]
    exact ⟨g, OrderedMap.get?_eq_some_iff.2 hmem, hturn⟩
  · rintro ⟨g, hget, hturn⟩
    exact ⟨_, g, OrderedMap.get?_eq_some_iff.1 hget, hturn⟩

/-- The turns of a pass are in order. -/
theorem pairwise_turns (visit : Visit) (r : Router) : (r.turns visit).Pairwise Turn.Before := by
  rw [turns, List.pairwise_flatMap]
  refine ⟨fun e _ => Group.pairwise_turns visit e.1 e.2, ?_⟩
  refine (List.pairwise_map.1 r.groups.sorted).imp ?_
  intro a b hab x hx y hy
  have hgroup : ∀ {n g turn}, turn ∈ Group.turns visit n g → turn.group = n := by
    intro n g turn h
    rcases Group.mem_turns_iff.1 h with ⟨c, -, rfl⟩ | rfl | ⟨d, -, rfl⟩ <;> rfl
  refine .inl ?_
  rw [hgroup hx, hgroup hy]
  exact hab

/-- In a pass every group selects. -/
theorem select_mem_turns {visit : Visit} {n : GroupName} {g : Group}
    (h : r.groups.get? n = some g) : .select n ∈ r.turns visit :=
  mem_turns_iff.2 ⟨g, h, Group.mem_turns_iff.2 (.inr (.inl rfl))⟩

theorem path_mem_turns {visit : Visit} {n : GroupName} {c : ConnectionName} {p : Path}
    (h : r.path? n c = some p) : .path n c ∈ r.turns visit := by
  obtain ⟨g, hgroup, hpath⟩ := path?_eq_some_iff.1 h
  exact mem_turns_iff.2 ⟨g, hgroup,
    Group.mem_turns_iff.2 (.inl ⟨c, OrderedMap.mem_keys_iff.2 ⟨p, hpath⟩, rfl⟩)⟩

theorem service_mem_turns {visit : Visit} (hvisit : visit.IsComplete) {n : GroupName} {d : Prefix}
    {s : Service} (h : r.service? n d = some s) : .service n d ∈ r.turns visit := by
  obtain ⟨g, hgroup, hservice⟩ := service?_eq_some_iff.1 h
  refine mem_turns_iff.2 ⟨g, hgroup, Group.mem_turns_iff.2 (.inr (.inr ⟨d, ?_, rfl⟩))⟩
  exact (hvisit _ _).mem_iff.2 (OrderedMap.mem_keys_iff.2 ⟨s, hservice⟩)

/-- In a complete pass every claim has its turn. -/
theorem claimant_mem_turns {visit : Visit} (hvisit : visit.IsComplete) {n : GroupName}
    {k : Claimant} {d : Prefix} {c : Claim} (h : r.claim? n k d = some c) :
    k.turn n d ∈ r.turns visit := by
  cases k with
  | path connection =>
    obtain ⟨p, hp, -⟩ := claim?_path_eq_some_iff.1 h
    exact path_mem_turns hp
  | service =>
    obtain ⟨s, hs, -⟩ := claim?_service_eq_some_iff.1 h
    exact service_mem_turns hvisit hs

/-! ## Claims that are wanted -/

/-- The connection that a new selection of a group would assign to a service. -/
def preferred? (r : Router) (n : GroupName) (d : Prefix) : Option ConnectionName :=
  (r.groups.get? n).bind fun g => (g.services.get? d).bind g.reselect.desired

/-- A claim is to have a route once its group has selected anew: it is enabled, and a service will
be assigned a connection. -/
def Wanted (r : Router) (n : GroupName) (k : Claimant) (d : Prefix) : Prop :=
  (∃ c, r.claim? n k d = some c ∧ c.disabled = false) ∧ (k = .service → r.preferred? n d ≠ none)

theorem preferred?_of_get? {n : GroupName} {g : Group} {d : Prefix} {s : Service}
    (hgroup : r.groups.get? n = some g) (hservice : g.services.get? d = some s) :
    r.preferred? n d = g.reselect.desired s := by
  simp [preferred?, hgroup, hservice]

theorem preferred?_eq_some_iff {n : GroupName} {d : Prefix} {c : ConnectionName} :
    r.preferred? n d = some c ↔ ∃ g s, r.groups.get? n = some g ∧ g.services.get? d = some s ∧
      g.reselect.desired s = some c := by
  simp only [preferred?, Option.bind_eq_some_iff]
  constructor
  · rintro ⟨g, hgroup, s, hservice, hdesired⟩
    exact ⟨g, s, hgroup, hservice, hdesired⟩
  · rintro ⟨g, s, hgroup, hservice, hdesired⟩
    exact ⟨g, hgroup, s, hservice, hdesired⟩

/-- A path waits for its route, or a service has none. -/
def Unplaced (r : Router) (n : GroupName) (k : Claimant) (d : Prefix) : Prop :=
  match k with
  | .path c => ∃ p, r.path? n c = some p ∧ (p.flags.pendingAdd = true ∨ p.isInstalled = false)
  | .service => ∃ s, r.service? n d = some s ∧ s.active = none

theorem unplaced_of_route?_eq_none {n : GroupName} {k : Claimant} {d : Prefix} {c : Claim}
    (hclaim : r.claim? n k d = some c) (hnone : r.route? n k d = none) : r.Unplaced n k d := by
  cases k with
  | path connection =>
    obtain ⟨p, hp, -, hd, -⟩ := claim?_path_eq_some_iff.1 hclaim
    refine ⟨p, hp, .inr ?_⟩
    simpa [route?, hp, Option.filter_some, hd, Path.isInstalled] using hnone
  | service =>
    obtain ⟨s, hs, -⟩ := claim?_service_eq_some_iff.1 hclaim
    exact ⟨s, hs, by simpa [route?, hs] using hnone⟩

end Router

/-! ## In the middle of a pass -/

/-- A group as it goes through its turns: its candidates, and what is asked for its services,
stay. -/
structure Group.Follows (g₀ g : Group) : Prop where
  candidates : g.paths.candidates = g₀.paths.candidates
  service {d : Prefix} {s : Service} : g.services.get? d = some s →
    ∃ s₀, g₀.services.get? d = some s₀ ∧ s.bare = s₀.bare

/-- A turn of a path leaves the candidates. -/
theorem PathTurn.candidates_eq {T : RouteTable σ} {managed : List String} {group : GroupName}
    {pass pass' : Pass σ} {path : Path} {kept : Option Path}
    (h : PathTurn T managed group pass path kept pass') {paths : Paths}
    {connection : ConnectionName} (hpath : paths.get? connection = some path) :
    Paths.candidates (paths.put connection kept) = paths.candidates := by
  refine OrderedMap.get?_ext fun c => ?_
  rw [Paths.get?_candidates, Paths.get?_candidates, OrderedMap.get?_put]
  by_cases hc : c = connection
  · subst hc
    rw [if_pos rfl, hpath]
    cases kept with
    | none =>
      have hdelete := h.pendingDelete_of_none
      simp [Option.filter_some, Path.isValid, hdelete]
    | some path' =>
      have hvalid : path'.isValid = path.isValid := by
        simpa using congrArg Path.isValid h.bare_eq
      rw [Option.filter_some, Option.filter_some, hvalid]
      split
      · simp [h.bare_eq]
      · rfl
  · rw [if_neg hc]

namespace Stage

/-- What is known of a router in the middle of a pass that began with the router `r`. -/
structure Standing (r : Router) (rest : List Turn) (s : Stage σ) : Prop where
  keyed : s.router.Keyed
  ordered : rest.Pairwise Turn.Before
  claims : r.SameClaims s.router
  group {n : GroupName} {g : Group} : s.router.groups.get? n = some g →
    ∃ g₀, r.groups.get? n = some g₀ ∧ g₀.Follows g ∧
      (.select n ∈ rest → g.selector = g₀.selector) ∧
      (.select n ∉ rest → g.selection = g₀.reselect.selection ∧ g.selector = g₀.reselect.selector)

variable {T : RouteTable σ} {managed : List String} {r : Router} {turn : Turn} {rest : List Turn}
  {s s' : Stage σ}

theorem standing_start (hk : r.Keyed) (visit : Visit) (pass : Pass σ) :
    Standing r (r.turns visit) ⟨r, pass⟩ where
  keyed := hk
  ordered := r.pairwise_turns visit
  claims _ _ _ := rfl
  group {_ g} hgroup :=
    ⟨g, hgroup, ⟨rfl, fun h => ⟨_, h, rfl⟩⟩, fun _ => rfl,
      fun h => absurd (Router.select_mem_turns hgroup) h⟩

/-- A turn leaves standing what is known. -/
theorem Standing.turned (h : Standing r (turn :: rest) s) (hturn : Turned T managed s turn s') :
    Standing r rest s' := by
  refine ⟨hturn.keyed h.keyed, h.ordered.of_cons, ?_, ?_⟩
  · intro n k d
    exact (hturn.claim?_bare n k d).trans (h.claims n k d)
  have hrest : ∀ {n g}, s.router.groups.get? n = some g → turn ≠ .select n →
      ∃ g₀, r.groups.get? n = some g₀ ∧ g₀.Follows g ∧
        (.select n ∈ rest → g.selector = g₀.selector) ∧ (.select n ∉ rest →
          g.selection = g₀.reselect.selection ∧ g.selector = g₀.reselect.selector) := by
    intro n g hgroup hne
    obtain ⟨g₀, hgroup₀, hfollows, hbefore, hafter⟩ := h.group hgroup
    refine ⟨g₀, hgroup₀, hfollows, fun hmem => hbefore (List.mem_cons_of_mem _ hmem), ?_⟩
    intro hmem
    refine hafter fun hmem' => ?_
    rcases List.mem_cons.1 hmem' with heq | hmem'
    · exact hne heq.symm
    · exact hmem hmem'
  intro n g' hgroup'
  cases hturn with
  | noPath | noService => exact hrest hgroup' (by simp)
  | @noGroup name hnone =>
    refine hrest hgroup' ?_
    rintro ⟨⟩
    rw [hnone] at hgroup'
    cases hgroup'
  | @path name g connection path kept pass hgroup hpath hturn =>
    rw [Router.get?_groups_putGroup] at hgroup'
    split at hgroup'
    case isFalse => exact hrest hgroup' (by simp)
    case isTrue hn =>
      cases hgroup'
      subst hn
      obtain ⟨g₀, hgroup₀, hfollows, hselect⟩ := hrest hgroup (by simp)
      refine ⟨g₀, hgroup₀, ⟨?_, hfollows.service⟩, hselect⟩
      exact (hturn.candidates_eq hpath).trans hfollows.candidates
  | @service name g destination service kept pass hgroup hservice hturn =>
    rw [Router.get?_groups_putGroup] at hgroup'
    split at hgroup'
    case isFalse => exact hrest hgroup' (by simp)
    case isTrue hn =>
      cases hgroup'
      subst hn
      obtain ⟨g₀, hgroup₀, hfollows, hselect⟩ := hrest hgroup (by simp)
      refine ⟨g₀, hgroup₀, ⟨hfollows.candidates, ?_⟩, hselect⟩
      intro d s' hs'
      rw [OrderedMap.get?_put] at hs'
      split at hs'
      case isTrue hd =>
        subst hd
        obtain ⟨s₀, hs₀, hbare⟩ := hfollows.service hservice
        exact ⟨s₀, hs₀, (hturn.bare_eq s' hs').trans hbare⟩
      case isFalse => exact hfollows.service hs'
  | @select name g hgroup =>
    rw [Router.get?_groups_putGroup] at hgroup'
    split at hgroup'
    case isFalse hn =>
      refine hrest hgroup' ?_
      rintro ⟨⟩
      exact hn rfl
    case isTrue hn =>
      cases hgroup'
      subst hn
      obtain ⟨g₀, hgroup₀, hfollows, hbefore, -⟩ := h.group hgroup
      have honce : .select n ∉ rest := fun hmem =>
        Turn.not_select_before_select ((List.pairwise_cons.1 h.ordered).1 _ hmem)
      have hselect : g.selector.select Loss.less g.paths =
          g₀.selector.select Loss.less g₀.paths := by
        rw [← Selector.select_candidates, hfollows.candidates, Selector.select_candidates,
          hbefore List.mem_cons_self]
      refine ⟨g₀, hgroup₀, ⟨hfollows.candidates, hfollows.service⟩, fun h => absurd h honce, ?_⟩
      intro _
      simp only [Group.reselect, hselect, and_self]

/-- Once a group has selected, its services are assigned what a selection at the start would
have. -/
theorem Standing.assigned?_eq {n : GroupName} {d : Prefix} (h : Standing r rest s)
    (hselected : .select n ∉ rest) {service : Service}
    (hs : s.router.service? n d = some service) :
    s.router.assigned? n d = r.preferred? n d := by
  obtain ⟨g, hgroup, hservice⟩ := Router.service?_eq_some_iff.1 hs
  obtain ⟨g₀, hgroup₀, hfollows, -, hafter⟩ := h.group hgroup
  obtain ⟨service₀, hservice₀, hbare⟩ := hfollows.service hservice
  have hlive := congrArg Service.liveCandidates hbare
  simp only [Service.liveCandidates_bare] at hlive
  have hselection := (hafter hselected).1
  rw [Router.assigned?_of_get? hgroup hservice, Router.preferred?_of_get? hgroup₀ hservice₀]
  exact Group.desired_congr hfollows.candidates (by rw [hselection]) (by rw [hselection]) hlive

/-- At its turn, a service is assigned what a selection at the start would have. -/
theorem Standing.assigned?_eq_of_turn {n : GroupName} {d : Prefix}
    (h : Standing r (.service n d :: rest) s) {service : Service}
    (hs : s.router.service? n d = some service) : s.router.assigned? n d = r.preferred? n d := by
  refine h.assigned?_eq ?_ hs
  intro hmem
  rcases List.mem_cons.1 hmem with heq | hmem
  · cases heq
  · exact Turn.not_before_select ((List.pairwise_cons.1 h.ordered).1 _ hmem)

/-- At its turn, a claim is due if it was wanted at the start. -/
theorem Standing.due_iff {n : GroupName} {k : Claimant} {d : Prefix}
    (h : Standing r (k.turn n d :: rest) s) : s.router.Due n k d ↔ r.Wanted n k d := by
  rw [Router.Due, Router.Wanted, h.claims.enabled_iff]
  refine and_congr_right fun henabled => ?_
  cases k with
  | path c => simp
  | service =>
    obtain ⟨c, hc, -⟩ := h.claims.enabled_iff.2 henabled
    obtain ⟨service, hs, -⟩ := Router.claim?_service_eq_some_iff.1 hc
    rw [h.assigned?_eq_of_turn hs]

/-- At the turn of a claim that is due and not in place, it is tried, unless another group has the
prefix. -/
theorem Turned.tries {n : GroupName} {k : Claimant} {d : Prefix}
    (h : Turned T managed s (k.turn n d) s') (hk : s.router.Keyed) (hdue : s.router.Due n k d)
    (hwaits : s.router.Unplaced n k d) (hfree : s.pass.isBlocked d n = false) :
    ∃ hop error, s'.pass.ledger.attempts =
      ⟨n, k, d, .install hop, error⟩ :: s.pass.ledger.attempts := by
  cases k with
  | path c =>
    obtain ⟨p, kept, hp, rfl, rfl, hlive, henabled, hturn, -⟩ := h.exists_path_of_due hk hdue
    obtain ⟨p', hp', hwaits⟩ := hwaits
    rw [hp] at hp'
    cases hp'
    exact ⟨_, hturn.tries hlive henabled hwaits hfree⟩
  | service =>
    obtain ⟨g, service, kept, target, hgroup, rfl, hs, rfl, hcleared, henabled, htarget, hturn,
      -⟩ := h.exists_service_of_due hk hdue
    obtain ⟨service', hs', hidle⟩ := hwaits
    rw [hs] at hs'
    cases hs'
    have hplan : service.plan (g.desired service) = .install target :=
      Service.plan_eq_install_iff.2 ⟨hidle, hcleared, henabled, htarget⟩
    obtain ⟨route, hroute⟩ := Group.exists_routeThrough (hk.paths hgroup) htarget
    exact ⟨_, hturn.tries hplan hroute hfree⟩

end Stage

/-- What every turn keeps, a pass keeps; the invariant may speak of the turns still to come, and a
turn may count on what is known in the middle of a pass. -/
theorem passStage_schedule {r : Router} (hk : r.Keyed) (T : RouteTable σ) (visit : Visit)
    (table : σ) (ledger : Ledger) {P : List Turn → Stage σ → Prop}
    (hstart : P (r.turns visit) ⟨r, ⟨table, r.owners, ledger⟩⟩)
    (hstep : ∀ turn rest s s', Stage.Standing r (turn :: rest) s →
      Stage.Turned T r.managedInterfaces s turn s' → P (turn :: rest) s → P rest s') :
    Stage.Standing r [] (r.passStage T visit table ledger) ∧
      P [] (r.passStage T visit table ledger) := by
  refine passStage_induction (P := fun rest s => Stage.Standing r rest s ∧ P rest s)
    ⟨Stage.standing_start hk visit _, hstart⟩ ?_
  rintro turn rest s s' ⟨hstanding, h⟩ hturn
  exact ⟨hstanding.turned hturn, hstep turn rest s s' hstanding hturn h⟩

/-- What is known at the end of a pass. -/
theorem standing_passStage {r : Router} (hk : r.Keyed) (T : RouteTable σ) (visit : Visit)
    (table : σ) (ledger : Ledger) : Stage.Standing r [] (r.passStage T visit table ledger) := by
  have h := passStage_schedule hk T visit table ledger (P := fun _ _ => True) trivial
    fun _ _ _ _ _ _ _ => trivial
  exact h.1

end RouteKeeper
