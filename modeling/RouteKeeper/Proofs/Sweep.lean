import RouteKeeper.Proofs.Convergence
import RouteKeeper.Proofs.Schedule

/-!
# What a pass without failures leaves

A turn makes an attempt for one of three reasons: a route is there that should not be, one is
missing, or one goes through the wrong connection. So after a pass in which nothing failed every
recorded route is of a claim that is to have one, and that of a service goes through the connection
that its group prefers. A resolution without failures keeps all of this but the preference.

## Main definitions

* `Router.through?` — the connection that the route of a service goes through.
* `Stage.Cause` — the reason for an attempt.
* `Router.Swept` — no route is recorded that should not be.

## Main statements

* `Stage.Turned.cause` — every attempt has its reason.
* `fits_passStage`, `swept_passStage` — what a complete pass without failures leaves.
* `swept_resolve` — a resolution without failures leaves it swept.
-/
namespace RouteKeeper

variable {σ : Type}

namespace Router

variable {r : Router} {n : GroupName} {d : Prefix}

/-- The connection that the route of a service goes through. -/
def through? (r : Router) (n : GroupName) (d : Prefix) : Option ConnectionName :=
  (r.service? n d).bind fun s => s.active.map ActiveRoute.connection

theorem through?_of_service? {s : Service} (h : r.service? n d = some s) :
    r.through? n d = s.active.map ActiveRoute.connection := by
  simp [through?, h]

theorem through?_eq_none_iff : r.through? n d = none ↔ r.route? n .service d = none := by
  rw [through?, route?]
  cases r.service? n d with
  | none => simp
  | some s => cases h : s.active <;> simp [h]

end Router

namespace Stage

/-! ## Reasons for attempts -/

/-- Why a turn makes an attempt for a claimant. -/
inductive Cause (s : Stage σ) (n : GroupName) (k : Claimant) (d : Prefix) : Action → Prop
  /-- There is a route that is not due: of a path only if it is to be removed. -/
  | surplus {i : String} (hhad : s.router.route? n k d = some i) (hcause : ¬ s.router.Due n k d)
    (hpath : k ≠ .service → s.router.claim? n k d = none) : Cause s n k d (.remove i)
  /-- A route is due, and no other group has the prefix. -/
  | missing {hop : Hop} (hdue : s.router.Due n k d) (hwaits : s.router.Unplaced n k d)
    (hfree : s.pass.isBlocked d n = false) : Cause s n k d (.install hop)
  /-- A route is due and there is one, through the wrong connection. -/
  | misplaced {hop : Hop} (hservice : k = .service) (hdue : s.router.Due n k d)
    (hhad : s.router.through? n d ≠ none)
    (hwrong : s.router.through? n d ≠ s.router.assigned? n d) :
    Cause s n k d (.install hop)

variable {T : RouteTable σ} {managed : List String} {s s' : Stage σ} {turn : Turn}

theorem Turned.cause_path {n : GroupName} {c : ConnectionName}
    (h : Turned T managed s (.path n c) s') (hk : s.router.Keyed) :
    s'.pass.ledger.attempts = s.pass.ledger.attempts ∨ ∃ d action error,
      s'.pass.ledger.attempts = ⟨n, .path c, d, action, error⟩ :: s.pass.ledger.attempts ∧
        Cause s n (.path c) d action := by
  rcases h.path_cases hk with ⟨-, rfl⟩ | ⟨p, kept, hp, hturn, -⟩
  · exact .inl rfl
  have hconnection := hk.connection hp
  subst hconnection
  have hsurplus : ∀ {i}, p.flags.pendingDelete = true → p.installed = some i →
      Cause s n (.path p.connection) p.destination (.remove i) := by
    intro i hdelete hinstalled
    refine .surplus ?_ ?_ fun _ => ?_
    · exact Router.route?_path_eq_some_iff.2 ⟨p, hp, rfl, hinstalled⟩
    · simp [Router.due_path_iff hp, hdelete]
    · simp [Router.claim?, hp, Option.filter_some, hdelete]
  have hmissing : ∀ {hop}, p.flags.pendingDelete = false → p.flags.disabled = false →
      (p.flags.pendingAdd = true ∨ p.isInstalled = false) →
      s.pass.isBlocked p.destination n = false →
        Cause s n (.path p.connection) p.destination (.install hop) :=
    fun hdelete henabled hwaits hfree =>
      .missing ((Router.due_path_iff hp).2 ⟨hdelete, henabled⟩) ⟨p, hp, hwaits⟩ hfree
  generalize s'.pass = pass' at hturn ⊢
  cases hturn with
  | drop | idle => exact .inl rfl
  | @remove i _ hdelete hinstalled =>
    exact .inr ⟨_, .remove i, none, by simp, hsurplus hdelete hinstalled⟩
  | removeFailed hdelete hinstalled =>
    exact .inr ⟨_, _, _, Pass.attempts_tried_error .., hsurplus hdelete hinstalled⟩
  | @install _ table hdelete henabled hwaits hfree =>
    exact .inr ⟨_, _, _, Pass.attempts_tried_ok _ table .., hmissing hdelete henabled hwaits hfree⟩
  | installFailed hdelete henabled hwaits hfree =>
    exact .inr ⟨_, _, _, Pass.attempts_tried_error .., hmissing hdelete henabled hwaits hfree⟩

theorem Turned.cause_service {n : GroupName} {d : Prefix}
    (h : Turned T managed s (.service n d) s') (hk : s.router.Keyed) :
    s'.pass.ledger.attempts = s.pass.ledger.attempts ∨ ∃ action error,
      s'.pass.ledger.attempts = ⟨n, .service, d, action, error⟩ :: s.pass.ledger.attempts ∧
        Cause s n .service d action := by
  rcases h.service_cases with ⟨-, rfl⟩ | ⟨g, service, kept, hgroup, hservice, hturn, -⟩
  · exact .inl rfl
  have hs : s.router.service? n d = some service :=
    Router.service?_eq_some_iff.2 ⟨g, hgroup, hservice⟩
  have hdue := Router.due_service_iff hgroup hservice
  have hassigned := Router.assigned?_of_get? hgroup hservice
  have hthrough := Router.through?_of_service? hs
  have hname := hk.name hgroup
  have hdestination := hk.destination hs
  subst hname hdestination
  have hsurplus : ∀ {route}, service.plan (g.desired service) = .clear route →
      Cause s g.name .service service.destination (.remove route.hop.interface) := by
    intro route hplan
    obtain ⟨hactive, hcause⟩ := Service.plan_eq_clear_iff.1 hplan
    refine .surplus ?_ ?_ (absurd rfl)
    · exact Router.route?_service_eq_some_iff.2 ⟨service, route, hs, hactive, rfl⟩
    · exact (Router.not_due_service_iff hgroup hservice).2 hcause
  have hmissing : ∀ {target hop}, service.plan (g.desired service) = .install target →
      s.pass.isBlocked service.destination g.name = false →
        Cause s g.name .service service.destination (.install hop) := by
    intro target hop hplan hfree
    obtain ⟨hidle, hcleared, henabled, hdesired⟩ := Service.plan_eq_install_iff.1 hplan
    exact .missing (hdue.2 ⟨hcleared, henabled, by simp [hdesired]⟩) ⟨service, hs, hidle⟩ hfree
  have hmisplaced : ∀ {target hop}, service.plan (g.desired service) = .move target →
      Cause s g.name .service service.destination (.install hop) := by
    intro target hop hplan
    obtain ⟨⟨old, hactive, hne⟩, hcleared, henabled, hdesired⟩ := Service.plan_eq_move_iff.1 hplan
    refine .misplaced rfl (hdue.2 ⟨hcleared, henabled, by simp [hdesired]⟩) ?_ ?_
    · simp [hthrough, hactive]
    · simpa [hthrough, hactive, hassigned, hdesired] using hne
  generalize s'.pass = pass' at hturn ⊢
  cases hturn with
  | keep | blocked => exact .inl rfl
  | clear hplan => exact .inr ⟨_, _, attempts_finishService_ok .., hsurplus hplan⟩
  | clearFailed hplan => exact .inr ⟨_, _, Pass.attempts_tried_error .., hsurplus hplan⟩
  | install hplan _ hfree =>
    exact .inr ⟨_, _, attempts_finishService_ok .., hmissing hplan hfree⟩
  | installFailed hplan _ hfree =>
    exact .inr ⟨_, _, Pass.attempts_tried_error .., hmissing hplan hfree⟩
  | move hplan => exact .inr ⟨_, _, attempts_finishService_ok .., hmisplaced hplan⟩
  | moveFailed hplan => exact .inr ⟨_, _, Pass.attempts_tried_error .., hmisplaced hplan⟩

/-- A turn makes one attempt at most, and has a reason for it. -/
theorem Turned.cause (h : Turned T managed s turn s') (hk : s.router.Keyed) :
    s'.pass.ledger.attempts = s.pass.ledger.attempts ∨ ∃ n k d action error, turn = k.turn n d ∧
      s'.pass.ledger.attempts = ⟨n, k, d, action, error⟩ :: s.pass.ledger.attempts ∧
        Cause s n k d action := by
  cases turn with
  | path n c =>
    rcases h.cause_path hk with hsame | ⟨d, action, error, hattempts, hcause⟩
    · exact .inl hsame
    · exact .inr ⟨n, .path c, d, action, error, rfl, hattempts, hcause⟩
  | select n =>
    cases h with
    | noGroup | select => exact .inl rfl
  | service n d =>
    rcases h.cause_service hk with hsame | ⟨action, error, hattempts, hcause⟩
    · exact .inl hsame
    · exact .inr ⟨n, .service, d, action, error, rfl, hattempts, hcause⟩

/-- A route that is due is not removed. -/
theorem Turned.not_removed_of_due (h : Turned T managed s turn s') (hk : s.router.Keyed)
    {n : GroupName} {k : Claimant} {d : Prefix} (hdue : turn = k.turn n d → s.router.Due n k d)
    {i : String} {error : Option Error} : s'.pass.ledger.attempts ≠
      ⟨n, k, d, .remove i, error⟩ :: s.pass.ledger.attempts := by
  intro hattempts
  rcases h.cause hk with hsame | ⟨n', k', d', action, error', hown, hattempts', hcause⟩
  · rw [hsame] at hattempts
    exact List.cons_ne_self _ _ hattempts.symm
  · rw [hattempts'] at hattempts
    cases hattempts
    cases hcause with
    | surplus _ hundue => exact hundue (hdue hown)

/-! ## What a turn leaves -/

theorem Turned.unplaced_iff_of_ne (h : Turned T managed s turn s') {n : GroupName} {k : Claimant}
    {d : Prefix} (hne : turn ≠ k.turn n d) :
    s'.router.Unplaced n k d ↔ s.router.Unplaced n k d := by
  cases k with
  | path c => rw [Router.Unplaced, Router.Unplaced, h.path?_of_ne hne]
  | service => rw [Router.Unplaced, Router.Unplaced, h.service?_of_ne hne]

/-- A turn leaves no new entry without its route, unless it takes that away. -/
theorem Turned.unplaced (h : Turned T managed s turn s') (hk : s.router.Keyed) {n : GroupName}
    {k : Claimant} {d : Prefix} (hwaits : s'.router.Unplaced n k d) :
    s.router.Unplaced n k d ∨ ∃ i error,
      s'.pass.ledger.attempts = ⟨n, k, d, .remove i, error⟩ :: s.pass.ledger.attempts := by
  by_cases hown : turn = k.turn n d
  · subst hown
    cases k with
    | path c =>
      rcases h.path_cases hk with ⟨-, rfl⟩ | ⟨p, kept, hp, hturn, hp'⟩
      · exact .inl hwaits
      · obtain ⟨p', hp'', hidle⟩ := hwaits
        rw [hp''] at hp'
        subst hp'
        refine .inl ⟨p, hp, ?_⟩
        generalize s'.pass = pass' at hturn
        cases hturn with
        | removeFailed | idle | installFailed => exact hidle
        | install _ _ hwaits => exact hwaits
    | service =>
      rcases h.service_cases with ⟨-, rfl⟩ | ⟨g, service, kept, hgroup, hservice, hturn, hs'⟩
      · exact .inl hwaits
      · have hs : s.router.service? n d = some service :=
          Router.service?_eq_some_iff.2 ⟨g, hgroup, hservice⟩
        obtain ⟨service', hs'', hidle⟩ := hwaits
        rw [hs''] at hs'
        have hsettle : ∀ {service₀ : Service}, service₀.settle = some service' →
            service₀.active = none :=
          fun hsettled => (Service.active_of_settle hsettled).symm.trans hidle
        have hname := hk.name hgroup
        have hdestination := hk.destination hs
        subst hname hdestination
        generalize s'.pass = pass' at hturn ⊢
        cases hturn with
        | keep => exact .inl ⟨service, hs, hsettle hs'.symm⟩
        | clear => exact .inr ⟨_, _, attempts_finishService_ok ..⟩
        | blocked | clearFailed | installFailed | moveFailed =>
          cases hs'
          exact .inl ⟨service, hs, hidle⟩
        | install | move => cases hsettle hs'.symm
  · exact .inl ((h.unplaced_iff_of_ne hown).1 hwaits)

/-- A turn leaves the route of a service where it was, or takes it away; its own turn may also take
it to the connection assigned to it. -/
theorem Turned.through? (h : Turned T managed s turn s') (n : GroupName) (d : Prefix) :
    s'.router.through? n d = s.router.through? n d ∨ s'.router.through? n d = none ∨
      ∃ service, turn = .service n d ∧ s.router.service? n d = some service ∧
        s'.router.through? n d = s.router.assigned? n d := by
  by_cases hown : turn = .service n d
  · subst hown
    rcases h.service_cases with ⟨-, rfl⟩ | ⟨g, service, kept, hgroup, hservice, hturn, hs'⟩
    · exact .inl rfl
    have hs : s.router.service? n d = some service :=
      Router.service?_eq_some_iff.2 ⟨g, hgroup, hservice⟩
    have hpresent : ∀ {target route}, g.desired service = some target →
        g.routeThrough target = some route →
          some route.connection = g.desired service := by
      intro target route hdesired hroute
      obtain ⟨p, -, rfl⟩ := Option.map_eq_some_iff.1 hroute
      exact hdesired.symm
    rw [Router.through?_of_service? hs, Router.through?, hs',
      Router.assigned?_of_get? hgroup hservice]
    generalize s'.pass = pass' at hturn
    cases hturn with
    | keep => exact .inl (service.bind_active_settle _)
    | blocked | clearFailed | installFailed | moveFailed => exact .inl rfl
    | clear => exact .inr (.inl (Service.bind_active_settle ..))
    | install hplan hroute =>
      have hdesired := (Service.plan_eq_install_iff.1 hplan).2.2.2
      exact .inr (.inr ⟨service, rfl, hs,
        (Service.bind_active_settle ..).trans (hpresent hdesired hroute)⟩)
    | move hplan hroute =>
      have hdesired := (Service.plan_eq_move_iff.1 hplan).2.2.2
      exact .inr (.inr ⟨service, rfl, hs,
        (Service.bind_active_settle ..).trans (hpresent hdesired hroute)⟩)
  · left
    rw [Router.through?, Router.through?, h.service?_of_ne hown]

/-- After its turn without failures, an entry that is due has its route or is shut out. -/
theorem Turned.placed_or_blocked {n : GroupName} {k : Claimant} {d : Prefix}
    (h : Turned T managed s (k.turn n d) s') (hk : s.router.Keyed)
    (hclean : ∀ a ∈ s'.pass.ledger.attempts, a.error = none) (hdue : s.router.Due n k d) :
    ¬ s'.router.Unplaced n k d ∨ s.pass.isBlocked d n = true := by
  by_cases hblocked : s.pass.isBlocked d n = true
  · exact .inr hblocked
  refine .inl ?_
  cases k with
  | path connection =>
    obtain ⟨p, kept, -, -, rfl, -, henabled, hturn, hkept⟩ := h.exists_path_of_due hk hdue
    rintro ⟨p', hp', hidle⟩
    rw [hp'] at hkept
    subst hkept
    have hdisabled : p'.flags.disabled = p.flags.disabled := by
      simpa using congrArg (fun p => p.flags.disabled) hturn.bare_eq
    rcases (hturn.settled hclean).2 with h | ⟨hadd, hinstalled⟩ | h
    · rw [hdisabled, henabled] at h
      cases h
    · simp [hadd, hinstalled] at hidle
    · exact hblocked h
  | service =>
    obtain ⟨g, service, kept, target, hgroup, rfl, -, rfl, hcleared, henabled, htarget, hturn,
      hkept⟩ := h.exists_service_of_due hk hdue
    rintro ⟨service', hs', hidle⟩
    rw [hs'] at hkept
    subst hkept
    have hthrough := fun c hc =>
      Group.exists_routeThrough (s := service) (c := c) (hk.paths hgroup) hc
    rcases (hturn.settled hclean hthrough).2 hidle with h | h | h | h
    · rw [hcleared] at h
      cases h
    · rw [henabled] at h
      cases h
    · rw [htarget] at h
      cases h
    · exact hblocked h

end Stage

namespace Router

/-- If a route is recorded, it is of a claim; if it is of a service, that is enabled and goes
through the given connection. -/
def Fits (r : Router) (n : GroupName) (k : Claimant) (d : Prefix)
    (connection : Option ConnectionName) : Prop :=
  r.route? n k d ≠ none → ∃ c, r.claim? n k d = some c ∧
    (k = .service → c.disabled = false ∧ r.through? n d = connection)

/-- No route is recorded that should not be. -/
def Swept (r : Router) : Prop :=
  ∀ n k d, r.route? n k d ≠ none →
    ∃ c, r.claim? n k d = some c ∧ (k = .service → c.disabled = false)

end Router

namespace Stage

variable {T : RouteTable σ} {managed : List String} {s s' : Stage σ} {turn : Turn}

/-- After its turn without failures the route of an entry is as it should be. -/
theorem Turned.fits {n : GroupName} {k : Claimant} {d : Prefix}
    (h : Turned T managed s (k.turn n d) s') (hk : s.router.Keyed)
    (hclean : ∀ a ∈ s'.pass.ledger.attempts, a.error = none) :
    s'.router.Fits n k d (s.router.assigned? n d) := by
  intro hroute
  obtain ⟨i, hroute⟩ := Option.ne_none_iff_exists'.1 hroute
  cases k with
  | path c =>
    obtain ⟨p', hp', hd, hi⟩ := Router.route?_path_eq_some_iff.1 hroute
    rcases h.path_cases hk with ⟨hnone, rfl⟩ | ⟨p, kept, hp, hturn, hkept⟩
    · rw [hnone] at hp'
      cases hp'
    rw [hp'] at hkept
    subst hkept
    exact ⟨_, Router.claim?_path_eq_some_iff.2 ⟨p', hp', (hturn.settled hclean).1, hd, rfl⟩,
      fun h => by cases h⟩
  | service =>
    obtain ⟨service', route, hs', hactive, hi⟩ := Router.route?_service_eq_some_iff.1 hroute
    rcases h.service_cases with ⟨hnone, rfl⟩ | ⟨g, service, kept, hgroup, hservice, hturn, hkept⟩
    · rw [hnone] at hs'
      cases hs'
    rw [hs'] at hkept
    subst hkept
    have hthrough := fun c hc =>
      Group.exists_routeThrough (s := service) (c := c) (hk.paths hgroup) hc
    obtain ⟨hcleared, henabled, hdesired⟩ := (hturn.settled hclean hthrough).1 route hactive
    have hbare := hturn.bare_eq service' rfl
    have hcleared' : service'.isCleared = service.isCleared := by
      simpa using congrArg Service.isCleared hbare
    have hdisabled := congrArg Service.disabled hbare
    refine ⟨_, Router.claim?_service_eq_some_iff.2 ⟨service', hs', ?_, rfl⟩, fun _ => ⟨?_, ?_⟩⟩
    · rw [hcleared', hcleared]
    · exact hdisabled.trans henabled
    · rw [Router.through?_of_service? hs', Router.assigned?_of_get? hgroup hservice, hactive,
        hdesired, Option.map_some]

/-- A turn leaves the routes of other entries as they should be. -/
theorem Turned.fits_of_ne (h : Turned T managed s turn s') {n : GroupName} {k : Claimant}
    {d : Prefix} (hne : turn ≠ k.turn n d) {connection : Option ConnectionName}
    (hfits : s.router.Fits n k d connection) : s'.router.Fits n k d connection := by
  cases k with
  | path c =>
    have hsame := h.path?_of_ne hne
    simpa only [Router.Fits, Router.route?, Router.claim?, hsame, reduceCtorEq, false_implies]
      using hfits
  | service =>
    have hsame := h.service?_of_ne hne
    simpa only [Router.Fits, Router.route?, Router.claim?, Router.through?, hsame] using hfits

end Stage

/-! ## Passes and resolutions without failures -/

namespace Router

variable {T : RouteTable σ} {r : Router}

theorem turn_mem_turns_of_route? {visit : Visit} (hvisit : visit.IsComplete) {n : GroupName}
    {k : Claimant} {d : Prefix} (h : r.route? n k d ≠ none) : k.turn n d ∈ r.turns visit := by
  obtain ⟨i, hroute⟩ := Option.ne_none_iff_exists'.1 h
  cases k with
  | path c =>
    obtain ⟨p, hp, -⟩ := route?_path_eq_some_iff.1 hroute
    exact path_mem_turns hp
  | service =>
    obtain ⟨s, route, hs, -⟩ := route?_service_eq_some_iff.1 hroute
    exact service_mem_turns hvisit hs

/-- After a complete pass without failures every route is as it should be. -/
theorem fits_passStage (hk : r.Keyed) {visit : Visit} (hvisit : visit.IsComplete) (table : σ)
    (ledger : Ledger)
    (hclean : ∀ a ∈ (r.passStage T visit table ledger).pass.ledger.attempts, a.error = none)
    (n : GroupName) (k : Claimant) (d : Prefix) :
    (r.passStage T visit table ledger).router.Fits n k d (r.preferred? n d) := by
  have hpass := passStage_schedule hk T visit table ledger (P := fun rest s =>
    (∀ a ∈ s.pass.ledger.attempts, a.error = none) →
      k.turn n d ∈ rest ∨ s.router.Fits n k d (r.preferred? n d)) ?_ ?_
  · exact (hpass.2 hclean).resolve_left List.not_mem_nil
  · intro _
    by_cases hroute : r.route? n k d = none
    · exact .inr fun h => absurd hroute h
    · exact .inl (turn_mem_turns_of_route? hvisit hroute)
  · intro turn rest s s' hstanding hturn h hclean'
    have heffect := hturn.effect hstanding.keyed
    have hbefore := h fun a ha => hclean' a (heffect.mem_attempts ha)
    by_cases hown : turn = k.turn n d
    · subst hown
      have hfits := hturn.fits hstanding.keyed hclean'
      refine .inr fun hroute => ?_
      obtain ⟨c, hc, hservice⟩ := hfits hroute
      refine ⟨c, hc, ?_⟩
      rintro rfl
      obtain ⟨henabled, hthrough⟩ := hservice rfl
      -- the service was there before its turn, since its claim was
      obtain ⟨c₀, hc₀, -⟩ := (hstanding.turned hturn).claims.symm.exists_claim hc
      obtain ⟨c₁, hc₁, -⟩ := hstanding.claims.exists_claim hc₀
      obtain ⟨service, hs, -⟩ := claim?_service_eq_some_iff.1 hc₁
      exact ⟨henabled, hthrough.trans (hstanding.assigned?_eq_of_turn hs)⟩
    · rcases hbefore with hmem | hfits
      · exact .inl ((List.mem_cons.1 hmem).resolve_left (Ne.symm hown))
      · exact .inr (hturn.fits_of_ne hown hfits)

/-- A complete pass without failures leaves no route recorded that should not be. -/
theorem swept_passStage (hk : r.Keyed) {visit : Visit} (hvisit : visit.IsComplete) (table : σ)
    (ledger : Ledger)
    (hclean : ∀ a ∈ (r.passStage T visit table ledger).pass.ledger.attempts, a.error = none) :
    (r.passStage T visit table ledger).router.Swept := by
  intro n k d hroute
  obtain ⟨c, hc, hservice⟩ := fits_passStage hk hvisit table ledger hclean n k d hroute
  exact ⟨c, hc, fun h => (hservice h).1⟩

end Router

namespace Resolution

variable {T : RouteTable σ} {res res' : Resolution σ} {d : Prefix} {claim : Claim}

theorem Disabled.swept (h : Disabled T res d claim res') (hswept : res.router.Swept)
    (hclean : ∀ a ∈ res'.ledger.attempts, a.error = none) : res'.router.Swept := by
  intro n k e hroute
  have hbare := h.claim?_bare n k e
  obtain ⟨c, hc, hservice⟩ := hswept n k e (h.effect.route?_ne_none hroute)
  have hne : ¬ (n = claim.group ∧ k = claim.claimant ∧ e = d) := by
    rintro ⟨rfl, rfl, rfl⟩
    exact hroute (h.route?_eq_none fun a ha _ _ => hclean a ha)
  rw [hc, Option.map_some, if_neg hne] at hbare
  obtain ⟨c', hc', hbare⟩ := Option.map_eq_some_iff.1 hbare
  exact ⟨c', hc', fun hk => (Claim.disabled_eq_of_bare_eq hbare).trans (hservice hk)⟩

theorem Enabled.swept (h : Enabled res d claim res') (hswept : res.router.Swept) :
    res'.router.Swept := by
  intro n k e hroute
  have hbare := h.claim?_bare n k e
  rw [h.route?_eq] at hroute
  obtain ⟨c, hc, hservice⟩ := hswept n k e hroute
  rw [hc, Option.map_some] at hbare
  obtain ⟨c', hc', hbare⟩ := Option.map_eq_some_iff.1 hbare
  refine ⟨c', hc', fun hk => ?_⟩
  have hdisabled := congrArg Claim.disabled hbare
  split at hdisabled
  · exact hdisabled
  · exact hdisabled.trans (hservice hk)

end Resolution

/-- A resolution without failures leaves a router swept. -/
theorem Router.swept_resolve {T : RouteTable σ} {r : Router} {table : σ} {ledger : Ledger}
    (hk : r.Keyed) (hswept : r.Swept)
    (hclean : ∀ a ∈ (r.resolve T table ledger).2.ledger.attempts, a.error = none) :
    (r.resolve T table ledger).2.router.Swept := by
  refine resolve_induction T table ledger hk (Q := fun _ _ res =>
    (∀ a ∈ res.ledger.attempts, a.error = none) → res.router.Swept) (fun _ => hswept) ?_ ?_ hclean
  · intro i is js res res' h _ hdisabled hclean'
    exact hdisabled.swept (h fun a ha => hclean' a (hdisabled.effect.mem_attempts ha)) hclean'
  · intro j js res res' h _ henabled hclean'
    exact henabled.swept
      (h fun a ha => hclean' a (henabled.effect.mem_attempts (T := T) ha))

end RouteKeeper
