import RouteKeeper.Proofs.Ownership

/-!
# Removals that were refused

An entry that loses its prefix keeps its route if the removal fails. What happens next depends on
the kind of the entry. The turn of a service takes the route away as long as the service is
disabled, so that a reconciliation in which no removal fails leaves no disabled service with a
route. The turn of a path leaves a disabled path alone: its route stays until the path is enabled,
or is to be removed. So a disabled path is recorded as installed exactly if the latest attempt for
it is a removal that was refused.

## Main definitions

* `latest?` — the latest attempt for an entry.
* `Refused` — it is a removal that failed.
* `Router.Withholds` — which routes are recorded after refusals.

## Main statements

* `Router.cleared_reconcileWith` — disabled services after a reconciliation.
* `Run.withholds_after` — disabled paths, all along a run.
* `Run.disabled_after_reconcile` — both, after a reconciliation in which no removal fails.
-/
namespace RouteKeeper

variable {σ : Type}

/-! ## Disabled services -/

/-- After its turn a disabled service has no route, unless the removal failed. -/
theorem ServiceTurn.cleared {T : RouteTable σ} {managed : List String} {g : Group}
    {pass pass' : Pass σ} {service service' : Service}
    (h : ServiceTurn T managed g pass service (some service') pass')
    (hreleased : ∀ a ∈ pass'.ledger.attempts, a.Releases) (hdisabled : service'.disabled = true) :
    service'.active = none := by
  have hsame : service.disabled = true :=
    (congrArg Service.disabled (h.bare_eq service' rfl)).symm.trans hdisabled
  have henabled : service.disabled ≠ false := by simp [hsame]
  generalize hkept : some service' = kept at h
  cases h with
  | keep hplan =>
    rw [Service.active_of_settle hkept.symm]
    rcases hplan with hplan | ⟨target, hplan | hplan, -⟩
    · rcases Service.plan_eq_keep_iff.1 hplan with ⟨hnone, -⟩ | ⟨route, -, -, hlive, -⟩
      · exact hnone
      · exact absurd hlive henabled
    · exact absurd (Service.plan_eq_install_iff.1 hplan).2.2.1 henabled
    · exact absurd (Service.plan_eq_move_iff.1 hplan).2.2.1 henabled
  | clear => exact Service.active_of_settle hkept.symm
  | clearFailed =>
    have hnone := hreleased _ (by rw [Pass.attempts_tried_error]; exact List.mem_cons_self) _ rfl
    cases hnone
  | blocked hplan | install hplan | installFailed hplan =>
    exact absurd (Service.plan_eq_install_iff.1 hplan).2.2.1 henabled
  | move hplan | moveFailed hplan =>
    exact absurd (Service.plan_eq_move_iff.1 hplan).2.2.1 henabled

namespace Router

variable {T : RouteTable σ} {r : Router}

/-- No disabled service has a route. -/
def Cleared (r : Router) : Prop :=
  ∀ n d s, r.service? n d = some s → s.disabled = true → s.active = none

/-- A complete pass in which no removal fails leaves no disabled service with a route. -/
theorem cleared_passStage (hk : r.Keyed) {visit : Visit} (hvisit : visit.IsComplete) (table : σ)
    (ledger : Ledger)
    (hreleased : ∀ a ∈ (r.passStage T visit table ledger).pass.ledger.attempts, a.Releases) :
    (r.passStage T visit table ledger).router.Cleared := by
  intro n d
  have hpass := passStage_schedule hk T visit table ledger (P := fun rest s =>
    (∀ a ∈ s.pass.ledger.attempts, a.Releases) → .service n d ∈ rest ∨
      ∀ service, s.router.service? n d = some service → service.disabled = true →
        service.active = none) ?_ ?_
  · exact (hpass.2 hreleased).resolve_left List.not_mem_nil
  · intro _
    cases hs : r.service? n d with
    | none => exact .inr nofun
    | some service => exact .inl (service_mem_turns hvisit hs)
  · intro turn rest s s' hstanding hturned h hreleased'
    by_cases hown : turn = .service n d
    · subst hown
      refine .inr fun service' hs' hdisabled => ?_
      rcases hturned.service_cases with ⟨hnone, rfl⟩ | ⟨g, service, kept, -, -, hturn, hkept⟩
      · rw [hnone] at hs'
        cases hs'
      · rw [hs'] at hkept
        subst hkept
        exact hturn.cleared hreleased' hdisabled
    · rw [hturned.service?_of_ne hown]
      have hbefore := h fun a ha =>
        hreleased' a ((hturned.effect hstanding.keyed).mem_attempts ha)
      exact hbefore.imp_left fun hmem => (List.mem_cons.1 hmem).resolve_left (Ne.symm hown)

/-- A resolution in which no removal fails leaves none either. -/
theorem Cleared.resolve (h : r.Cleared) (hk : r.Keyed) (table : σ) (ledger : Ledger)
    (hreleased : ∀ a ∈ (r.resolve T table ledger).2.ledger.attempts, a.Releases) :
    (r.resolve T table ledger).2.router.Cleared := by
  refine resolve_induction T table ledger hk (Q := fun _ _ res =>
    (∀ a ∈ res.ledger.attempts, a.Releases) → res.router.Cleared) (fun _ => h) ?_ ?_ hreleased
  · intro i is js res res' hres _ hdisabled hreleased' n d s' hs' hlost
    rcases hdisabled.service?_cases hs' with hs | ⟨s, stays, -, rfl, hstays⟩
    · exact hres (fun a ha => hreleased' a (hdisabled.effect.mem_attempts ha)) n d s' hs hlost
    · rw [hstays hreleased']
      rfl
  · intro j js res res' hres _ henabled hreleased' n d s' hs' hlost
    rcases henabled.service?_cases hs' with hs | ⟨s, -, rfl⟩
    · exact hres (fun a ha => hreleased' a ((henabled.effect (T := T)).mem_attempts ha)) n d s' hs
        hlost
    · cases hlost

/-- A reconciliation in which no removal fails leaves no disabled service with a route, whatever
failed before. -/
theorem cleared_reconcileWith (hk : r.Keyed) {visits : Nat → Visit}
    (hvisits : ∀ i, (visits i).IsComplete) {table : σ}
    (hreleased : ∀ a ∈ (r.reconcileWith T visits table).ledger.attempts, a.Releases) :
    (r.reconcileWith T visits table).router.Cleared := by
  -- only the last pass counts
  have hkeyed : ∀ s : Reconciled σ, s.router.Keyed → (s.step T visits).router.Keyed :=
    fun _ => keyed_step
  obtain ⟨q, hq, hlast⟩ :=
    Reconciled.exists_iterate_eq_step hkeyed 2 (s := r.unreconciled table) hk
  rw [ledger_reconcileWith, show maxPasses = 2 + 1 from rfl, hlast] at hreleased
  have hturned : (q.turned T visits).router.Cleared :=
    cleared_passStage hq (hvisits q.passes) q.table q.ledger fun a ha =>
      hreleased a (mem_attempts_step hq ha)
  rw [Reconciled.ledger_step] at hreleased
  have hstep : (q.step T visits).router.Cleared := by
    rw [Reconciled.router_step]
    exact hturned.resolve (Reconciled.keyed_turned hq) _ _ hreleased
  rw [router_reconcileWith, show maxPasses = 2 + 1 from rfl, hlast]
  intro n d s hs
  rw [service?_pruned] at hs
  exact hstep n d s hs

end Router

/-! ## Latest attempts -/

variable {n : GroupName} {c : ConnectionName}

/-- The latest attempt for an entry; the newest attempt stands first. -/
def latest? (n : GroupName) (k : Claimant) (attempts : List Attempt) : Option Attempt :=
  attempts.find? fun a => a.group = n ∧ a.claimant = k

/-- The latest attempt for an entry is a removal that failed. -/
def Refused (n : GroupName) (k : Claimant) (attempts : List Attempt) : Prop :=
  ∃ a, latest? n k attempts = some a ∧ ¬ a.Releases

theorem latest?_cons_of_ne {k : Claimant} {a : Attempt} (h : ¬ (a.group = n ∧ a.claimant = k))
    (attempts : List Attempt) : latest? n k (a :: attempts) = latest? n k attempts := by
  rw [latest?, List.find?_cons_of_neg (by simpa using h), latest?]

theorem refused_cons_remove_iff (k : Claimant) (d : Prefix) (i : String) (e : Option Error)
    (attempts : List Attempt) : Refused n k (⟨n, k, d, .remove i, e⟩ :: attempts) ↔ e ≠ none := by
  simp [Refused, latest?, Attempt.Releases]

theorem not_refused_cons_install (k : Claimant) (d : Prefix) (hop : Hop) (e : Option Error)
    (attempts : List Attempt) : ¬ Refused n k (⟨n, k, d, .install hop, e⟩ :: attempts) := by
  simp [Refused, latest?, Attempt.Releases]

/-- After attempts of which none was refused, a refusal is an older one. -/
theorem refused_append_iff {k : Claimant} {attempts earlier : List Attempt}
    (hreleased : ∀ a ∈ attempts, a.Releases) :
    Refused n k (attempts ++ earlier) ↔
      (∀ a ∈ attempts, ¬ (a.group = n ∧ a.claimant = k)) ∧ Refused n k earlier := by
  have hnone : latest? n k attempts = none ↔
      ∀ a ∈ attempts, ¬ (a.group = n ∧ a.claimant = k) := by
    simp [latest?, List.find?_eq_none]
  have happend : latest? n k (attempts ++ earlier) =
      (latest? n k attempts).or (latest? n k earlier) := List.find?_append
  rw [← hnone, Refused, happend]
  cases hlatest : latest? n k attempts with
  | none => simp [Refused]
  | some a =>
    have ha : a.Releases := hreleased a (List.mem_of_find?_eq_some hlatest)
    simp [ha]

/-! ## Disabled paths -/

/-- After a refusal the path is recorded as installed; a path that is disabled is recorded as
installed only then. -/
structure Router.Withholds (r : Router) (n : GroupName) (c : ConnectionName)
    (attempts : List Attempt) : Prop where
  installed : Refused n (.path c) attempts → ∃ p, r.path? n c = some p ∧ p.isInstalled = true
  refused {p : Path} : r.path? n c = some p → p.flags.disabled = true → p.isInstalled = true →
    Refused n (.path c) attempts

namespace Router.Withholds

variable {r r' : Router} {attempts attempts' : List Attempt}

/-- Nothing changes where neither the path nor the latest attempt for it does. -/
theorem congr (h : r.Withholds n c attempts) (hpath : r'.path? n c = r.path? n c)
    (hattempts : latest? n (.path c) attempts' = latest? n (.path c) attempts) :
    r'.Withholds n c attempts' where
  installed hrefused := by
    rw [hpath]
    rw [Refused, hattempts] at hrefused
    exact h.installed hrefused
  refused hp hdisabled hinstalled := by
    rw [hpath] at hp
    rw [Refused, hattempts]
    exact h.refused hp hdisabled hinstalled

/-- After a refusal the path is to be recorded as installed. -/
theorem of_refused {p : Path} (hrefused : Refused n (.path c) attempts)
    (hp : r.path? n c = some p) (hinstalled : p.isInstalled = true) : r.Withholds n c attempts :=
  ⟨fun _ => ⟨p, hp, hinstalled⟩, fun _ _ _ => hrefused⟩

/-- Without a refusal the path is not to be recorded as installed if it is disabled. -/
theorem of_not_refused {kept : Option Path} (hnot : ¬ Refused n (.path c) attempts)
    (hkept : r.path? n c = kept)
    (hpath : ∀ p, kept = some p → p.flags.disabled = true → p.isInstalled = false) :
    r.Withholds n c attempts where
  installed hrefused := absurd hrefused hnot
  refused {p} hp hdisabled hinstalled := by
    rw [hpath p (hkept.symm.trans hp) hdisabled] at hinstalled
    cases hinstalled

/-- Of a path without a route no removal was refused. -/
theorem not_refused {p : Path} (h : r.Withholds n c attempts) (hp : r.path? n c = some p)
    (hroute : p.installed = none) : ¬ Refused n (.path c) attempts := by
  intro hrefused
  obtain ⟨p', hp', hinstalled⟩ := h.installed hrefused
  rw [hp] at hp'
  cases hp'
  simp [Path.isInstalled, hroute] at hinstalled

end Router.Withholds

/-- A turn tries to remove the route of a path, installs it, or leaves the path alone. -/
theorem Stage.Turned.withholds {T : RouteTable σ} {managed : List String} {s s' : Stage σ}
    {turn : Turn} (h : Turned T managed s turn s') (hk : s.router.Keyed) {earlier : List Attempt}
    (hs : s.router.Withholds n c (s.pass.ledger.attempts ++ earlier)) :
    s'.router.Withholds n c (s'.pass.ledger.attempts ++ earlier) := by
  by_cases hown : turn = .path n c
  case neg =>
    refine hs.congr (h.path?_of_ne hown) ?_
    rcases h.cause hk with hsame | ⟨m, k, d, action, error, hturn, hattempts, -⟩
    · rw [hsame]
    · rw [hattempts, List.cons_append]
      refine latest?_cons_of_ne ?_ _
      rintro ⟨rfl, rfl⟩
      exact hown hturn
  subst hown
  rcases h.path_cases hk with ⟨-, rfl⟩ | ⟨p, kept, hp, hturn, hkept⟩
  · exact hs
  have hconnection := hk.connection hp
  subst hconnection
  generalize s'.pass = pass' at hturn ⊢
  cases hturn with
  | drop _ hroute => exact .of_not_refused (hs.not_refused hp hroute) hkept nofun
  | remove =>
    rw [Pass.ledger_disown, Pass.attempts_tried_ok, List.cons_append]
    exact .of_not_refused (by simp [refused_cons_remove_iff]) hkept nofun
  | removeFailed _ hroute =>
    rw [Pass.attempts_tried_error, List.cons_append]
    exact .of_refused (by simp [refused_cons_remove_iff]) hkept (by simp [Path.isInstalled, hroute])
  | idle => exact hs.congr (hkept.trans hp.symm) rfl
  | install _ henabled =>
    rw [Pass.ledger_own, Pass.attempts_tried_ok, List.cons_append]
    refine .of_not_refused (not_refused_cons_install _ _ _ _ _) hkept ?_
    rintro _ ⟨⟩ (hdisabled : p.flags.disabled = true)
    rw [henabled] at hdisabled
    cases hdisabled
  | installFailed _ henabled =>
    rw [Pass.attempts_tried_error, List.cons_append]
    refine .of_not_refused (not_refused_cons_install _ _ _ _ _) hkept ?_
    rintro _ ⟨⟩ hdisabled
    rw [henabled] at hdisabled
    cases hdisabled

namespace Resolution

variable {T : RouteTable σ} {res res' : Resolution σ} {d : Prefix} {claim : Claim}
  {earlier : List Attempt}

/-- An attempt to withdraw the route of one claim is the latest for that claim only. -/
theorem latest?_of_withdrawal {table table' : σ} {attempts attempts' : List Attempt}
    {route : Option String} {stays : Bool}
    (h : Withdrawal T claim d table attempts route stays table' attempts')
    {k : Claimant} (hne : ¬ (claim.group = n ∧ claim.claimant = k)) :
    latest? n k (attempts' ++ earlier) = latest? n k (attempts ++ earlier) := by
  cases h with
  | absent => rfl
  | removed | failed => exact latest?_cons_of_ne hne _

theorem Disabled.withholds (h : Disabled T res d claim res')
    (hres : res.router.Withholds n c (res.ledger.attempts ++ earlier)) :
    res'.router.Withholds n c (res'.ledger.attempts ++ earlier) := by
  cases h with
  | service hclaimant hgroup _ _ hroute =>
    refine hres.congr (Router.path?_putService hgroup ..) (latest?_of_withdrawal hroute ?_)
    rw [hclaimant]
    simp
  | @path g connection p stays table ledger hclaimant hgroup hpath _ _ hroute =>
    by_cases hown : n = claim.group ∧ c = connection
    case neg =>
      refine hres.congr ?_ (latest?_of_withdrawal hroute ?_)
      · rw [Router.path?_putPath hgroup, if_neg hown]
      · rw [hclaimant]
        rintro ⟨rfl, heq⟩
        cases heq
        exact hown ⟨rfl, rfl⟩
    obtain ⟨rfl, rfl⟩ := hown
    have hp : res.router.path? claim.group c = some p :=
      (Router.path?_of_get? hgroup _).trans hpath
    have hp' : (res.router.putGroup claim.group
        { g with paths := g.paths.put c (some (p.lost stays)) }).path? claim.group c =
          some (p.lost stays) := by
      rw [Router.path?_putPath hgroup, if_pos ⟨rfl, rfl⟩]
    generalize hinstalled : p.installed = installed at hroute
    rcases ledger with ⟨attempts, outcomes, changes⟩
    simp only at hroute ⊢
    cases hroute with
    | absent =>
      refine .of_not_refused (hres.not_refused hp hinstalled) hp' ?_
      rintro _ ⟨⟩ -
      rfl
    | removed =>
      rw [List.cons_append, hclaimant]
      refine .of_not_refused (by simp [refused_cons_remove_iff]) hp' ?_
      rintro _ ⟨⟩ -
      rfl
    | failed =>
      rw [List.cons_append, hclaimant]
      exact .of_refused (by simp [refused_cons_remove_iff]) hp'
        (by simp [Path.lost, Path.isInstalled, hinstalled])

theorem Enabled.withholds (h : Enabled res d claim res')
    (hres : res.router.Withholds n c (res.ledger.attempts ++ earlier)) :
    res'.router.Withholds n c (res'.ledger.attempts ++ earlier) := by
  cases h with
  | service _ hgroup => exact hres.congr (Router.path?_putService hgroup ..) rfl
  | @path g connection p _ hgroup hpath =>
    by_cases hown : n = claim.group ∧ c = connection
    case neg => exact hres.congr (by rw [Router.path?_putPath hgroup, if_neg hown]) rfl
    obtain ⟨rfl, rfl⟩ := hown
    have hp : res.router.path? claim.group c = some p :=
      (Router.path?_of_get? hgroup _).trans hpath
    have hp' : (res.router.putGroup claim.group
        { g with paths := g.paths.put c (some p.regained) }).path? claim.group c =
          some p.regained := by
      rw [Router.path?_putPath hgroup, if_pos ⟨rfl, rfl⟩]
    refine ⟨fun hrefused => ?_, fun hp'' hdisabled => ?_⟩
    · obtain ⟨p₀, hp₀, hstill⟩ := hres.installed hrefused
      rw [hp] at hp₀
      cases hp₀
      exact ⟨_, hp', hstill⟩
    · rw [hp'] at hp''
      cases hp''
      cases hdisabled

end Resolution

namespace Operation

variable {r : Router}

/-- What an operation does at once changes no record of a path. -/
theorem installed_edit (op : Operation) (n : GroupName) (c : ConnectionName) :
    ((op.edit r).path? n c).bind Path.installed = (r.path? n c).bind Path.installed := by
  have hmarks : ∀ {r' : Router}, r.Marks r' →
      (r'.path? n c).bind Path.installed = (r.path? n c).bind Path.installed := by
    intro r' h
    have hcore : ∀ o : Option Path,
        o.bind Path.installed = (o.map Path.core).bind fun core => core.2.1 := by
      rintro (_ | p) <;> rfl
    rw [hcore, hcore, h.path]
  cases op with
  | addPeer name spec =>
    cases husable : spec.isUsable with
    | false => rw [edit, Router.addPeer_of_not_isUsable husable]
    | true =>
      rw [edit, Router.path?_addPeer husable]
      split
      case isTrue hkey =>
        obtain ⟨rfl, rfl⟩ := hkey
        exact Router.installed_requested n spec
      case isFalse => rfl
  | addService name destination connection => rw [edit, Router.path?_addService]
  | deletePeer name connection => exact hmarks (Router.marks_deletePeer name connection)
  | deleteService name destination connection =>
    exact hmarks (Router.marks_deleteService name destination connection)
  | flush => exact hmarks Router.marks_flush
  | recordRound results => exact hmarks (Router.marks_recordRound results)
  | reconcile => rfl

end Operation

namespace Router

variable {r : Router}

theorem exists_isInstalled_iff :
    (∃ p, r.path? n c = some p ∧ p.isInstalled = true) ↔
      (r.path? n c).bind Path.installed ≠ none := by
  cases r.path? n c with
  | none => simp
  | some p => simp [Path.isInstalled, Option.isSome_iff_ne_none]

theorem Withholds.edit {attempts : List Attempt} (h : r.Withholds n c attempts) (op : Operation) :
    (op.edit r).Withholds n c attempts where
  installed hrefused := by
    rw [exists_isInstalled_iff, op.installed_edit, ← exists_isInstalled_iff]
    exact h.installed hrefused
  refused {p'} hp' hdisabled hinstalled := by
    rcases Operation.path?_edit hp' with ⟨spec, rfl, -, rfl, rfl⟩ | ⟨p, hp, hkept⟩
    · unfold requested at hdisabled hinstalled
      cases hp : r.path? n spec.connection with
      | none =>
        rw [hp] at hdisabled
        cases hdisabled
      | some p =>
        rw [hp] at hdisabled hinstalled
        exact h.refused hp hdisabled hinstalled
    · rw [Path.isInstalled, hkept.installed] at hinstalled
      exact h.refused hp (hkept.disabled.symm.trans hdisabled) hinstalled

theorem Withholds.reconcileWith {earlier : List Attempt} (h : r.Withholds n c earlier)
    (hk : r.Keyed) (T : RouteTable σ) (visits : Nat → Visit) (table : σ) :
    (r.reconcileWith T visits table).router.Withholds n c
      ((r.reconcileWith T visits table).ledger.attempts ++ earlier) := by
  refine reconcileWith_stages hk (A := fun _ => True) (fun _ _ => trivial)
    (Q := fun r _ attempts => r.Withholds n c (attempts ++ earlier))
    (S := fun _ s => s.router.Withholds n c (s.pass.ledger.attempts ++ earlier)) h
    (fun _ _ _ _ h => h) ?_ (fun _ _ h => h) ?_ ?_ ?_
  · intro managed turn s s' hs hturned _
    exact hturned.withholds hs
  · intro res d claim res' _ hdisabled _
    exact hdisabled.withholds
  · intro res d claim res' _ henabled
    exact henabled.withholds
  · intro r t attempts h
    exact h.congr (path?_pruned r n c) rfl

end Router

/-! ## Runs -/

namespace Run

variable {T : RouteTable σ} {policy : Policy} {table : σ}

/-- All along a run, whatever fails in it, refusals are told by the records of paths. -/
theorem withholds_after (T : RouteTable σ) (policy : Policy) (table : σ) (ops : List Operation)
    (n : GroupName) (c : ConnectionName) :
    (after T policy table ops).router.Withholds n c (after T policy table ops).history := by
  refine after_induction (P := fun s => s.router.Withholds n c s.history) ?_ ?_ ?_ ops
  · exact .of_not_refused (by simp [Refused, latest?, start]) rfl nofun
  · intro s op h
    exact h.edit op
  · intro s visits hr h
    rw [router_perform_reconcile, history_perform_reconcile]
    exact h.reconcileWith hr.keyed T visits s.table

/-- After a reconciliation in which no removal fails, of any run over any table, no disabled service
has a route. A disabled path is recorded as installed exactly if the latest attempt for it before
the reconciliation is a removal that was refused, and the reconciliation made none. -/
theorem disabled_after_reconcile (T : RouteTable σ) (policy : Policy) (table : σ)
    (ops : List Operation) {visits : Nat → Visit} (hvisits : ∀ i, (visits i).IsComplete)
    (hreleased : ∀ a ∈ ((after T policy table ops).router.reconcileWith T visits
      (after T policy table ops).table).ledger.attempts, a.Releases) :
    (∀ n d s, (after T policy table (ops ++ [.reconcile visits])).router.service? n d = some s →
      s.disabled = true → s.active = none) ∧
    ∀ n c p, (after T policy table (ops ++ [.reconcile visits])).router.path? n c = some p →
      p.flags.disabled = true →
        (p.isInstalled = true ↔ Refused n (.path c) (after T policy table ops).history ∧
          ∀ a ∈ ((after T policy table ops).router.reconcileWith T visits
            (after T policy table ops).table).ledger.attempts,
              ¬ (a.group = n ∧ a.claimant = .path c)) := by
  have hk : (after T policy table ops).router.Keyed := keyed_after ops
  refine ⟨?_, fun n c p hp hdisabled => ?_⟩
  · rw [after_concat, router_perform_reconcile]
    exact Router.cleared_reconcileWith hk hvisits hreleased
  · have hwithholds := withholds_after T policy table (ops ++ [.reconcile visits]) n c
    have hrefused : p.isInstalled = true ↔
        Refused n (.path c) (after T policy table (ops ++ [.reconcile visits])).history := by
      refine ⟨hwithholds.refused hp hdisabled, fun h => ?_⟩
      obtain ⟨p', hp', hinstalled⟩ := hwithholds.installed h
      rw [hp] at hp'
      cases hp'
      exact hinstalled
    rw [hrefused, after_concat, history_perform_reconcile, refused_append_iff hreleased, and_comm]

/-- A path in place moves to the address of another group's path, and its route is written there
before the conflict is looked at. -/
def stranding : List Operation :=
  [.addPeer ⟨"alpha"⟩ (.v4 "t1" "wg-a" 1), .addPeer ⟨"beta"⟩ (.v4 "t1" "wg-b" 2),
    .reconcile fun _ => .inOrder, .addPeer ⟨"beta"⟩ (.v4 "t1" "wg-b" 1),
    .reconcile fun _ => .inOrder]

/-- A table that refuses one removal. -/
def holding : RouteTable.Memory := ⟨.empty, [⟨.remove, none, .refused, "busy", some 1⟩]⟩

/-- The run over them. -/
def stranded : Run RouteTable.Memory := after RouteTable.memory .default holding stranding

/-- Where a reconciliation of that run leaves the path: no call fails in it, since it makes none,
and the disabled path is still recorded as installed. -/
theorem stranding_keeps_route :
    (stranded.router.reconcileWith RouteTable.memory (fun _ => .inOrder)
        stranded.table).ledger.attempts = [] ∧
      ((stranded.perform RouteTable.memory (.reconcile fun _ => .inOrder)).router.path? ⟨"beta"⟩
        ⟨"t1"⟩).map (fun p => (p.flags.disabled, p.installed)) = some (true, some "wg-b") ∧
      (stranded.perform RouteTable.memory (.reconcile fun _ => .inOrder)).table.routes.get?
        (.host (.v4 1)) = some ⟨"wg-b", none⟩ := by
  decide +kernel

/-- The removal of its route was refused before. -/
theorem disabled_after_reconcile_stranding :
    (stranded.router.reconcileWith RouteTable.memory (fun _ => .inOrder)
        stranded.table).ledger.attempts = [] ∧
      Refused ⟨"beta"⟩ (.path ⟨"t1"⟩) stranded.history := by
  have hnone : (stranded.router.reconcileWith RouteTable.memory (fun _ => .inOrder)
      stranded.table).ledger.attempts = [] := by decide +kernel
  have hpath : ((stranded.perform RouteTable.memory (.reconcile fun _ => .inOrder)).router.path?
      ⟨"beta"⟩ ⟨"t1"⟩).map (fun p => (p.flags.disabled, p.isInstalled)) = some (true, true) := by
    decide +kernel
  have hreleased : ∀ a ∈ (stranded.router.reconcileWith RouteTable.memory (fun _ => .inOrder)
      stranded.table).ledger.attempts, a.Releases := by
    simp [hnone]
  refine ⟨hnone, ?_⟩
  obtain ⟨p, hp, hmarks⟩ := Option.map_eq_some_iff.1 hpath
  obtain ⟨hdisabled, hinstalled⟩ := Prod.mk.inj hmarks
  unfold stranded at hp hreleased ⊢
  rw [← after_concat] at hp
  have hiff := (disabled_after_reconcile RouteTable.memory .default holding stranding
    (fun _ => Visit.isComplete_inOrder) hreleased).2 _ _ p hp hdisabled
  exact (hiff.1 hinstalled).1

end Run

end RouteKeeper
