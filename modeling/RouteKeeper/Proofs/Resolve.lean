import RouteKeeper.Proofs.Routes

/-!
# Carrying out verdicts

A resolution disables and enables claims one after the other. Each step finds its claim where the
verdict found it, since no step takes a claim away, and it changes that claim only.

## Main definitions

* `Resolution.Disabled`, `Resolution.Enabled` — what one step does.
* `Resolution.Effect` — what it does with the records and the table.

## Main statements

* `resolve_induction` — what every step keeps, a resolution keeps.
* `claim?_resolve` — which claims are disabled after a resolution.
* `claim?_resolve_of_winner` — the same, told from the winner of the contest.
-/
namespace RouteKeeper

variable {σ : Type}

/-! ## Single steps -/

/-- The path without its prefix: disabled, its route withdrawn unless it had to stay. -/
def Path.lost (p : Path) (stays : Bool) : Path :=
  { p with
    flags := { p.flags with disabled := true }
    installed := if stays then p.installed else none }

/-- The path with its prefix back, waiting for its route. -/
def Path.regained (p : Path) : Path :=
  { p with flags := { p.flags with disabled := false, pendingAdd := true } }

/-- The service without its prefix: disabled, its route withdrawn unless it had to stay. -/
def Service.lost (s : Service) (stays : Bool) : Service :=
  { s with disabled := true, active := if stays then s.active else none }

/-- The service with its prefix back. -/
def Service.regained (s : Service) : Service := { s with disabled := false }

/-- Withdrawing the route of a claim that is lost: whether the route has to stay, the table after
it, and all attempts so far. -/
inductive Withdrawal (T : RouteTable σ) (claim : Claim) (d : Prefix) (table : σ)
    (attempts : List Attempt) : Option String → Bool → σ → List Attempt → Prop
  | absent : Withdrawal T claim d table attempts none false table attempts
  | removed {interface : String} {table' : σ}
    (hcall : T.remove d interface table = (.ok (), table')) :
    Withdrawal T claim d table attempts (some interface) false table'
      (⟨claim.group, claim.claimant, d, .remove interface, none⟩ :: attempts)
  | failed {interface : String} {table' : σ} {e : Error}
    (hcall : T.remove d interface table = (.error e, table')) :
    Withdrawal T claim d table attempts (some interface) true table'
      (⟨claim.group, claim.claimant, d, .remove interface, some e⟩ :: attempts)

/-- The attempt is not a removal that failed. -/
def Attempt.Releases (a : Attempt) : Prop := ∀ i, a.action = .remove i → a.error = none

/-- A route stays only if its removal failed. -/
theorem Withdrawal.not_stays {T : RouteTable σ} {claim : Claim} {d : Prefix} {table table' : σ}
    {attempts attempts' : List Attempt} {route : Option String} {stays : Bool}
    (h : Withdrawal T claim d table attempts route stays table' attempts')
    (hreleased : ∀ a ∈ attempts', a.Releases) : stays = false := by
  cases h with
  | absent | removed => rfl
  | failed =>
    have hnone := hreleased _ List.mem_cons_self _ rfl
    cases hnone

namespace Resolution

/-- A claim that stands in the router is disabled. -/
inductive Disabled (T : RouteTable σ) (res : Resolution σ) (d : Prefix) (claim : Claim) :
    Resolution σ → Prop
  | path {g : Group} {connection : ConnectionName} {p : Path} {stays : Bool} {table : σ}
    {ledger : Ledger} (hclaimant : claim.claimant = .path connection)
    (hgroup : res.router.groups.get? claim.group = some g)
    (hpath : g.paths.get? connection = some p) (hlive : p.flags.pendingDelete = false)
    (hdestination : p.destination = d)
    (hroute : Withdrawal T claim d res.table res.ledger.attempts p.installed stays table
      ledger.attempts) :
    Disabled T res d claim
      ⟨res.router.putGroup claim.group
        { g with paths := g.paths.put connection (some (p.lost stays)) }, table, ledger⟩
  | service {g : Group} {s : Service} {stays : Bool} {table : σ} {ledger : Ledger}
    (hclaimant : claim.claimant = .service)
    (hgroup : res.router.groups.get? claim.group = some g)
    (hservice : g.services.get? d = some s) (hlive : s.isCleared = false)
    (hroute : Withdrawal T claim d res.table res.ledger.attempts
      (s.active.map fun route => route.hop.interface) stays table ledger.attempts) :
    Disabled T res d claim
      ⟨res.router.putGroup claim.group
        { g with services := g.services.put d (some (s.lost stays)) }, table, ledger⟩

/-- A claim that stands in the router is enabled. -/
inductive Enabled (res : Resolution σ) (d : Prefix) (claim : Claim) : Resolution σ → Prop
  | path {g : Group} {connection : ConnectionName} {p : Path}
    (hclaimant : claim.claimant = .path connection)
    (hgroup : res.router.groups.get? claim.group = some g)
    (hpath : g.paths.get? connection = some p) (hlive : p.flags.pendingDelete = false)
    (hdestination : p.destination = d) :
    Enabled res d claim
      { res with
        router := res.router.putGroup claim.group
          { g with paths := g.paths.put connection (some p.regained) } }
  | service {g : Group} {s : Service} (hclaimant : claim.claimant = .service)
    (hgroup : res.router.groups.get? claim.group = some g)
    (hservice : g.services.get? d = some s) (hlive : s.isCleared = false) :
    Enabled res d claim
      { res with
        router := res.router.putGroup claim.group
          { g with services := g.services.put d (some s.regained) } }

section Mk

variable {r : Router} {table : σ} {ledger : Ledger}

theorem withGroup_of_get? {name : GroupName} {g : Group} (h : r.groups.get? name = some g)
    (f : Group → Group) :
    (⟨r, table, ledger⟩ : Resolution σ).withGroup name f =
      ⟨r.putGroup name (f g), table, ledger⟩ := by
  simp only [withGroup, Router.putGroup, OrderedMap.modify_of_get? h]

theorem remove_of_ok {T : RouteTable σ} {d : Prefix} {interface : String} {table' : σ}
    (h : T.remove d interface table = (.ok (), table')) (claim : Claim) :
    (⟨r, table, ledger⟩ : Resolution σ).remove T d claim interface =
      (true, ⟨r, table',
        ledger.attempt ⟨claim.group, claim.claimant, d, .remove interface, none⟩⟩) := by
  simp only [remove, h]

theorem remove_of_error {T : RouteTable σ} {d : Prefix} {interface : String} {table' : σ}
    {e : Error} (h : T.remove d interface table = (.error e, table')) (claim : Claim) :
    (⟨r, table, ledger⟩ : Resolution σ).remove T d claim interface =
      (false, ⟨r, table',
        ledger.attempt ⟨claim.group, claim.claimant, d, .remove interface, some e⟩⟩) := by
  simp only [remove, h]

end Mk

theorem disable_disabled (T : RouteTable σ) {res : Resolution σ} {d : Prefix} {claim : Claim}
    (winner : GroupName) (h : res.router.claim? claim.group claim.claimant d ≠ none) :
    Disabled T res d claim (res.disable T d claim winner) := by
  obtain ⟨r, table, ledger⟩ := res
  obtain ⟨c, hc⟩ := Option.ne_none_iff_exists'.1 h
  rcases hclaimant : claim.claimant with connection | _
  · rw [hclaimant] at hc
    obtain ⟨p, hp, hlive, hd, -⟩ := Router.claim?_path_eq_some_iff.1 hc
    obtain ⟨g, hgroup, hpath⟩ := Router.path?_eq_some_iff.1 hp
    cases hroute : p.installed with
    | none =>
      simp only [disable, hgroup, hclaimant, hpath, hroute]
      rw [withGroup_of_get? hgroup]
      have hlost : ({ p with
          flags := { p.flags with disabled := true }, installed := none } : Path) = p.lost false :=
        rfl
      simp only [if_true, hlost]
      refine .path hclaimant hgroup hpath hlive hd ?_
      rw [hroute]
      exact .absent
    | some interface =>
      rcases hcall : T.remove d interface table with ⟨e | _, table'⟩
      · simp only [disable, hgroup, hclaimant, hpath, hroute]
        rw [remove_of_error hcall, withGroup_of_get? hgroup]
        have hlost : ({ p with
            flags := { p.flags with disabled := true }, installed := some interface } : Path) =
            p.lost true := by
          simp [Path.lost, hroute]
        simp only [Bool.false_eq_true, if_false, hlost]
        refine .path hclaimant hgroup hpath hlive hd ?_
        rw [hroute]
        exact .failed hcall
      · simp only [disable, hgroup, hclaimant, hpath, hroute]
        rw [remove_of_ok hcall, withGroup_of_get? hgroup]
        have hlost : ({ p with
            flags := { p.flags with disabled := true }, installed := none } : Path) =
            p.lost false := rfl
        simp only [if_true, hlost]
        refine .path hclaimant hgroup hpath hlive hd ?_
        rw [hroute]
        exact .removed hcall
  · rw [hclaimant] at hc
    obtain ⟨s, hs, hlive, -⟩ := Router.claim?_service_eq_some_iff.1 hc
    obtain ⟨g, hgroup, hservice⟩ := Router.service?_eq_some_iff.1 hs
    cases hroute : s.active with
    | none =>
      simp only [disable, hgroup, hclaimant, hservice, hroute]
      rw [withGroup_of_get? hgroup]
      have hlost : ({ s with disabled := true, active := none } : Service) = s.lost false := rfl
      rw [hlost]
      refine .service hclaimant hgroup hservice hlive ?_
      rw [hroute]
      exact .absent
    | some route =>
      rcases hcall : T.remove d route.hop.interface table with ⟨e | _, table'⟩
      · simp only [disable, hgroup, hclaimant, hservice, hroute]
        rw [remove_of_error hcall]
        simp only
        rw [withGroup_of_get? hgroup]
        have hlost : ({ s with disabled := true, active := some route } : Service) =
            s.lost true := by
          simp [Service.lost, hroute]
        rw [hlost]
        refine .service hclaimant hgroup hservice hlive ?_
        rw [hroute]
        exact .failed hcall
      · simp only [disable, hgroup, hclaimant, hservice, hroute]
        rw [remove_of_ok hcall]
        simp only
        rw [withGroup_of_get? hgroup]
        have hlost : ({ s with disabled := true, active := none } : Service) = s.lost false := rfl
        rw [hlost]
        refine .service hclaimant hgroup hservice hlive ?_
        rw [hroute]
        exact .removed hcall

theorem enable_enabled {res : Resolution σ} {d : Prefix} {claim : Claim}
    (h : res.router.claim? claim.group claim.claimant d ≠ none) :
    Enabled res d claim (res.enable d claim) := by
  obtain ⟨r, table, ledger⟩ := res
  obtain ⟨c, hc⟩ := Option.ne_none_iff_exists'.1 h
  rcases hclaimant : claim.claimant with connection | _
  · rw [hclaimant] at hc
    obtain ⟨p, hp, hlive, hd, -⟩ := Router.claim?_path_eq_some_iff.1 hc
    obtain ⟨g, hgroup, hpath⟩ := Router.path?_eq_some_iff.1 hp
    rw [enable, withGroup_of_get? hgroup]
    simp only [hclaimant, OrderedMap.modify_of_get? hpath]
    exact .path hclaimant hgroup hpath hlive hd
  · rw [hclaimant] at hc
    obtain ⟨s, hs, hlive, -⟩ := Router.claim?_service_eq_some_iff.1 hc
    obtain ⟨g, hgroup, hservice⟩ := Router.service?_eq_some_iff.1 hs
    rw [enable, withGroup_of_get? hgroup]
    simp only [hclaimant, OrderedMap.modify_of_get? hservice]
    exact .service hclaimant hgroup hservice hlive

/-! ## What a step changes -/

variable {T : RouteTable σ} {res res' : Resolution σ} {d : Prefix} {claim : Claim}

theorem Disabled.keyed (h : Disabled T res d claim res') (hk : res.router.Keyed) :
    res'.router.Keyed := by
  cases h with
  | path _ hgroup hpath =>
    have hconnection := hk.connection (Router.path?_eq_some_iff.2 ⟨_, hgroup, hpath⟩)
    refine hk.putPath hgroup ?_
    rintro _ ⟨⟩
    exact hconnection
  | service _ hgroup hservice =>
    have hdestination := hk.destination (Router.service?_eq_some_iff.2 ⟨_, hgroup, hservice⟩)
    refine hk.putService hgroup ?_
    rintro _ ⟨⟩
    exact hdestination

theorem Enabled.keyed (h : Enabled res d claim res') (hk : res.router.Keyed) :
    res'.router.Keyed := by
  cases h with
  | path _ hgroup hpath =>
    have hconnection := hk.connection (Router.path?_eq_some_iff.2 ⟨_, hgroup, hpath⟩)
    refine hk.putPath hgroup ?_
    rintro _ ⟨⟩
    exact hconnection
  | service _ hgroup hservice =>
    have hdestination := hk.destination (Router.service?_eq_some_iff.2 ⟨_, hgroup, hservice⟩)
    refine hk.putService hgroup ?_
    rintro _ ⟨⟩
    exact hdestination

section Cases

variable {n : GroupName}

/-- Where a claim is disabled, a path is kept, or it is the one that loses its prefix. -/
theorem Disabled.path?_cases (h : Disabled T res d claim res') {c : ConnectionName} {p' : Path}
    (hp' : res'.router.path? n c = some p') :
    res.router.path? n c = some p' ∨ ∃ p stays, res.router.path? n c = some p ∧
      p' = p.lost stays ∧ ((∀ a ∈ res'.ledger.attempts, a.Releases) → stays = false) := by
  cases h with
  | @path _ _ p stays _ _ _ hgroup hpath _ _ hroute =>
    rw [Router.path?_putPath hgroup] at hp'
    split at hp'
    case isTrue hkey =>
      obtain ⟨rfl, rfl⟩ := hkey
      cases hp'
      exact .inr ⟨p, stays, (Router.path?_of_get? hgroup _).trans hpath, rfl, hroute.not_stays⟩
    case isFalse => exact .inl hp'
  | service _ hgroup =>
    rw [Router.path?_putService hgroup] at hp'
    exact .inl hp'

/-- Where a claim is disabled, a service is kept, or it is the one that loses its prefix. -/
theorem Disabled.service?_cases (h : Disabled T res d claim res') {e : Prefix} {s' : Service}
    (hs' : res'.router.service? n e = some s') :
    res.router.service? n e = some s' ∨ ∃ s stays, res.router.service? n e = some s ∧
      s' = s.lost stays ∧ ((∀ a ∈ res'.ledger.attempts, a.Releases) → stays = false) := by
  cases h with
  | path _ hgroup =>
    rw [Router.service?_putPath hgroup] at hs'
    exact .inl hs'
  | @service _ s stays _ _ _ hgroup hservice _ hroute =>
    rw [Router.service?_putService hgroup] at hs'
    split at hs'
    case isTrue hkey =>
      obtain ⟨rfl, rfl⟩ := hkey
      cases hs'
      exact .inr ⟨s, stays, (Router.service?_of_get? hgroup _).trans hservice, rfl,
        hroute.not_stays⟩
    case isFalse => exact .inl hs'

/-- Where a claim is enabled, a path is kept, or it is the one that regains its prefix. -/
theorem Enabled.path?_cases (h : Enabled res d claim res') {c : ConnectionName} {p' : Path}
    (hp' : res'.router.path? n c = some p') :
    res.router.path? n c = some p' ∨
      ∃ p, res.router.path? n c = some p ∧ p' = p.regained := by
  cases h with
  | @path _ _ p _ hgroup hpath =>
    rw [Router.path?_putPath hgroup] at hp'
    split at hp'
    case isTrue hkey =>
      obtain ⟨rfl, rfl⟩ := hkey
      cases hp'
      exact .inr ⟨p, (Router.path?_of_get? hgroup _).trans hpath, rfl⟩
    case isFalse => exact .inl hp'
  | service _ hgroup =>
    rw [Router.path?_putService hgroup] at hp'
    exact .inl hp'

/-- Where a claim is enabled, a service is kept, or it is the one that regains its prefix. -/
theorem Enabled.service?_cases (h : Enabled res d claim res') {e : Prefix} {s' : Service}
    (hs' : res'.router.service? n e = some s') :
    res.router.service? n e = some s' ∨
      ∃ s, res.router.service? n e = some s ∧ s' = s.regained := by
  cases h with
  | path _ hgroup =>
    rw [Router.service?_putPath hgroup] at hs'
    exact .inl hs'
  | @service _ s _ hgroup hservice =>
    rw [Router.service?_putService hgroup] at hs'
    split at hs'
    case isTrue hkey =>
      obtain ⟨rfl, rfl⟩ := hkey
      cases hs'
      exact .inr ⟨s, (Router.service?_of_get? hgroup _).trans hservice, rfl⟩
    case isFalse => exact .inl hs'

end Cases

theorem Disabled.remains (h : Disabled T res d claim res') : res.router.Remains res'.router where
  origin {_ _ p'} hp' := by
    rcases h.path?_cases hp' with hp | ⟨p, stays, hp, rfl, -⟩
    · exact ⟨p', hp, rfl, rfl, rfl⟩
    · exact ⟨p, hp, rfl, rfl, rfl⟩
  service {_ _ s'} hs' := by
    rcases h.service?_cases hs' with hs | ⟨s, -, hs, -⟩
    · exact ⟨s', hs⟩
    · exact ⟨s, hs⟩

theorem Enabled.remains (h : Enabled res d claim res') : res.router.Remains res'.router where
  origin {_ _ p'} hp' := by
    rcases h.path?_cases hp' with hp | ⟨p, hp, rfl⟩
    · exact ⟨p', hp, rfl, rfl, rfl⟩
    · exact ⟨p, hp, rfl, rfl, rfl⟩
  service {_ _ s'} hs' := by
    rcases h.service?_cases hs' with hs | ⟨s, hs, -⟩
    · exact ⟨s', hs⟩
    · exact ⟨s, hs⟩

/-- Disabling a claim marks that claim, and no other. -/
theorem Disabled.claim?_bare (h : Disabled T res d claim res') (n : GroupName) (k : Claimant)
    (e : Prefix) :
    (res'.router.claim? n k e).map Claim.bare = (res.router.claim? n k e).map fun c =>
      if n = claim.group ∧ k = claim.claimant ∧ e = d then { c.bare with disabled := true }
      else c.bare := by
  cases h with
  | @path g connection p stays table ledger hclaimant hgroup hpath hlive hdestination hroute =>
    rw [Router.claim?_putPath hgroup, hclaimant]
    by_cases hkey : n = claim.group ∧ k = .path connection
    · obtain ⟨rfl, rfl⟩ := hkey
      have hlost : (p.lost stays).destination = d := hdestination
      have hlive' : (p.lost stays).flags.pendingDelete = false := hlive
      rw [Router.claim?, Router.path?_of_get? hgroup, hpath, Option.filter_some,
        Option.filter_some, hlost, hdestination, hlive, hlive']
      by_cases he : e = d
      · subst he
        simp [Claim.ofPath, Claim.bare, Path.lost, Path.connection]
      · simp [Ne.symm he]
    · rw [if_neg hkey]
      have hkey' : ¬ (n = claim.group ∧ k = .path connection ∧ e = d) :=
        fun h => hkey ⟨h.1, h.2.1⟩
      simp only [if_neg hkey']
  | @service g s stays table ledger hclaimant hgroup hservice hlive hroute =>
    rw [Router.claim?_putService hgroup, hclaimant]
    by_cases hkey : n = claim.group ∧ k = .service ∧ e = d
    · obtain ⟨rfl, rfl, rfl⟩ := hkey
      have hlive' : (s.lost stays).isCleared = false := hlive
      rw [Router.claim?, Router.service?_of_get? hgroup, hservice, Option.filter_some,
        Option.filter_some, hlive, hlive']
      simp [Claim.ofService, Claim.bare, Service.lost]
    · rw [if_neg hkey]
      simp only [if_neg hkey]

/-- Enabling a claim unmarks that claim, and no other. -/
theorem Enabled.claim?_bare (h : Enabled res d claim res') (n : GroupName) (k : Claimant)
    (e : Prefix) :
    (res'.router.claim? n k e).map Claim.bare = (res.router.claim? n k e).map fun c =>
      if n = claim.group ∧ k = claim.claimant ∧ e = d then { c.bare with disabled := false }
      else c.bare := by
  cases h with
  | @path g connection p hclaimant hgroup hpath hlive hdestination =>
    rw [Router.claim?_putPath hgroup, hclaimant]
    by_cases hkey : n = claim.group ∧ k = .path connection
    · obtain ⟨rfl, rfl⟩ := hkey
      have hregained : p.regained.destination = d := hdestination
      have hlive' : p.regained.flags.pendingDelete = false := hlive
      rw [Router.claim?, Router.path?_of_get? hgroup, hpath, Option.filter_some,
        Option.filter_some, hregained, hdestination, hlive, hlive']
      by_cases he : e = d
      · subst he
        simp [Claim.ofPath, Claim.bare, Path.regained, Path.connection]
      · simp [Ne.symm he]
    · rw [if_neg hkey]
      have hkey' : ¬ (n = claim.group ∧ k = .path connection ∧ e = d) :=
        fun h => hkey ⟨h.1, h.2.1⟩
      simp only [if_neg hkey']
  | @service g s hclaimant hgroup hservice hlive =>
    rw [Router.claim?_putService hgroup, hclaimant]
    by_cases hkey : n = claim.group ∧ k = .service ∧ e = d
    · obtain ⟨rfl, rfl, rfl⟩ := hkey
      have hlive' : s.regained.isCleared = false := hlive
      rw [Router.claim?, Router.service?_of_get? hgroup, hservice, Option.filter_some,
        Option.filter_some, hlive, hlive']
      simp [Claim.ofService, Claim.bare, Service.regained]
    · rw [if_neg hkey]
      simp only [if_neg hkey]

/-! ### Effects -/

/-- What a step does with the records and the table. -/
inductive Effect (T : RouteTable σ) (res res' : Resolution σ) : Prop
  | quiet (hroute : ∀ n k d, res'.router.route? n k d = res.router.route? n k d)
    (htable : res'.table = res.table)
    (hattempts : res'.ledger.attempts = res.ledger.attempts)
  | failed {a : Attempt} {i : String} {e : Error}
    (hroute : ∀ n k d, res'.router.route? n k d = res.router.route? n k d)
    (hcall : T.remove a.destination i res.table = (.error e, res'.table))
    (hattempts : res'.ledger.attempts = a :: res.ledger.attempts) (herror : a.error = some e)
  | removed {n : GroupName} {k : Claimant} {d : Prefix} {i : String}
    (hhad : res.router.route? n k d = some i)
    (hcall : T.remove d i res.table = (.ok (), res'.table))
    (hroute : ∀ m j e, res'.router.route? m j e =
      if m = n ∧ j = k ∧ e = d then none else res.router.route? m j e)
    (hattempts : res'.ledger.attempts = ⟨n, k, d, .remove i, none⟩ :: res.ledger.attempts)

/-- Attempts are never forgotten. -/
theorem Effect.mem_attempts (h : Effect T res res') {a : Attempt} (ha : a ∈ res.ledger.attempts) :
    a ∈ res'.ledger.attempts := by
  cases h with
  | quiet _ _ hattempts => rwa [hattempts]
  | failed _ _ hattempts | removed _ _ _ hattempts =>
    rw [hattempts]
    exact List.mem_cons_of_mem _ ha

/-- The effect of withdrawing the route of a claim. -/
theorem effect_of_withdrawal {r : Router} {route : Option String} {stays : Bool} {table : σ}
    {ledger : Ledger} (hhad : res.router.route? claim.group claim.claimant d = route)
    (hroute : ∀ m j e, r.route? m j e =
      if m = claim.group ∧ j = claim.claimant ∧ e = d then (if stays then route else none)
      else res.router.route? m j e)
    (hwithdrawal : Withdrawal T claim d res.table res.ledger.attempts route stays table
      ledger.attempts) : Effect T res ⟨r, table, ledger⟩ := by
  have hsame : (if stays then route else none) = route → ∀ m j e,
      r.route? m j e = res.router.route? m j e := by
    intro hstays m j e
    rw [hroute]
    split
    case isTrue hkey =>
      obtain ⟨rfl, rfl, rfl⟩ := hkey
      rw [hstays, hhad]
    case isFalse => rfl
  rcases ledger with ⟨attempts, outcomes, changes⟩
  simp only at hwithdrawal
  cases hwithdrawal with
  | absent => exact .quiet (hsame rfl) rfl rfl
  | removed hcall => exact .removed hhad hcall hroute rfl
  | failed hcall => exact .failed (hsame rfl) hcall rfl rfl

theorem Disabled.effect (h : Disabled T res d claim res') : Effect T res res' := by
  cases h with
  | @path g connection p stays table ledger hclaimant hgroup hpath hlive hdestination hroute =>
    have hp : res.router.path? claim.group connection = some p :=
      Router.path?_eq_some_iff.2 ⟨g, hgroup, hpath⟩
    refine effect_of_withdrawal ?_ ?_ hroute
    · rw [hclaimant, Router.route?, hp, Option.filter_some, hdestination]
      simp
    · have hlost : ∀ q, some (p.lost stays) = some q → q.destination = p.destination := by
        rintro q ⟨⟩
        rfl
      intro m j e
      rw [Router.route?_putPath_of_get? hgroup hpath hlost, hclaimant, hdestination]
      rfl
  | @service g s stays table ledger hclaimant hgroup hservice hlive hroute =>
    have hs : res.router.service? claim.group d = some s :=
      Router.service?_eq_some_iff.2 ⟨g, hgroup, hservice⟩
    refine effect_of_withdrawal ?_ ?_ hroute
    · rw [hclaimant, Router.route?, hs]
      rfl
    · intro m j e
      rw [Router.route?_putService hgroup, hclaimant]
      cases stays <;> rfl

/-- A resolution records no new route. -/
theorem Effect.route?_ne_none (h : Effect T res res') {n : GroupName} {k : Claimant} {e : Prefix}
    (hroute : res'.router.route? n k e ≠ none) : res.router.route? n k e ≠ none := by
  cases h with
  | quiet hsame | failed hsame => rwa [hsame] at hroute
  | removed _ _ hremoved =>
    rw [hremoved] at hroute
    split at hroute
    · exact absurd rfl hroute
    · exact hroute

/-- A claim that is disabled has no route, unless its removal failed. -/
theorem Disabled.route?_eq_none (h : Disabled T res d claim res')
    (hreleased : ∀ a ∈ res'.ledger.attempts, a.Releases) :
    res'.router.route? claim.group claim.claimant d = none := by
  cases h with
  | path hclaimant hgroup _ _ _ hroute =>
    rw [hclaimant, Router.route?_putPath hgroup, if_pos ⟨rfl, rfl⟩, hroute.not_stays hreleased]
    refine Option.bind_eq_none_iff.2 fun p hp => ?_
    cases (Option.filter_eq_some_iff.1 hp).1
    rfl
  | service hclaimant hgroup _ _ hroute =>
    rw [hclaimant, Router.route?_putService hgroup, if_pos ⟨rfl, rfl, rfl⟩,
      hroute.not_stays hreleased]
    rfl

theorem Enabled.route?_eq (h : Enabled res d claim res') (n : GroupName) (k : Claimant)
    (e : Prefix) : res'.router.route? n k e = res.router.route? n k e := by
  cases h with
  | @path g connection p hclaimant hgroup hpath hlive hdestination =>
    have hregained : ∀ q, some p.regained = some q → q.destination = p.destination := by
      rintro q ⟨⟩
      rfl
    rw [Router.route?_putPath_of_get? hgroup hpath hregained]
    split
    case isTrue hkey =>
      obtain ⟨rfl, rfl, rfl⟩ := hkey
      have hp : res.router.path? claim.group connection = some p :=
        Router.path?_eq_some_iff.2 ⟨g, hgroup, hpath⟩
      rw [Router.route?, hp, Option.filter_some]
      simp [Path.regained]
    case isFalse => rfl
  | @service g s hclaimant hgroup hservice hlive =>
    rw [Router.route?_putService hgroup]
    split
    case isTrue hkey =>
      obtain ⟨rfl, rfl, rfl⟩ := hkey
      rw [Router.route?, Router.service?_of_get? hgroup, hservice]
      rfl
    case isFalse => rfl

theorem Enabled.table_eq (h : Enabled res d claim res') : res'.table = res.table := by
  cases h <;> rfl

theorem Enabled.effect (h : Enabled res d claim res') : Effect T res res' := by
  have hroute := h.route?_eq
  cases h with
  | path => exact .quiet hroute rfl rfl
  | service => exact .quiet hroute rfl rfl

end Resolution

/-! ## Resolutions -/

namespace Router

/-- The claims to disable, each with its prefix and the group that keeps the prefix. -/
def toDisable (r : Router) : List (Prefix × Claim × GroupName) :=
  (r.contests.entries.map fun e => (e.1, settleClaims e.2)).flatMap fun v =>
    v.2.disable.map fun d => (v.1, d)

/-- The claims to enable, each with its prefix. -/
def toEnable (r : Router) : List (Prefix × Claim) :=
  (r.contests.entries.map fun e => (e.1, settleClaims e.2)).flatMap fun v =>
    v.2.enable.map fun c => (v.1, c)

theorem resolve_eq (T : RouteTable σ) (r : Router) (table : σ) (ledger : Ledger) :
    r.resolve T table ledger =
      (r.toDisable.length + r.toEnable.length,
        r.toEnable.foldl (fun res c => res.enable c.1 c.2)
          (r.toDisable.foldl (fun res d => res.disable T d.1 d.2.1 d.2.2)
            ⟨r, table, ledger⟩)) := rfl

variable {r : Router}

theorem mem_toDisable_iff {d : Prefix} {c : Claim} {n : GroupName} :
    (d, c, n) ∈ r.toDisable ↔ ∃ cs w, r.contests.get? d = some cs ∧ winner cs = some w ∧
      c ∈ rivals cs w.group ∧ n = w.group := by
  simp only [toDisable, List.mem_flatMap, List.mem_map, Prod.exists, Prod.mk.injEq]
  constructor
  · rintro ⟨_, _, ⟨e, cs, he, rfl, rfl⟩, c', n', hmem, rfl, rfl, rfl⟩
    have hget := OrderedMap.get?_eq_some_iff.2 he
    obtain ⟨w, hw⟩ := Option.ne_none_iff_exists'.1 (mt winner_eq_none_iff.1 (contest_ne_nil hget))
    rw [settleClaims_of_winner hw] at hmem
    obtain ⟨c'', hc, heq⟩ := List.mem_map.1 hmem
    cases heq
    exact ⟨cs, w, hget, hw, hc, rfl⟩
  · rintro ⟨cs, w, hget, hw, hc, rfl⟩
    refine ⟨d, settleClaims cs, ⟨d, cs, OrderedMap.get?_eq_some_iff.1 hget, rfl, rfl⟩, c, _, ?_,
      rfl, rfl, rfl⟩
    rw [settleClaims_of_winner hw]
    exact List.mem_map.2 ⟨c, hc, rfl⟩

theorem mem_toEnable_iff {d : Prefix} {c : Claim} :
    (d, c) ∈ r.toEnable ↔ ∃ cs w, r.contests.get? d = some cs ∧ winner cs = some w ∧
      rivals cs w.group = [] ∧ c ∈ cs ∧ c.disabled = true ∧ c.group = w.group := by
  simp only [toEnable, List.mem_flatMap, List.mem_map, Prod.exists, Prod.mk.injEq]
  constructor
  · rintro ⟨_, _, ⟨e, cs, he, rfl, rfl⟩, c', hmem, rfl, rfl⟩
    have hget := OrderedMap.get?_eq_some_iff.2 he
    obtain ⟨w, hw⟩ := Option.ne_none_iff_exists'.1 (mt winner_eq_none_iff.1 (contest_ne_nil hget))
    rw [settleClaims_of_winner hw] at hmem
    by_cases hrivals : rivals cs w.group = []
    · simp only [if_pos hrivals, List.mem_filter, Bool.and_eq_true, decide_eq_true_eq] at hmem
      exact ⟨cs, w, hget, hw, hrivals, hmem.1, hmem.2.1, hmem.2.2⟩
    · simp [if_neg hrivals] at hmem
  · rintro ⟨cs, w, hget, hw, hrivals, hc, hdisabled, hgroup⟩
    refine ⟨d, settleClaims cs, ⟨d, cs, OrderedMap.get?_eq_some_iff.1 hget, rfl, rfl⟩, c, ?_,
      rfl, rfl⟩
    rw [settleClaims_of_winner hw]
    simp [hrivals, hc, hdisabled, hgroup]

/-- What every step keeps, a resolution keeps; the invariant may speak of the steps to come. -/
theorem resolve_induction (T : RouteTable σ) (table : σ) (ledger : Ledger) (hk : r.Keyed)
    {Q : List (Prefix × Claim × GroupName) → List (Prefix × Claim) → Resolution σ → Prop}
    (hstart : Q r.toDisable r.toEnable ⟨r, table, ledger⟩)
    (hdisable : ∀ i is js res res', Q (i :: is) js res → res.router.Keyed →
      Resolution.Disabled T res i.1 i.2.1 res' → Q is js res')
    (henable : ∀ j js res res', Q [] (j :: js) res → res.router.Keyed →
      Resolution.Enabled res j.1 j.2 res' → Q [] js res') :
    Q [] [] (r.resolve T table ledger).2 := by
  let Stands (is : List (Prefix × Claim × GroupName)) (js : List (Prefix × Claim))
      (res : Resolution σ) : Prop :=
    res.router.Keyed ∧ (∀ i ∈ is, res.router.claim? i.2.1.group i.2.1.claimant i.1 ≠ none) ∧
      ∀ j ∈ js, res.router.claim? j.2.group j.2.claimant j.1 ≠ none
  have hstays : ∀ {a b : Option Claim} {f : Claim → Claim},
      a.map Claim.bare = b.map f → b ≠ none → a ≠ none := by
    rintro a (_ | b) f h hb rfl
    · exact hb rfl
    · cases h
  have hstands : Stands r.toDisable r.toEnable ⟨r, table, ledger⟩ := by
    refine ⟨hk, ?_, ?_⟩
    · rintro ⟨d, c, n⟩ hi
      obtain ⟨cs, w, hcs, -, hc, -⟩ := mem_toDisable_iff.1 hi
      have hclaimed := mem_contest_iff.1 ⟨cs, hcs, (mem_rivals_iff.1 hc).1⟩
      rw [(claimed_iff hk).1 hclaimed]
      exact Option.some_ne_none c
    · rintro ⟨d, c⟩ hj
      obtain ⟨cs, w, hcs, -, -, hc, -⟩ := mem_toEnable_iff.1 hj
      have hclaimed := mem_contest_iff.1 ⟨cs, hcs, hc⟩
      rw [(claimed_iff hk).1 hclaimed]
      exact Option.some_ne_none c
  have hdisables : ∀ is js (res : Resolution σ), Stands is js res → Q is js res →
      Stands [] js (is.foldl (fun res d => res.disable T d.1 d.2.1 d.2.2) res) ∧
        Q [] js (is.foldl (fun res d => res.disable T d.1 d.2.1 d.2.2) res) := by
    intro is js
    induction is with
    | nil => exact fun _ hs hq => ⟨hs, hq⟩
    | cons i is ih =>
      rintro res ⟨hkeyed, his, hjs⟩ hq
      have hstep := Resolution.disable_disabled T i.2.2 (his i List.mem_cons_self)
      refine ih _ ⟨hstep.keyed hkeyed, ?_, ?_⟩ (hdisable i is js _ _ hq hkeyed hstep)
      · intro i' hi'
        exact hstays (hstep.claim?_bare ..) (his i' (List.mem_cons_of_mem i hi'))
      · intro j hj
        exact hstays (hstep.claim?_bare ..) (hjs j hj)
  have henables : ∀ js (res : Resolution σ), Stands [] js res → Q [] js res →
      Q [] [] (js.foldl (fun res c => res.enable c.1 c.2) res) := by
    intro js
    induction js with
    | nil => exact fun _ _ hq => hq
    | cons j js ih =>
      rintro res ⟨hkeyed, -, hjs⟩ hq
      have hstep := Resolution.enable_enabled (hjs j List.mem_cons_self)
      refine ih _ ⟨hstep.keyed hkeyed, by simp, ?_⟩ (henable j js _ _ hq hkeyed hstep)
      intro j' hj'
      exact hstays (hstep.claim?_bare ..) (hjs j' (List.mem_cons_of_mem j hj'))
  rw [resolve_eq]
  obtain ⟨hs, hq⟩ := hdisables _ _ _ hstands hstart
  exact henables _ _ hs hq

theorem keyed_resolve {T : RouteTable σ} {table : σ} {ledger : Ledger} (hk : r.Keyed) :
    (r.resolve T table ledger).2.router.Keyed :=
  resolve_induction T table ledger hk (Q := fun _ _ res => res.router.Keyed) hk
    (fun _ _ _ _ _ h _ hstep => hstep.keyed h) fun _ _ _ _ h _ hstep => hstep.keyed h

/-- Which claims are disabled after a resolution: those that are disabled in it and those that were
before, unless they are enabled in it. -/
theorem claim?_resolve (T : RouteTable σ) (table : σ) (ledger : Ledger) (hk : r.Keyed)
    (n : GroupName) (k : Claimant) (d : Prefix) :
    ((r.resolve T table ledger).2.router.claim? n k d).map Claim.bare =
      (r.claim? n k d).map fun c =>
        { c.bare with
          disabled :=
            (c.disabled ||
              r.toDisable.any fun i => n = i.2.1.group ∧ k = i.2.1.claimant ∧ d = i.1) &&
              !r.toEnable.any fun j => n = j.2.group ∧ k = j.2.claimant ∧ d = j.1 } := by
  let effect (is : List (Prefix × Claim × GroupName)) (js : List (Prefix × Claim)) (c : Claim) :
      Claim :=
    { c.bare with
      disabled :=
        (c.disabled || is.any fun i => n = i.2.1.group ∧ k = i.2.1.claimant ∧ d = i.1) &&
          !js.any fun j => n = j.2.group ∧ k = j.2.claimant ∧ d = j.1 }
  have hbare : ∀ is js (o : Option Claim), (o.map Claim.bare).map (effect is js) =
      o.map (effect is js) := by
    rintro is js (_ | c) <;> rfl
  have h := resolve_induction T table ledger hk
    (Q := fun is js res => (res.router.claim? n k d).map (effect is js) =
      (r.claim? n k d).map (effect r.toDisable r.toEnable)) rfl ?_ ?_
  · refine Eq.trans ?_ h
    cases (r.resolve T table ledger).2.router.claim? n k d <;> simp [effect, Claim.bare]
  · intro i is js res res' hq _ hstep
    rw [← hq, ← hbare, hstep.claim?_bare, Option.map_map]
    congr 1
    funext c
    by_cases hkey : n = i.2.1.group ∧ k = i.2.1.claimant ∧ d = i.1
    · simp [effect, hkey, Claim.bare]
    · simp only [effect, Function.comp, List.any_cons, if_neg hkey, decide_eq_false hkey,
        Bool.false_or]
      rfl
  · intro j js res res' hq _ hstep
    rw [← hq, ← hbare, hstep.claim?_bare, Option.map_map]
    congr 1
    funext c
    by_cases hkey : n = j.2.group ∧ k = j.2.claimant ∧ d = j.1
    · simp [effect, hkey, Claim.bare]
    · simp only [effect, Function.comp, List.any_cons, if_neg hkey, decide_eq_false hkey,
        Bool.false_or]
      rfl

/-- After a resolution, of the claims to a prefix those are disabled that the winner's group does
not make, and of its own those that had to wait for rivals to go. -/
theorem claim?_resolve_of_winner (T : RouteTable σ) (table : σ) (ledger : Ledger) (hk : r.Keyed)
    {d : Prefix} {cs : List Claim} {w : Claim} (hcs : r.contests.get? d = some cs)
    (hw : winner cs = some w) {n : GroupName} {k : Claimant} {c : Claim}
    (hc : r.claim? n k d = some c) :
    ((r.resolve T table ledger).2.router.claim? n k d).map Claim.bare =
      some { c.bare with
        disabled := if rivals cs w.group = [] then c.disabled && n ≠ w.group
          else c.disabled || n ≠ w.group } := by
  obtain ⟨rfl, rfl⟩ := eq_of_claim?_eq_some hk hc
  have hmem : c ∈ cs := by
    obtain ⟨cs', hcs', hmem⟩ := mem_contest_iff.2 ((claimed_iff hk).2 hc)
    rw [hcs] at hcs'
    cases hcs'
    exact hmem
  have hsame : ∀ c' : Claim, c' ∈ cs → c.group = c'.group → c.claimant = c'.claimant → c' = c := by
    intro c' hc' hgroup hclaimant
    have hclaimed := (claimed_iff hk).1 (mem_contest_iff.1 ⟨cs, hcs, hc'⟩)
    rw [← hgroup, ← hclaimant, hc] at hclaimed
    exact (Option.some.inj hclaimed).symm
  have hdisable : (r.toDisable.any fun i =>
      c.group = i.2.1.group ∧ c.claimant = i.2.1.claimant ∧ d = i.1) =
        decide (c ∈ rivals cs w.group) := by
    rw [Bool.eq_iff_iff, List.any_eq_true, decide_eq_true_iff]
    constructor
    · rintro ⟨⟨d', c', n⟩, hi, hkey⟩
      obtain ⟨hgroup, hclaimant, rfl⟩ := of_decide_eq_true hkey
      obtain ⟨cs', w', hcs', hw', hc', -⟩ := mem_toDisable_iff.1 hi
      rw [hcs] at hcs'
      cases hcs'
      rw [hw] at hw'
      cases hw'
      rwa [hsame c' (mem_rivals_iff.1 hc').1 hgroup hclaimant] at hc'
    · intro h
      exact ⟨(d, c, w.group), mem_toDisable_iff.2 ⟨cs, w, hcs, hw, h, rfl⟩, by simp⟩
  have henable : (r.toEnable.any fun j =>
      c.group = j.2.group ∧ c.claimant = j.2.claimant ∧ d = j.1) =
        decide (rivals cs w.group = [] ∧ c.disabled = true ∧ c.group = w.group) := by
    rw [Bool.eq_iff_iff, List.any_eq_true, decide_eq_true_iff]
    constructor
    · rintro ⟨⟨d', c'⟩, hj, hkey⟩
      obtain ⟨hgroup, hclaimant, rfl⟩ := of_decide_eq_true hkey
      obtain ⟨cs', w', hcs', hw', hnone, hc', hdisabled, hwinner⟩ := mem_toEnable_iff.1 hj
      rw [hcs] at hcs'
      cases hcs'
      rw [hw] at hw'
      cases hw'
      rw [hsame c' hc' hgroup hclaimant] at hdisabled hwinner
      exact ⟨hnone, hdisabled, hwinner⟩
    · rintro ⟨hnone, hdisabled, hwinner⟩
      exact ⟨(d, c), mem_toEnable_iff.2 ⟨cs, w, hcs, hw, hnone, hmem, hdisabled, hwinner⟩, by simp⟩
  rw [claim?_resolve T table ledger hk, hc, Option.map_some, hdisable, henable]
  simp only [mem_rivals_iff, hmem, true_and]
  by_cases hnone : rivals cs w.group = []
  · have hrival : ¬ (c.disabled = false ∧ c.group ≠ w.group) := by
      intro h
      have := mem_rivals_iff.2 ⟨hmem, h.1, h.2⟩
      rw [hnone] at this
      exact absurd this List.not_mem_nil
    cases hdisabled : c.disabled <;> by_cases hgroup : c.group = w.group <;>
      simp_all
  · cases hdisabled : c.disabled <;> by_cases hgroup : c.group = w.group <;>
      simp [hnone, hgroup]

theorem claim?_resolve_eq_none_iff (T : RouteTable σ) (table : σ) (ledger : Ledger) (hk : r.Keyed)
    {n : GroupName} {k : Claimant} {d : Prefix} :
    (r.resolve T table ledger).2.router.claim? n k d = none ↔ r.claim? n k d = none := by
  have h := claim?_resolve T table ledger hk n k d
  cases hr : r.claim? n k d <;> rw [hr] at h
  · simpa using h
  · obtain ⟨c, hc, -⟩ := Option.map_eq_some_iff.1 h
    simp [hc]

end Router

end RouteKeeper
