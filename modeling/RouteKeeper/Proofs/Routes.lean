import RouteKeeper.Proofs.Claims

/-!
# Recorded routes

A router records for each path and service the interface of the route that it has. Seen through
these records, a turn does one of four things: nothing, an attempt that fails, taking one route
away, or putting one in place.

## Main definitions

* `Router.route?` — the interface of the route that a path or service has for a prefix.
* `Router.Due` — a claim is to have a route.
* `Stage.Effect` — what a turn does with the records, the table and the owners.
* `Stage.EffectAt` — the same, seen from one prefix.

## Main statements

* `Stage.Turned.effect` — the effect of a turn.
-/
namespace RouteKeeper

variable {σ : Type}

namespace Router

/-- The interface of the route that a path or a service of a group has for a prefix. -/
def route? (r : Router) (n : GroupName) (k : Claimant) (d : Prefix) : Option String :=
  match k with
  | .path c => ((r.path? n c).filter fun p => p.destination = d).bind Path.installed
  | .service => (r.service? n d).bind fun s => s.active.map fun route => route.hop.interface

variable {r : Router} {n : GroupName} {d : Prefix}

theorem route?_path_eq_some_iff {c : ConnectionName} {interface : String} :
    r.route? n (.path c) d = some interface ↔
      ∃ p, r.path? n c = some p ∧ p.destination = d ∧ p.installed = some interface := by
  simp only [route?, Option.bind_eq_some_iff, Option.filter_eq_some_iff, decide_eq_true_eq]
  constructor
  · rintro ⟨p, ⟨hp, hd⟩, hi⟩
    exact ⟨p, hp, hd, hi⟩
  · rintro ⟨p, hp, hd, hi⟩
    exact ⟨p, ⟨hp, hd⟩, hi⟩

theorem route?_service_eq_some_iff {interface : String} :
    r.route? n .service d = some interface ↔
      ∃ s route, r.service? n d = some s ∧ s.active = some route ∧
        route.hop.interface = interface := by
  simp only [route?, Option.bind_eq_some_iff, Option.map_eq_some_iff]
  constructor
  · rintro ⟨s, hs, route, hroute, hi⟩
    exact ⟨s, route, hs, hroute, hi⟩
  · rintro ⟨s, route, hs, hroute, hi⟩
    exact ⟨s, hs, route, hroute, hi⟩

/-- A group has a route for a prefix through one of its paths or its service. -/
theorem records_iff : r.Records n d ↔ ∃ k, r.route? n k d ≠ none := by
  constructor
  · rintro (⟨c, p, hp, hi, hd⟩ | ⟨s, hs, ha⟩)
    · obtain ⟨interface, hi⟩ := Option.isSome_iff_exists.1 hi
      exact ⟨.path c, by simp [route?_path_eq_some_iff.2 ⟨p, hp, hd, hi⟩]⟩
    · obtain ⟨route, ha⟩ := Option.ne_none_iff_exists'.1 ha
      exact ⟨.service, by simp [route?_service_eq_some_iff.2 ⟨s, route, hs, ha, rfl⟩]⟩
  · rintro ⟨k, hk⟩
    obtain ⟨interface, hi⟩ := Option.ne_none_iff_exists'.1 hk
    cases k with
    | path c =>
      obtain ⟨p, hp, hd, hi⟩ := route?_path_eq_some_iff.1 hi
      exact .inl ⟨c, p, hp, by simp [Path.isInstalled, hi], hd⟩
    | service =>
      obtain ⟨s, route, hs, ha, -⟩ := route?_service_eq_some_iff.1 hi
      exact .inr ⟨s, hs, by simp [ha]⟩

/-! ## Records after changes -/

section PutGroup

variable {name : GroupName} {g : Group}

theorem route?_putPath (h : r.groups.get? name = some g) (connection : ConnectionName)
    (kept : Option Path) (n : GroupName) (k : Claimant) (d : Prefix) :
    (r.putGroup name { g with paths := g.paths.put connection kept }).route? n k d =
      if n = name ∧ k = .path connection then
        (kept.filter fun p => p.destination = d).bind Path.installed
      else r.route? n k d := by
  cases k with
  | path c =>
    simp only [route?, path?_putPath h, Claimant.path.injEq]
    split <;> rfl
  | service => simp [route?, service?_putPath h]

theorem route?_putService (h : r.groups.get? name = some g) (destination : Prefix)
    (kept : Option Service) (n : GroupName) (k : Claimant) (d : Prefix) :
    (r.putGroup name { g with services := g.services.put destination kept }).route? n k d =
      if n = name ∧ k = .service ∧ d = destination then
        kept.bind fun s => s.active.map fun route => route.hop.interface
      else r.route? n k d := by
  cases k with
  | path c => simp [route?, path?_putService h]
  | service =>
    simp only [route?, service?_putService h, true_and]
    split <;> rfl

theorem route?_reselect (h : r.groups.get? name = some g) (n : GroupName) (k : Claimant)
    (d : Prefix) : (r.putGroup name g.reselect).route? n k d = r.route? n k d := by
  cases k with
  | path c => simp only [route?, path?_reselect h]
  | service => simp only [route?, service?_reselect h]

/-- Changing a path changes the record that it has for its own prefix. -/
theorem route?_putPath_of_get? (h : r.groups.get? name = some g) {connection : ConnectionName}
    {path : Path} (hpath : g.paths.get? connection = some path) {kept : Option Path}
    (hkept : ∀ p, kept = some p → p.destination = path.destination) (n : GroupName) (k : Claimant)
    (d : Prefix) :
    (r.putGroup name { g with paths := g.paths.put connection kept }).route? n k d =
      if n = name ∧ k = .path connection ∧ d = path.destination then kept.bind Path.installed
      else r.route? n k d := by
  rw [route?_putPath h]
  by_cases hkey : n = name ∧ k = .path connection
  · obtain ⟨rfl, rfl⟩ := hkey
    rw [if_pos ⟨rfl, rfl⟩, route?, path?_of_get? h, hpath, Option.filter_some]
    cases kept with
    | none =>
      by_cases hd : path.destination = d
      · simp [hd]
      · simp [hd, Ne.symm hd]
    | some p =>
      rw [Option.filter_some, hkept p rfl]
      by_cases hd : path.destination = d
      · simp [hd]
      · simp [hd, Ne.symm hd]
  · have hkey' : ¬ (n = name ∧ k = .path connection ∧ d = path.destination) :=
      fun h => hkey ⟨h.1, h.2.1⟩
    rw [if_neg hkey, if_neg hkey']

end PutGroup

end Router

/-! ## Effects of turns -/

/-- The turn of a path or a service. -/
def Claimant.turn (k : Claimant) (n : GroupName) (d : Prefix) : Turn :=
  match k with
  | .path c => .path n c
  | .service => .service n d

namespace Router

variable {r : Router} {n : GroupName} {d : Prefix}

/-- The connection that the latest selection of a group assigns to a service. -/
def assigned? (r : Router) (n : GroupName) (d : Prefix) : Option ConnectionName :=
  (r.groups.get? n).bind fun g => (g.services.get? d).bind g.desired

/-- A claim is to have a route: it is enabled, and to a service a connection is assigned. -/
def Due (r : Router) (n : GroupName) (k : Claimant) (d : Prefix) : Prop :=
  (∃ c, r.claim? n k d = some c ∧ c.disabled = false) ∧ (k = .service → r.assigned? n d ≠ none)

theorem assigned?_of_get? {g : Group} {s : Service} (hgroup : r.groups.get? n = some g)
    (hservice : g.services.get? d = some s) : r.assigned? n d = g.desired s := by
  simp [assigned?, hgroup, hservice]

theorem due_path_iff {c : ConnectionName} {p : Path} (hp : r.path? n c = some p) :
    r.Due n (.path c) p.destination ↔
      p.flags.pendingDelete = false ∧ p.flags.disabled = false := by
  constructor
  · rintro ⟨⟨claim, hclaim, henabled⟩, -⟩
    obtain ⟨p', hp', hlive, -, rfl⟩ := claim?_path_eq_some_iff.1 hclaim
    rw [hp] at hp'
    cases hp'
    exact ⟨hlive, henabled⟩
  · rintro ⟨hlive, henabled⟩
    exact ⟨⟨_, claim?_path_eq_some_iff.2 ⟨p, hp, hlive, rfl, rfl⟩, henabled⟩,
      fun h => by cases h⟩

theorem due_service_iff {g : Group} {s : Service} (hgroup : r.groups.get? n = some g)
    (hservice : g.services.get? d = some s) :
    r.Due n .service d ↔ s.isCleared = false ∧ s.disabled = false ∧ g.desired s ≠ none := by
  have hs : r.service? n d = some s := service?_eq_some_iff.2 ⟨g, hgroup, hservice⟩
  rw [Due, assigned?_of_get? hgroup hservice]
  constructor
  · rintro ⟨⟨c, hc, henabled⟩, hne⟩
    obtain ⟨s', hs', hcleared, rfl⟩ := claim?_service_eq_some_iff.1 hc
    rw [hs] at hs'
    cases hs'
    exact ⟨hcleared, henabled, hne rfl⟩
  · rintro ⟨hcleared, henabled, hne⟩
    exact ⟨⟨_, claim?_service_eq_some_iff.2 ⟨s, hs, hcleared, rfl⟩, henabled⟩, fun _ => hne⟩

theorem not_due_service_iff {g : Group} {s : Service} (hgroup : r.groups.get? n = some g)
    (hservice : g.services.get? d = some s) :
    ¬ r.Due n .service d ↔ s.isCleared = true ∨ s.disabled = true ∨ g.desired s = none := by
  rw [due_service_iff hgroup hservice, not_and_or, not_and_or, Bool.not_eq_false,
    Bool.not_eq_false, not_not]

end Router

namespace Stage

/-- The failing call of an attempt. -/
inductive FailedCall (T : RouteTable σ) (managed : List String) (d : Prefix) (table : σ)
    (e : Error) (table' : σ) : Action → Prop
  | remove {interface : String} (hcall : T.remove d interface table = (.error e, table')) :
    FailedCall T managed d table e table' (.remove interface)
  | install {hop : Hop} (hcall : install T managed d hop table = (.error e, table')) :
    FailedCall T managed d table e table' (.install hop)
  | replace {hop : Hop} (hcall : T.replace d hop table = (.error e, table')) :
    FailedCall T managed d table e table' (.install hop)

/-- What a turn does with the records, the table and the owners. -/
inductive Effect (T : RouteTable σ) (managed : List String) (turn : Turn) (s s' : Stage σ) : Prop
  | quiet (hroute : ∀ n k d, s'.router.route? n k d = s.router.route? n k d)
    (hpass : s'.pass = s.pass)
  | failed {a : Attempt} {e : Error}
    (hroute : ∀ n k d, s'.router.route? n k d = s.router.route? n k d)
    (hcall : FailedCall T managed a.destination s.pass.table e s'.pass.table a.action)
    (howners : s'.pass.owners = s.pass.owners)
    (hattempts : s'.pass.ledger.attempts = a :: s.pass.ledger.attempts) (herror : a.error = some e)
  /-- A route is taken away that is not due: of a path only if it is to be removed. -/
  | removed {n : GroupName} {k : Claimant} {d : Prefix} {i : String} (hturn : turn = k.turn n d)
    (hhad : s.router.route? n k d = some i) (hcause : ¬ s.router.Due n k d)
    (hpath : k ≠ .service → s.router.claim? n k d = none)
    (hcall : T.remove d i s.pass.table = (.ok (), s'.pass.table))
    (hroute : ∀ m j e, s'.router.route? m j e =
      if m = n ∧ j = k ∧ e = d then none else s.router.route? m j e)
    (howners : ∀ e, s'.pass.owners.get? e =
      if e = d ∧ s.pass.owners.get? e = some n then none else s.pass.owners.get? e)
    (hattempts : s'.pass.ledger.attempts =
      ⟨n, k, d, .remove i, none⟩ :: s.pass.ledger.attempts)
  /-- A route is put in place that is due, against another owner only where there was one before. -/
  | placed {n : GroupName} {k : Claimant} {d : Prefix} {h : Hop} (hturn : turn = k.turn n d)
    (hdue : s.router.Due n k d)
    (hfree : s.pass.isBlocked d n = false ∨ s.router.route? n k d ≠ none)
    (hcall : (∃ outcome, install T managed d h s.pass.table = (.ok outcome, s'.pass.table)) ∨
      T.replace d h s.pass.table = (.ok (), s'.pass.table))
    (hroute : ∀ m j e, s'.router.route? m j e =
      if m = n ∧ j = k ∧ e = d then some h.interface else s.router.route? m j e)
    (howners : s'.pass.owners = s.pass.owners.insert d n)
    (hattempts : s'.pass.ledger.attempts =
      ⟨n, k, d, .install h, none⟩ :: s.pass.ledger.attempts)

variable {T : RouteTable σ} {managed : List String} {s : Stage σ}

/-- The effect of a path's turn. -/
theorem effect_path (hk : s.router.Keyed) {name : GroupName} {g : Group}
    {connection : ConnectionName} {path : Path} {kept : Option Path} {pass : Pass σ}
    (hgroup : s.router.groups.get? name = some g) (hpath : g.paths.get? connection = some path)
    (hturn : PathTurn T managed g.name s.pass path kept pass) :
    Effect T managed (.path name connection) s
      ⟨s.router.putGroup name { g with paths := g.paths.put connection kept }, pass⟩ := by
  have hp : s.router.path? name connection = some path :=
    Router.path?_eq_some_iff.2 ⟨g, hgroup, hpath⟩
  have hname := hk.name hgroup
  have hconnection := hk.connection hp
  subst hname hconnection
  have hkept : ∀ p, kept = some p → p.destination = path.destination := by
    rintro p rfl
    simpa using congrArg Path.destination hturn.bare_eq
  have hroute := Router.route?_putPath_of_get? hgroup hpath hkept
  have hhad : s.router.route? g.name (.path path.connection) path.destination = path.installed := by
    simp [Router.route?, hp, Option.filter_some]
  have hsame : kept.bind Path.installed = path.installed → ∀ n k d,
      (s.router.putGroup g.name { g with paths := g.paths.put path.connection kept }).route? n k d =
        s.router.route? n k d := by
    intro hinstalled n k d
    rw [hroute]
    split
    case isTrue hkey =>
      obtain ⟨rfl, rfl, rfl⟩ := hkey
      rw [hinstalled, hhad]
    case isFalse => rfl
  cases hturn with
  | drop hdelete hnone => exact .quiet (hsame hnone.symm) rfl
  | @remove interface table hdelete hinstalled hcall =>
    have hgone : s.router.claim? g.name (.path path.connection) path.destination = none := by
      simp [Router.claim?, hp, Option.filter_some, hdelete]
    refine .removed (n := g.name) (k := .path path.connection) (d := path.destination) rfl
      (hhad.trans hinstalled) ?_ (fun _ => hgone) ?_ hroute ?_ ?_
    · rintro ⟨⟨c, hc, -⟩, -⟩
      rw [hgone] at hc
      cases hc
    · simpa using hcall
    · intro e
      rw [Pass.get?_owners_disown, Pass.owners_tried]
    · simp
  | removeFailed hdelete hinstalled hcall =>
    refine .failed (hsame rfl) (.remove ?_) (by simp) (Pass.attempts_tried_error ..) rfl
    simpa using hcall
  | idle hdelete hidle => exact .quiet (hsame rfl) rfl
  | @install outcome table hdelete henabled hwaits hfree hcall =>
    have hdue := (Router.due_path_iff hp).2 ⟨hdelete, henabled⟩
    refine .placed (n := g.name) (k := .path path.connection) (d := path.destination)
      (h := ⟨path.interface, path.spec.gateway⟩) rfl hdue (.inl hfree) (.inl ⟨outcome, ?_⟩) hroute
      ?_ ?_
    · simpa using hcall
    · simp
    · simp
  | installFailed hdelete henabled hwaits hfree hcall =>
    refine .failed (hsame rfl) (.install ?_) (by simp) (Pass.attempts_tried_error ..) rfl
    simpa using hcall

/-- The effect of a service's turn. -/
theorem effect_service (hk : s.router.Keyed) {name : GroupName} {g : Group} {destination : Prefix}
    {service : Service} {kept : Option Service} {pass : Pass σ}
    (hgroup : s.router.groups.get? name = some g)
    (hservice : g.services.get? destination = some service)
    (hturn : ServiceTurn T managed g s.pass service kept pass) :
    Effect T managed (.service name destination) s
      ⟨s.router.putGroup name { g with services := g.services.put destination kept }, pass⟩ := by
  have hs : s.router.service? name destination = some service :=
    Router.service?_eq_some_iff.2 ⟨g, hgroup, hservice⟩
  have hname := hk.name hgroup
  have hdestination := hk.destination hs
  subst hname hdestination
  have hroute := Router.route?_putService hgroup service.destination kept
  have hhad : s.router.route? g.name .service service.destination =
      service.active.map fun route => route.hop.interface := by
    simp [Router.route?, hs]
  have hsame : (kept.bind fun s => s.active.map fun route => route.hop.interface) =
      (service.active.map fun route => route.hop.interface) → ∀ n k d,
      (s.router.putGroup g.name
        { g with services := g.services.put service.destination kept }).route? n k d =
        s.router.route? n k d := by
    intro hactive n k d
    rw [hroute]
    split
    case isTrue hkey =>
      obtain ⟨rfl, rfl, rfl⟩ := hkey
      rw [hactive, hhad]
    case isFalse => rfl
  have hdue := Router.due_service_iff hgroup hservice
  cases hturn with
  | keep hplan => exact .quiet (hsame (service.bind_active_settle _)) rfl
  | blocked hplan hblocked => exact .quiet (hsame rfl) rfl
  | @clear route table hplan hcall =>
    obtain ⟨hactive, hcause⟩ := Service.plan_eq_clear_iff.1 hplan
    refine .removed (n := g.name) (k := .service) (d := service.destination)
      (i := route.hop.interface) rfl ?_ ?_ (fun h => absurd rfl h) ?_ ?_ ?_ ?_
    · rw [hhad, hactive]
      rfl
    · exact (Router.not_due_service_iff hgroup hservice).2 hcause
    · simpa using hcall
    · intro m j e
      rw [hroute, Service.bind_active_settle]
      rfl
    · intro e
      exact get?_owners_finishService_none ..
    · simp
  | clearFailed hplan hcall =>
    refine .failed (hsame rfl) (.remove ?_) (by simp) (Pass.attempts_tried_error ..) rfl
    simpa using hcall
  | @install target route outcome table hplan hthrough hfree hcall =>
    obtain ⟨-, hcleared, henabled, hdesired⟩ := Service.plan_eq_install_iff.1 hplan
    refine .placed (n := g.name) (k := .service) (d := service.destination) (h := route.hop) rfl
      (hdue.2 ⟨hcleared, henabled, by simp [hdesired]⟩) (.inl hfree) (.inl ⟨outcome, ?_⟩) ?_ ?_ ?_
    · simpa using hcall
    · intro m j e
      rw [hroute, Service.bind_active_settle]
      rfl
    · exact owners_finishService_some ..
    · simp
  | installFailed hplan hthrough hfree hcall =>
    refine .failed (hsame rfl) (.install ?_) (by simp) (Pass.attempts_tried_error ..) rfl
    simpa using hcall
  | @move target route table hplan hthrough hcall =>
    obtain ⟨⟨old, hactive, -⟩, hcleared, henabled, hdesired⟩ := Service.plan_eq_move_iff.1 hplan
    refine .placed (n := g.name) (k := .service) (d := service.destination) (h := route.hop) rfl
      (hdue.2 ⟨hcleared, henabled, by simp [hdesired]⟩) (.inr ?_) (.inr ?_) ?_ ?_ ?_
    · rw [hhad, hactive]
      exact Option.some_ne_none _
    · simpa using hcall
    · intro m j e
      rw [hroute, Service.bind_active_settle]
      rfl
    · exact owners_finishService_some ..
    · simp
  | moveFailed hplan hthrough hcall =>
    refine .failed (hsame rfl) (.replace ?_) (by simp) (Pass.attempts_tried_error ..) rfl
    simpa using hcall

/-- The effect of a turn. -/
theorem Turned.effect {s' : Stage σ} {turn : Turn} (h : Turned T managed s turn s')
    (hk : s.router.Keyed) : Effect T managed turn s s' := by
  cases h with
  | noPath | noGroup | noService => exact .quiet (fun _ _ _ => rfl) rfl
  | select hgroup => exact .quiet (Router.route?_reselect hgroup) rfl
  | path hgroup hpath hturn => exact effect_path hk hgroup hpath hturn
  | service hgroup hservice hturn => exact effect_service hk hgroup hservice hturn

/-- The turns of others leave the route of an entry. -/
theorem Turned.route?_of_ne {s' : Stage σ} {turn : Turn} (h : Turned T managed s turn s')
    {n : GroupName} {k : Claimant} {d : Prefix} (hne : turn ≠ k.turn n d) :
    s'.router.route? n k d = s.router.route? n k d := by
  cases k with
  | path c => rw [Router.route?, Router.route?, h.path?_of_ne hne]
  | service => rw [Router.route?, Router.route?, h.service?_of_ne hne]

/-- The turns of others leave the claim of an entry. -/
theorem Turned.claim?_of_ne {s' : Stage σ} {turn : Turn} (h : Turned T managed s turn s')
    {n : GroupName} {k : Claimant} {d : Prefix} (hne : turn ≠ k.turn n d) :
    s'.router.claim? n k d = s.router.claim? n k d := by
  cases k with
  | path c => rw [Router.claim?, Router.claim?, h.path?_of_ne hne]
  | service => rw [Router.claim?, Router.claim?, h.service?_of_ne hne]

/-! ### Turns of claims that are due -/

/-- The turn of a path that is due. -/
theorem Turned.exists_path_of_due {s' : Stage σ} {n : GroupName} {c : ConnectionName} {d : Prefix}
    (h : Turned T managed s (.path n c) s') (hk : s.router.Keyed)
    (hdue : s.router.Due n (.path c) d) :
    ∃ p kept, s.router.path? n c = some p ∧ p.connection = c ∧ p.destination = d ∧
      p.flags.pendingDelete = false ∧ p.flags.disabled = false ∧
      PathTurn T managed n s.pass p kept s'.pass ∧ s'.router.path? n c = kept := by
  obtain ⟨⟨claim, hclaim, henabled⟩, -⟩ := hdue
  obtain ⟨p, hp, hlive, hd, rfl⟩ := Router.claim?_path_eq_some_iff.1 hclaim
  rcases h.path_cases hk with ⟨hnone, -⟩ | ⟨p₀, kept, hp₀, hturn, hkept⟩
  · rw [hp] at hnone
    cases hnone
  · rw [hp] at hp₀
    cases hp₀
    exact ⟨p, kept, hp, hk.connection hp, hd, hlive, henabled, hturn, hkept⟩

/-- The turn of a service that is due. -/
theorem Turned.exists_service_of_due {s' : Stage σ} {n : GroupName} {d : Prefix}
    (h : Turned T managed s (.service n d) s') (hk : s.router.Keyed)
    (hdue : s.router.Due n .service d) :
    ∃ g service kept target, s.router.groups.get? n = some g ∧ g.name = n ∧
      s.router.service? n d = some service ∧ service.destination = d ∧
      service.isCleared = false ∧ service.disabled = false ∧ g.desired service = some target ∧
      ServiceTurn T managed g s.pass service kept s'.pass ∧ s'.router.service? n d = kept := by
  obtain ⟨⟨claim, hclaim, henabled⟩, hassigned⟩ := hdue
  obtain ⟨service, hs, hcleared, rfl⟩ := Router.claim?_service_eq_some_iff.1 hclaim
  rcases h.service_cases with ⟨hnone, -⟩ | ⟨g, service₀, kept, hgroup, hservice, hturn, hkept⟩
  · rw [hs] at hnone
    cases hnone
  · obtain ⟨target, htarget⟩ := Option.ne_none_iff_exists'.1 (hassigned rfl)
    have hdestination := hk.destination hs
    rw [Router.assigned?_of_get? hgroup hservice] at htarget
    rw [Router.service?_of_get? hgroup, hservice] at hs
    cases hs
    exact ⟨g, service, kept, target, hgroup, hk.name hgroup,
      Router.service?_eq_some_iff.2 ⟨g, hgroup, hservice⟩, hdestination, hcleared, henabled,
      htarget, hturn, hkept⟩

/-! ### Effects seen from one prefix -/

/-- What a turn does with the records and the owner of one prefix. -/
inductive EffectAt (turn : Turn) (d : Prefix) (s s' : Stage σ) : Prop
  | quiet (howner : s'.pass.owners.get? d = s.pass.owners.get? d)
    (hroute : ∀ m j, s'.router.route? m j d = s.router.route? m j d)
    (hfailed : ∀ {a}, s'.pass.ledger.attempts = a :: s.pass.ledger.attempts →
      a.destination = d → a.error ≠ none)
  | removed {n : GroupName} {k : Claimant} {i : String} (hturn : turn = k.turn n d)
    (hhad : s.router.route? n k d = some i) (hcause : ¬ s.router.Due n k d)
    (hpath : k ≠ .service → s.router.claim? n k d = none)
    (howner : s'.pass.owners.get? d =
      if s.pass.owners.get? d = some n then none else s.pass.owners.get? d)
    (hroute : ∀ m j, s'.router.route? m j d =
      if m = n ∧ j = k then none else s.router.route? m j d)
    (hattempts : s'.pass.ledger.attempts =
      ⟨n, k, d, .remove i, none⟩ :: s.pass.ledger.attempts)
  | placed {n : GroupName} {k : Claimant} {h : Hop} (hturn : turn = k.turn n d)
    (hdue : s.router.Due n k d)
    (hfree : s.pass.isBlocked d n = false ∨ s.router.route? n k d ≠ none)
    (howner : s'.pass.owners.get? d = some n)
    (hroute : ∀ m j, s'.router.route? m j d =
      if m = n ∧ j = k then some h.interface else s.router.route? m j d)
    (hattempts : s'.pass.ledger.attempts =
      ⟨n, k, d, .install h, none⟩ :: s.pass.ledger.attempts)

/-- The effect of a turn, seen from one prefix. -/
theorem Turned.effectAt {s' : Stage σ} {turn : Turn} (h : Turned T managed s turn s')
    (hk : s.router.Keyed) (d : Prefix) : EffectAt turn d s s' := by
  cases h.effect hk with
  | quiet hroute hpass =>
    refine .quiet (by rw [hpass]) (fun m j => hroute m j d) fun hattempts => ?_
    rw [hpass] at hattempts
    exact absurd hattempts.symm (List.cons_ne_self _ _)
  | failed hroute _ howners hattempts herror =>
    refine .quiet (by rw [howners]) (fun m j => hroute m j d) fun hattempts' _ => ?_
    rw [hattempts] at hattempts'
    obtain ⟨rfl, -⟩ := List.cons.inj hattempts'
    simp [herror]
  | @removed n k e i hturn hhad hcause hpath _ hroute howners hattempts =>
    by_cases he : d = e
    · subst he
      refine .removed hturn hhad hcause hpath ?_ (fun m j => ?_) hattempts
      · simp [howners]
      · simp [hroute]
    · refine .quiet ?_ (fun m j => ?_) fun hattempts' hd => ?_
      · rw [howners, if_neg fun hkey => he hkey.1]
      · rw [hroute, if_neg fun hkey => he hkey.2.2]
      · rw [hattempts] at hattempts'
        obtain ⟨rfl, -⟩ := List.cons.inj hattempts'
        exact absurd hd.symm he
  | @placed n k e hop hturn hdue hfree _ hroute howners hattempts =>
    by_cases he : d = e
    · subst he
      refine .placed hturn hdue hfree ?_ (fun m j => ?_) hattempts
      · rw [howners, OrderedMap.get?_insert, if_pos rfl]
      · simp [hroute]
    · refine .quiet ?_ (fun m j => ?_) fun hattempts' hd => ?_
      · rw [howners, OrderedMap.get?_insert, if_neg he]
      · rw [hroute, if_neg fun hkey => he hkey.2.2]
      · rw [hattempts] at hattempts'
        obtain ⟨rfl, -⟩ := List.cons.inj hattempts'
        exact absurd hd.symm he

/-! ### Attempts -/

/-- Attempts are never forgotten. -/
theorem Effect.mem_attempts {turn : Turn} {s s' : Stage σ} (h : Effect T managed turn s s')
    {a : Attempt} (ha : a ∈ s.pass.ledger.attempts) : a ∈ s'.pass.ledger.attempts := by
  cases h with
  | quiet _ hpass => rwa [hpass]
  | failed _ _ _ hattempts | removed _ _ _ _ _ _ _ hattempts | placed _ _ _ _ _ _ hattempts =>
    rw [hattempts]
    exact List.mem_cons_of_mem _ ha

/-- A turn without an attempt leaves the running state. -/
theorem Effect.pass_eq {turn : Turn} {s s' : Stage σ} (h : Effect T managed turn s s')
    (hsame : s'.pass.ledger.attempts = s.pass.ledger.attempts) : s'.pass = s.pass := by
  cases h with
  | quiet _ hpass => exact hpass
  | failed _ _ _ hattempts | removed _ _ _ _ _ _ _ hattempts | placed _ _ _ _ _ _ hattempts =>
    rw [hattempts] at hsame
    exact absurd hsame (List.cons_ne_self _ _)

end Stage

end RouteKeeper
