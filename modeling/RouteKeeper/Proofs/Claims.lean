import RouteKeeper.Proofs.Lookups

/-!
# Claims and verdicts

The claims to a prefix are read off the paths and services that make them. Settling them always
follows one rule: there is a claim whose group is to keep the prefix, the winner; the enabled claims
of other groups are disabled, and if there are none, the disabled claims of that group are enabled.

## Main definitions

* `Router.Claimed` — the claim stands in the router.
* `Router.claim?` — the claim that a path or a service makes to a prefix.
* `Router.Holds` — a group has all its claims to a prefix enabled, and no other group any.
* `Router.SameClaims` — routers with the same claims, apart from which have a route.
* `winner` — the claim whose group is to keep a prefix.

## Main statements

* `claimed_iff` — a claim stands in the router if its path or service makes it.
* `Stage.Turned.claim?_bare` — a turn changes no claim but for whether it has a route.
* `settleClaims_of_winner` — the rule that verdicts follow.
-/
namespace RouteKeeper

variable {σ : Type}

/-! ## Claims -/

namespace Claim

/-- The claim of a path. -/
def ofPath (n : GroupName) (p : Path) : Claim :=
  ⟨n, .path p.connection, p.isInstalled, p.flags.disabled, p.claim⟩

/-- The claim of a service. -/
def ofService (n : GroupName) (s : Service) : Claim :=
  ⟨n, .service, s.active.isSome, s.disabled, s.claim⟩

/-- The claim, apart from whether it has a route. -/
def bare (c : Claim) : Claim := { c with installed := false }

theorem disabled_eq_of_bare_eq {c c' : Claim} (h : c'.bare = c.bare) :
    c'.disabled = c.disabled := by
  have := congrArg Claim.disabled h
  exact this

end Claim

namespace Router

/-- The claim stands in the router. -/
def Claimed (r : Router) (d : Prefix) (c : Claim) : Prop :=
  ∃ n g, r.groups.get? n = some g ∧ (d, c) ∈ g.claims

/-- The group has claims to the prefix, all of them enabled, and no other group has enabled ones. -/
def Holds (r : Router) (n : GroupName) (d : Prefix) : Prop :=
  (∃ c, r.Claimed d c ∧ c.group = n) ∧ ∀ c, r.Claimed d c → (c.disabled = false ↔ c.group = n)

/-- The claim that a path or a service of a group makes to a prefix. -/
def claim? (r : Router) (n : GroupName) (k : Claimant) (d : Prefix) : Option Claim :=
  match k with
  | .path c =>
    ((r.path? n c).filter fun p => !p.flags.pendingDelete && p.destination = d).map
      (Claim.ofPath n)
  | .service => ((r.service? n d).filter fun s => !s.isCleared).map (Claim.ofService n)

variable {r : Router} {n : GroupName} {d : Prefix}

theorem claim?_path_eq_some_iff {c : ConnectionName} {claim : Claim} :
    r.claim? n (.path c) d = some claim ↔ ∃ p, r.path? n c = some p ∧
      p.flags.pendingDelete = false ∧ p.destination = d ∧ claim = Claim.ofPath n p := by
  simp only [claim?, Option.map_eq_some_iff, Option.filter_eq_some_iff]
  constructor
  · rintro ⟨p, ⟨hp, hlive⟩, rfl⟩
    simp only [Bool.and_eq_true, Bool.not_eq_eq_eq_not, Bool.not_true, decide_eq_true_eq] at hlive
    exact ⟨p, hp, hlive.1, hlive.2, rfl⟩
  · rintro ⟨p, hp, hlive, hd, rfl⟩
    exact ⟨p, ⟨hp, by simp [hlive, hd]⟩, rfl⟩

theorem claim?_service_eq_some_iff {claim : Claim} :
    r.claim? n .service d = some claim ↔ ∃ s, r.service? n d = some s ∧
      s.isCleared = false ∧ claim = Claim.ofService n s := by
  simp only [claim?, Option.map_eq_some_iff, Option.filter_eq_some_iff]
  constructor
  · rintro ⟨s, ⟨hs, hlive⟩, rfl⟩
    exact ⟨s, hs, by simpa using hlive, rfl⟩
  · rintro ⟨s, hs, hlive, rfl⟩
    exact ⟨s, ⟨hs, by simp [hlive]⟩, rfl⟩

theorem exists_group_of_claim? {k : Claimant} {claim : Claim} (h : r.claim? n k d = some claim) :
    ∃ g, r.groups.get? n = some g := by
  cases k with
  | path c =>
    obtain ⟨p, hp, -⟩ := claim?_path_eq_some_iff.1 h
    exact (path?_eq_some_iff.1 hp).imp fun _ => And.left
  | service =>
    obtain ⟨s, hs, -⟩ := claim?_service_eq_some_iff.1 h
    exact (service?_eq_some_iff.1 hs).imp fun _ => And.left

/-- A claim is found under the group and the claimant that it names. -/
theorem eq_of_claim?_eq_some (hk : r.Keyed) {k : Claimant} {claim : Claim}
    (h : r.claim? n k d = some claim) : claim.group = n ∧ claim.claimant = k := by
  cases k with
  | path c =>
    obtain ⟨p, hp, -, -, rfl⟩ := claim?_path_eq_some_iff.1 h
    exact ⟨rfl, congrArg Claimant.path (hk.connection hp)⟩
  | service =>
    obtain ⟨s, -, -, rfl⟩ := claim?_service_eq_some_iff.1 h
    exact ⟨rfl, rfl⟩

/-- A claim stands in the router if its path or its service makes it. -/
theorem claimed_iff (hk : r.Keyed) {c : Claim} :
    r.Claimed d c ↔ r.claim? c.group c.claimant d = some c := by
  constructor
  · rintro ⟨n, g, hgroup, hc⟩
    have hname := hk.name hgroup
    simp only [Group.claims, List.mem_append, List.mem_map, List.mem_filter,
      OrderedMap.mem_values_iff, Prod.mk.injEq] at hc
    rcases hc with ⟨p, ⟨⟨k, hp⟩, hlive⟩, rfl, rfl⟩ | ⟨s, ⟨⟨e, hs⟩, hlive⟩, rfl, rfl⟩
    · have hp : r.path? n k = some p := path?_eq_some_iff.2 ⟨g, hgroup, hp⟩
      have hk' := hk.connection hp
      subst hk' hname
      exact claim?_path_eq_some_iff.2 ⟨p, hp, by simpa using hlive, rfl, rfl⟩
    · have hs : r.service? n e = some s := service?_eq_some_iff.2 ⟨g, hgroup, hs⟩
      have he := hk.destination hs
      subst he hname
      exact claim?_service_eq_some_iff.2 ⟨s, hs, by simpa using hlive, rfl⟩
  · intro h
    rcases hclaimant : c.claimant with connection | _
    · rw [hclaimant] at h
      obtain ⟨p, hp, hlive, rfl, hc⟩ := claim?_path_eq_some_iff.1 h
      obtain ⟨g, hgroup, hp'⟩ := path?_eq_some_iff.1 hp
      refine ⟨c.group, g, hgroup, ?_⟩
      rw [hc, ← hk.name hgroup]
      refine List.mem_append_left _ (List.mem_map.2 ⟨p, List.mem_filter.2 ⟨?_, ?_⟩, rfl⟩)
      · exact OrderedMap.mem_values_iff.2 ⟨connection, hp'⟩
      · simp [hlive]
    · rw [hclaimant] at h
      obtain ⟨s, hs, hlive, hc⟩ := claim?_service_eq_some_iff.1 h
      obtain ⟨g, hgroup, hs'⟩ := service?_eq_some_iff.1 hs
      refine ⟨c.group, g, hgroup, ?_⟩
      have hd := hk.destination hs
      subst hd
      rw [hc, ← hk.name hgroup]
      refine List.mem_append_right _ (List.mem_map.2 ⟨s, List.mem_filter.2 ⟨?_, ?_⟩, rfl⟩)
      · exact OrderedMap.mem_values_iff.2 ⟨_, hs'⟩
      · simp [hlive]

/-! ## Claims after changes -/

section PutGroup

variable {name : GroupName} {g : Group}

theorem claim?_putPath (h : r.groups.get? name = some g) (connection : ConnectionName)
    (kept : Option Path) (n : GroupName) (k : Claimant) (d : Prefix) :
    (r.putGroup name { g with paths := g.paths.put connection kept }).claim? n k d =
      if n = name ∧ k = .path connection then
        (kept.filter fun p => !p.flags.pendingDelete && p.destination = d).map (Claim.ofPath n)
      else r.claim? n k d := by
  cases k with
  | path c =>
    simp only [claim?, path?_putPath h, Claimant.path.injEq]
    split <;> rfl
  | service => simp [claim?, service?_putPath h]

theorem claim?_putService (h : r.groups.get? name = some g) (destination : Prefix)
    (kept : Option Service) (n : GroupName) (k : Claimant) (d : Prefix) :
    (r.putGroup name { g with services := g.services.put destination kept }).claim? n k d =
      if n = name ∧ k = .service ∧ d = destination then
        (kept.filter fun s => !s.isCleared).map (Claim.ofService n)
      else r.claim? n k d := by
  cases k with
  | path c => simp [claim?, path?_putService h]
  | service =>
    simp only [claim?, service?_putService h, true_and]
    split <;> rfl

theorem claim?_reselect (h : r.groups.get? name = some g) (n : GroupName) (k : Claimant)
    (d : Prefix) : (r.putGroup name g.reselect).claim? n k d = r.claim? n k d := by
  cases k with
  | path c => simp only [claim?, path?_reselect h]
  | service => simp only [claim?, service?_reselect h]

end PutGroup

end Router

/-- A turn changes of the claims only which have a route. -/
theorem Stage.Turned.claim?_bare {T : RouteTable σ} {managed : List String} {s s' : Stage σ}
    {turn : Turn} (h : Turned T managed s turn s') (n : GroupName) (k : Claimant) (d : Prefix) :
    (s'.router.claim? n k d).map Claim.bare = (s.router.claim? n k d).map Claim.bare := by
  cases h with
  | noPath | noGroup | noService => rfl
  | select hgroup => rw [Router.claim?_reselect hgroup]
  | @path name g connection path kept pass hgroup hpath hturn =>
    rw [Router.claim?_putPath hgroup]
    split
    case isTrue hkey =>
      obtain ⟨rfl, rfl⟩ := hkey
      rw [Router.claim?, Router.path?_of_get? hgroup, hpath]
      cases kept with
      | none => simp [Option.filter_some, hturn.pendingDelete_of_none]
      | some path' =>
        have hbare := hturn.bare_eq
        have hdelete : path'.flags.pendingDelete = path.flags.pendingDelete := by
          simpa using congrArg (fun p => p.flags.pendingDelete) hbare
        have hdestination : path'.destination = path.destination := by
          simpa using congrArg Path.destination hbare
        have hclaim : (Claim.ofPath n path').bare = (Claim.ofPath n path).bare :=
          congrArg (Claim.ofPath n) hbare
        rw [Option.filter_some, Option.filter_some, hdelete, hdestination]
        split
        · simp [hclaim]
        · rfl
    case isFalse => rfl
  | @service name g destination service kept pass hgroup hservice hturn =>
    rw [Router.claim?_putService hgroup]
    split
    case isTrue hkey =>
      obtain ⟨rfl, rfl, rfl⟩ := hkey
      rw [Router.claim?, Router.service?_of_get? hgroup, hservice]
      cases kept with
      | none => simp [Option.filter_some, hturn.isCleared_of_none rfl]
      | some service' =>
        have hbare := hturn.bare_eq service' rfl
        have hcleared := congrArg Service.isCleared hbare
        have hclaim : (Claim.ofService n service').bare = (Claim.ofService n service).bare :=
          congrArg (Claim.ofService n) hbare
        simp only [Service.isCleared_bare] at hcleared
        rw [Option.filter_some, Option.filter_some, hcleared]
        split
        · simp [hclaim]
        · rfl
    case isFalse => rfl

namespace Router

variable {r : Router} {n : GroupName} {d : Prefix}

/-- Both routers have the same claims, apart from which have a route. -/
def SameClaims (r r' : Router) : Prop :=
  ∀ n k d, (r'.claim? n k d).map Claim.bare = (r.claim? n k d).map Claim.bare

namespace SameClaims

variable {r' : Router}

theorem exists_claim (h : SameClaims r r') {k : Claimant} {c : Claim}
    (hc : r.claim? n k d = some c) : ∃ c', r'.claim? n k d = some c' ∧ c'.bare = c.bare := by
  have hsame := h n k d
  rw [hc, Option.map_some] at hsame
  exact Option.map_eq_some_iff.1 hsame

theorem symm (h : SameClaims r r') : SameClaims r' r := fun n k d => (h n k d).symm

/-- A claim is enabled in both routers or in none. -/
theorem enabled_iff (h : SameClaims r r') {k : Claimant} :
    (∃ c, r'.claim? n k d = some c ∧ c.disabled = false) ↔
      ∃ c, r.claim? n k d = some c ∧ c.disabled = false := by
  constructor
  · rintro ⟨c, hc, henabled⟩
    obtain ⟨c', hc', hbare⟩ := h.symm.exists_claim hc
    exact ⟨c', hc', (Claim.disabled_eq_of_bare_eq hbare).trans henabled⟩
  · rintro ⟨c, hc, henabled⟩
    obtain ⟨c', hc', hbare⟩ := h.exists_claim hc
    exact ⟨c', hc', (Claim.disabled_eq_of_bare_eq hbare).trans henabled⟩

end SameClaims

/-! ## Contests -/

private theorem get?_grouped (l : List (Prefix × Claim)) (d : Prefix) (c : Claim) :
    (∃ cs, (l.foldl (fun (m : OrderedMap Prefix (List Claim)) e =>
        m.insert e.1 ((m.get? e.1).getD [] ++ [e.2])) .empty).get? d = some cs ∧ c ∈ cs) ↔
      (d, c) ∈ l := by
  induction l using List.reverseRecOn with
  | nil => simp
  | append_singleton l e ih =>
    rw [List.foldl_append, List.foldl_cons, List.foldl_nil, OrderedMap.get?_insert,
      List.mem_append, ← ih, List.mem_singleton]
    obtain ⟨d', c'⟩ := e
    by_cases hd : d = d'
    · subst hd
      cases (l.foldl (fun (m : OrderedMap Prefix (List Claim)) e =>
        m.insert e.1 ((m.get? e.1).getD [] ++ [e.2])) .empty).get? d <;> simp
    · simp [hd]

/-- The claims to a prefix are in its contest. -/
theorem mem_contest_iff {c : Claim} :
    (∃ cs, r.contests.get? d = some cs ∧ c ∈ cs) ↔ r.Claimed d c := by
  rw [contests, get?_grouped]
  simp only [Claimed, List.mem_flatMap, OrderedMap.mem_values_iff]
  constructor
  · rintro ⟨g, ⟨n, hgroup⟩, hc⟩
    exact ⟨n, g, hgroup, hc⟩
  · rintro ⟨n, g, hgroup, hc⟩
    exact ⟨g, ⟨n, hgroup⟩, hc⟩

/-- There is a contest about a prefix only if it is claimed. -/
theorem contest_ne_nil {cs : List Claim} (h : r.contests.get? d = some cs) : cs ≠ [] := by
  have hgrouped : ∀ l : List (Prefix × Claim), ∀ cs, (l.foldl
      (fun (m : OrderedMap Prefix (List Claim)) e =>
        m.insert e.1 ((m.get? e.1).getD [] ++ [e.2])) .empty).get? d = some cs → cs ≠ [] := by
    intro l
    induction l using List.reverseRecOn with
    | nil => simp
    | append_singleton l e ih =>
      intro cs
      rw [List.foldl_append, List.foldl_cons, List.foldl_nil, OrderedMap.get?_insert]
      split
      · rintro ⟨⟩
        simp
      · exact ih cs
  exact hgrouped _ cs h

end Router

/-! ## Verdicts -/

/-- The claim whose group is to keep a prefix: the strongest of the enabled claims, or the oldest of
all if none is enabled. -/
def winner (claims : List Claim) : Option Claim :=
  match claims.filter (!·.disabled) with
  | [] => firstLeast Claim.older claims
  | c :: rest => firstLeast Claim.stronger (c :: rest)

/-- The enabled claims of other groups. -/
def rivals (claims : List Claim) (n : GroupName) : List Claim :=
  claims.filter fun c => !c.disabled && c.group ≠ n

theorem mem_rivals_iff {claims : List Claim} {n : GroupName} {c : Claim} :
    c ∈ rivals claims n ↔ c ∈ claims ∧ c.disabled = false ∧ c.group ≠ n := by
  simp [rivals]

theorem winner_eq_none_iff {claims : List Claim} : winner claims = none ↔ claims = [] := by
  unfold winner
  split
  case h_1 => simp
  case h_2 c rest h =>
    have hne : claims ≠ [] := by
      rintro rfl
      cases h
    simp [hne]

theorem mem_of_winner {claims : List Claim} {w : Claim} (h : winner claims = some w) :
    w ∈ claims := by
  unfold winner at h
  split at h
  case h_1 => exact mem_of_firstLeast_eq_some _ h
  case h_2 c rest henabled =>
    have hw := mem_of_firstLeast_eq_some _ h
    rw [← henabled] at hw
    exact List.mem_of_mem_filter hw

/-- The winner is enabled if any claim is. -/
theorem winner_enabled {claims : List Claim} {w : Claim} (h : winner claims = some w)
    (henabled : ∃ c ∈ claims, c.disabled = false) : w.disabled = false := by
  unfold winner at h
  split at h
  case h_1 hnone =>
    obtain ⟨c, hc, hc'⟩ := henabled
    have := List.filter_eq_nil_iff.1 hnone c hc
    simp [hc'] at this
  case h_2 c rest hsome =>
    have hw := mem_of_firstLeast_eq_some _ h
    rw [← hsome] at hw
    simpa using (List.mem_filter.1 hw).2

/-- Verdicts follow one rule: disable what rivals the winner's group, and where nothing does, enable
what that group has disabled. -/
theorem settleClaims_of_winner {claims : List Claim} {w : Claim} (h : winner claims = some w) :
    settleClaims claims =
      ⟨(rivals claims w.group).map fun c => (c, w.group),
        if rivals claims w.group = [] then
          claims.filter fun c => c.disabled && c.group = w.group
        else []⟩ := by
  have hrivals : rivals claims w.group =
      (claims.filter (!·.disabled)).filter (·.group ≠ w.group) := by
    rw [rivals, List.filter_filter]
    refine List.filter_congr fun c _ => ?_
    rw [Bool.and_comm]
  unfold winner at h
  unfold settleClaims
  rw [hrivals]
  cases henabled : claims.filter (!·.disabled) with
  | nil =>
    rw [henabled] at h
    simp only at h
    simp [h]
  | cons c rest =>
    rw [henabled] at h
    simp only at h
    have hw := mem_of_firstLeast_eq_some _ h
    by_cases hcontested : rest.any (·.group ≠ c.group) = true
    · have hrival : (c :: rest).filter (·.group ≠ w.group) ≠ [] := by
        obtain ⟨d, hd, hne⟩ := List.any_eq_true.1 hcontested
        have hne : d.group ≠ c.group := by simpa using hne
        rw [Ne, List.filter_eq_nil_iff]
        intro hall
        have hc := hall c List.mem_cons_self
        have hd := hall d (List.mem_cons_of_mem c hd)
        simp only [ne_eq, decide_not, Bool.not_eq_eq_eq_not, Bool.not_true,
          decide_eq_false_iff_not, not_not] at hc hd
        exact hne (hd.trans hc.symm)
      simp only [if_pos hcontested, h, if_neg hrival]
    · have halone : ∀ d ∈ c :: rest, d.group = c.group := by
        intro d hd
        rcases List.mem_cons.1 hd with rfl | hd
        · rfl
        · by_contra hne
          exact hcontested (List.any_eq_true.2 ⟨d, hd, by simpa using hne⟩)
      have hnone : (c :: rest).filter (·.group ≠ w.group) = [] := by
        refine List.filter_eq_nil_iff.2 fun d hd => ?_
        simp [halone d hd, halone w hw]
      rw [hnone]
      simp only [if_neg hcontested, List.map_nil, if_true, halone w hw]

end RouteKeeper
