import RouteKeeper.Proofs.Pass

/-!
# Paths and services of a router

A router is read through the lookup of its paths and services by group. A router is keyed if every
group, path and service is found under its own name. The groups that have a route for a prefix are
those that record one, and `Router.owners` names the last of them.

## Main definitions

* `Router.Keyed` — groups, paths and services stand under their own names.
* `Router.Remains` — no entry is new, and paths are specified and measured as they were.
* `Router.Records` — a group has a route for a prefix.

## Main statements

* `Stage.Turned.keyed`, `Stage.Turned.remains` — a turn leaves a router keyed, and no entry is new.
* `Router.get?_owners_eq_some_iff` — the owner of a prefix is the last group that has a route for
  it.
-/
namespace RouteKeeper

variable {σ : Type}

namespace Router

/-! ## Lookups after changes -/

section PutGroup

variable {r : Router} {name : GroupName} {g : Group}

theorem path?_of_get? (h : r.groups.get? name = some g) (connection : ConnectionName) :
    r.path? name connection = g.paths.get? connection := by
  simp [path?, h]

theorem service?_of_get? (h : r.groups.get? name = some g) (destination : Prefix) :
    r.service? name destination = g.services.get? destination := by
  simp [service?, h]

theorem path?_eq_some_iff {connection : ConnectionName} {p : Path} :
    r.path? name connection = some p ↔
      ∃ g, r.groups.get? name = some g ∧ g.paths.get? connection = some p :=
  Option.bind_eq_some_iff

theorem service?_eq_some_iff {destination : Prefix} {s : Service} :
    r.service? name destination = some s ↔
      ∃ g, r.groups.get? name = some g ∧ g.services.get? destination = some s :=
  Option.bind_eq_some_iff

theorem path?_putGroup (n : GroupName) (c : ConnectionName) :
    (r.putGroup name g).path? n c = if n = name then g.paths.get? c else r.path? n c := by
  simp only [path?, get?_groups_putGroup]
  split <;> rfl

theorem service?_putGroup (n : GroupName) (d : Prefix) :
    (r.putGroup name g).service? n d = if n = name then g.services.get? d else r.service? n d := by
  simp only [service?, get?_groups_putGroup]
  split <;> rfl

/-- Changing one path changes one lookup. -/
theorem path?_putPath (h : r.groups.get? name = some g) (connection : ConnectionName)
    (kept : Option Path) (n : GroupName) (c : ConnectionName) :
    (r.putGroup name { g with paths := g.paths.put connection kept }).path? n c =
      if n = name ∧ c = connection then kept else r.path? n c := by
  rw [path?_putGroup]
  by_cases hn : n = name
  · subst hn
    rw [path?_of_get? h, if_pos rfl, OrderedMap.get?_put]
    simp
  · simp [hn]

theorem service?_putPath (h : r.groups.get? name = some g) (paths : Paths) (n : GroupName)
    (d : Prefix) : (r.putGroup name { g with paths }).service? n d = r.service? n d := by
  rw [service?_putGroup]
  by_cases hn : n = name
  · subst hn
    rw [service?_of_get? h, if_pos rfl]
  · rw [if_neg hn]

/-- Changing one service changes one lookup. -/
theorem service?_putService (h : r.groups.get? name = some g) (destination : Prefix)
    (kept : Option Service) (n : GroupName) (d : Prefix) :
    (r.putGroup name { g with services := g.services.put destination kept }).service? n d =
      if n = name ∧ d = destination then kept else r.service? n d := by
  rw [service?_putGroup]
  by_cases hn : n = name
  · subst hn
    rw [service?_of_get? h, if_pos rfl, OrderedMap.get?_put]
    simp
  · simp [hn]

theorem path?_putService (h : r.groups.get? name = some g) (services : OrderedMap Prefix Service)
    (n : GroupName) (c : ConnectionName) :
    (r.putGroup name { g with services }).path? n c = r.path? n c := by
  rw [path?_putGroup]
  by_cases hn : n = name
  · subst hn
    rw [path?_of_get? h, if_pos rfl]
  · rw [if_neg hn]

/-- A selection changes no path. -/
theorem path?_reselect (h : r.groups.get? name = some g) (n : GroupName) (c : ConnectionName) :
    (r.putGroup name g.reselect).path? n c = r.path? n c := by
  rw [path?_putGroup]
  by_cases hn : n = name
  · subst hn
    rw [path?_of_get? h, if_pos rfl]
    rfl
  · rw [if_neg hn]

/-- A selection changes no service. -/
theorem service?_reselect (h : r.groups.get? name = some g) (n : GroupName) (d : Prefix) :
    (r.putGroup name g.reselect).service? n d = r.service? n d := by
  rw [service?_putGroup]
  by_cases hn : n = name
  · subst hn
    rw [service?_of_get? h, if_pos rfl]
    rfl
  · rw [if_neg hn]

end PutGroup

/-! ## Names -/

/-- Groups, paths and services stand under their own names. -/
structure Keyed (r : Router) : Prop where
  name {n : GroupName} {g : Group} : r.groups.get? n = some g → g.name = n
  connection {n : GroupName} {c : ConnectionName} {p : Path} :
    r.path? n c = some p → p.connection = c
  destination {n : GroupName} {d : Prefix} {s : Service} :
    r.service? n d = some s → s.destination = d

namespace Keyed

variable {r : Router} {name : GroupName} {g : Group}

theorem paths (hk : r.Keyed) (hgroup : r.groups.get? name = some g) (c : ConnectionName) (p : Path)
    (hp : g.paths.get? c = some p) : p.connection = c :=
  hk.connection (path?_eq_some_iff.2 ⟨g, hgroup, hp⟩)

theorem putPath (hk : r.Keyed) (hgroup : r.groups.get? name = some g) {connection : ConnectionName}
    {kept : Option Path} (hkept : ∀ p, kept = some p → p.connection = connection) :
    (r.putGroup name { g with paths := g.paths.put connection kept }).Keyed where
  name {n g'} h := by
    rw [get?_groups_putGroup] at h
    split at h
    case isTrue hn =>
      cases h
      exact (hk.name hgroup).trans hn.symm
    case isFalse => exact hk.name h
  connection {n c p} h := by
    rw [path?_putPath hgroup] at h
    split at h
    case isTrue hn => exact (hkept p h).trans hn.2.symm
    case isFalse => exact hk.connection h
  destination {n d s} h := by
    rw [service?_putPath hgroup] at h
    exact hk.destination h

theorem putService (hk : r.Keyed) (hgroup : r.groups.get? name = some g) {destination : Prefix}
    {kept : Option Service} (hkept : ∀ s, kept = some s → s.destination = destination) :
    (r.putGroup name { g with services := g.services.put destination kept }).Keyed where
  name {n g'} h := by
    rw [get?_groups_putGroup] at h
    split at h
    case isTrue hn =>
      cases h
      exact (hk.name hgroup).trans hn.symm
    case isFalse => exact hk.name h
  connection {n c p} h := by
    rw [path?_putService hgroup] at h
    exact hk.connection h
  destination {n d s} h := by
    rw [service?_putService hgroup] at h
    split at h
    case isTrue hn => exact (hkept s h).trans hn.2.symm
    case isFalse => exact hk.destination h

theorem reselect (hk : r.Keyed) (hgroup : r.groups.get? name = some g) :
    (r.putGroup name g.reselect).Keyed where
  name {n g'} h := by
    rw [get?_groups_putGroup] at h
    split at h
    case isTrue hn =>
      cases h
      exact (hk.name hgroup).trans hn.symm
    case isFalse => exact hk.name h
  connection {n c p} h := by
    rw [path?_reselect hgroup] at h
    exact hk.connection h
  destination {n d s} h := by
    rw [service?_reselect hgroup] at h
    exact hk.destination h

end Keyed

end Router

/-- A turn leaves a router keyed. -/
theorem Stage.Turned.keyed {T : RouteTable σ} {managed : List String} {s s' : Stage σ} {turn : Turn}
    (h : Turned T managed s turn s') (hk : s.router.Keyed) : s'.router.Keyed := by
  cases h with
  | noPath | noGroup | noService => exact hk
  | select hgroup => exact hk.reselect hgroup
  | path hgroup hpath hturn =>
    refine hk.putPath hgroup ?_
    rintro p rfl
    have hconnection := hk.connection (Router.path?_eq_some_iff.2 ⟨_, hgroup, hpath⟩)
    have hbare := congrArg Path.connection hturn.bare_eq
    exact hbare.trans hconnection
  | service hgroup hservice hturn =>
    refine hk.putService hgroup ?_
    intro s hs
    have hdestination := hk.destination (Router.service?_eq_some_iff.2 ⟨_, hgroup, hservice⟩)
    have hbare := congrArg Service.destination (hturn.bare_eq s hs)
    exact hbare.trans hdestination

/-- The turn of a path: there is none, or it is taken. -/
theorem Stage.Turned.path_cases {T : RouteTable σ} {managed : List String} {s s' : Stage σ}
    {n : GroupName} {c : ConnectionName} (h : Turned T managed s (.path n c) s')
    (hk : s.router.Keyed) :
    (s.router.path? n c = none ∧ s' = s) ∨ ∃ p kept, s.router.path? n c = some p ∧
      PathTurn T managed n s.pass p kept s'.pass ∧ s'.router.path? n c = kept := by
  cases h with
  | noPath hpath => exact .inl ⟨hpath, rfl⟩
  | @path _ g _ path kept pass hgroup hpath hturn =>
    refine .inr ⟨path, kept, (Router.path?_of_get? hgroup c).trans hpath, ?_, ?_⟩
    · rwa [hk.name hgroup] at hturn
    · rw [Router.path?_putPath hgroup, if_pos ⟨rfl, rfl⟩]

/-- The turn of a service: there is none, or it is taken. -/
theorem Stage.Turned.service_cases {T : RouteTable σ} {managed : List String} {s s' : Stage σ}
    {n : GroupName} {d : Prefix} (h : Turned T managed s (.service n d) s') :
    (s.router.service? n d = none ∧ s' = s) ∨ ∃ g service kept,
      s.router.groups.get? n = some g ∧ g.services.get? d = some service ∧
      ServiceTurn T managed g s.pass service kept s'.pass ∧ s'.router.service? n d = kept := by
  cases h with
  | noService hservice => exact .inl ⟨hservice, rfl⟩
  | @service _ g _ service kept pass hgroup hservice hturn =>
    refine .inr ⟨g, service, kept, hgroup, hservice, hturn, ?_⟩
    rw [Router.service?_putService hgroup, if_pos ⟨rfl, rfl⟩]

/-- A turn touches no path but its own. -/
theorem Stage.Turned.path?_of_ne {T : RouteTable σ} {managed : List String} {s s' : Stage σ}
    {turn : Turn} (h : Turned T managed s turn s') {n : GroupName} {c : ConnectionName}
    (hne : turn ≠ .path n c) : s'.router.path? n c = s.router.path? n c := by
  cases h with
  | noPath | noGroup | noService => rfl
  | select hgroup => exact Router.path?_reselect hgroup n c
  | service hgroup => exact Router.path?_putService hgroup _ n c
  | path hgroup =>
    rw [Router.path?_putPath hgroup, if_neg]
    rintro ⟨rfl, rfl⟩
    exact hne rfl

/-- A turn touches no service but its own. -/
theorem Stage.Turned.service?_of_ne {T : RouteTable σ} {managed : List String} {s s' : Stage σ}
    {turn : Turn} (h : Turned T managed s turn s') {n : GroupName} {d : Prefix}
    (hne : turn ≠ .service n d) : s'.router.service? n d = s.router.service? n d := by
  cases h with
  | noPath | noGroup | noService => rfl
  | select hgroup => exact Router.service?_reselect hgroup n d
  | path hgroup => exact Router.service?_putPath hgroup _ n d
  | service hgroup =>
    rw [Router.service?_putService hgroup, if_neg]
    rintro ⟨rfl, rfl⟩
    exact hne rfl

/-! ## Entries that remain -/

namespace Router

/-- What remains of a router: no path or service is new, and paths have the specifications, the
groups and the windows that they had. -/
structure Remains (r r' : Router) : Prop where
  origin {n : GroupName} {c : ConnectionName} {p' : Path} (h : r'.path? n c = some p') :
    ∃ p, r.path? n c = some p ∧ p'.spec = p.spec ∧ p'.group = p.group ∧ p'.window = p.window
  service {n : GroupName} {d : Prefix} {s' : Service} (h : r'.service? n d = some s') :
    ∃ s, r.service? n d = some s

namespace Remains

variable {r r' r'' : Router}

theorem path (h : r.Remains r') {n : GroupName} {c : ConnectionName} {p' : Path}
    (hp' : r'.path? n c = some p') : ∃ p, r.path? n c = some p ∧ p'.spec = p.spec := by
  obtain ⟨p, hp, hspec, -⟩ := h.origin hp'
  exact ⟨p, hp, hspec⟩

theorem refl (r : Router) : r.Remains r := ⟨fun h => ⟨_, h, rfl, rfl, rfl⟩, fun h => ⟨_, h⟩⟩

theorem trans (h : r.Remains r') (h' : r'.Remains r'') : r.Remains r'' where
  origin hp'' := by
    obtain ⟨p', hp', hspec', hgroup', hwindow'⟩ := h'.origin hp''
    obtain ⟨p, hp, hspec, hgroup, hwindow⟩ := h.origin hp'
    exact ⟨p, hp, hspec'.trans hspec, hgroup'.trans hgroup, hwindow'.trans hwindow⟩
  service hs'' := by
    obtain ⟨s', hs'⟩ := h'.service hs''
    exact h.service hs'

end Remains

end Router

theorem Stage.Turned.remains {T : RouteTable σ} {managed : List String} {s s' : Stage σ}
    {turn : Turn} (h : Turned T managed s turn s') (hk : s.router.Keyed) :
    s.router.Remains s'.router where
  origin {n c p'} hp' := by
    by_cases hown : turn = .path n c
    · subst hown
      rcases h.path_cases hk with ⟨-, rfl⟩ | ⟨p, kept, hp, hturn, hkept⟩
      · exact ⟨p', hp', rfl, rfl, rfl⟩
      · rw [hp'] at hkept
        subst hkept
        have hspec := congrArg Path.spec hturn.bare_eq
        have hgroup := congrArg Path.group hturn.bare_eq
        have hwindow := congrArg Path.window hturn.bare_eq
        exact ⟨p, hp, hspec, hgroup, hwindow⟩
    · rw [h.path?_of_ne hown] at hp'
      exact ⟨p', hp', rfl, rfl, rfl⟩
  service {n d s'} hs' := by
    by_cases hown : turn = .service n d
    · subst hown
      rcases h.service_cases with ⟨-, rfl⟩ | ⟨g, s, -, hgroup, hservice, -⟩
      · exact ⟨s', hs'⟩
      · exact ⟨s, Router.service?_eq_some_iff.2 ⟨g, hgroup, hservice⟩⟩
    · rw [h.service?_of_ne hown] at hs'
      exact ⟨s', hs'⟩

/-! ## Recorded routes -/

namespace Router

/-- The group has a route for the prefix. -/
def Records (r : Router) (n : GroupName) (d : Prefix) : Prop :=
  (∃ c p, r.path? n c = some p ∧ p.isInstalled = true ∧ p.destination = d) ∨
    ∃ s, r.service? n d = some s ∧ s.active ≠ none

theorem mem_installedPrefixes_iff {r : Router} (hk : r.Keyed) {n : GroupName} {g : Group}
    (hgroup : r.groups.get? n = some g) {d : Prefix} :
    d ∈ g.installedPrefixes ↔ r.Records n d := by
  have hdestination : ∀ d s, g.services.get? d = some s → s.destination = d := by
    intro d s h
    exact hk.destination (service?_eq_some_iff.2 ⟨g, hgroup, h⟩)
  simp only [Group.installedPrefixes, List.mem_append, List.mem_map, List.mem_filter,
    OrderedMap.mem_values_iff, Records, path?_of_get? hgroup, service?_of_get? hgroup]
  refine or_congr ?_ ?_
  · constructor
    · rintro ⟨p, ⟨⟨c, hp⟩, hi⟩, hd⟩
      exact ⟨c, p, hp, hi, hd⟩
    · rintro ⟨c, p, hp, hi, hd⟩
      exact ⟨p, ⟨⟨c, hp⟩, hi⟩, hd⟩
  · constructor
    · rintro ⟨s, ⟨⟨e, hs⟩, hi⟩, hd⟩
      rw [hdestination e s hs] at hd
      subst hd
      exact ⟨s, hs, Option.isSome_iff_ne_none.1 hi⟩
    · rintro ⟨s, hs, hi⟩
      exact ⟨s, ⟨⟨d, hs⟩, Option.isSome_iff_ne_none.2 hi⟩, hdestination d s hs⟩

private def bindings (r : Router) : List (Prefix × GroupName) :=
  r.groups.values.flatMap fun g => g.installedPrefixes.map fun d => (d, g.name)

private theorem mem_bindings_iff {r : Router} (hk : r.Keyed) {d : Prefix} {n : GroupName} :
    (d, n) ∈ r.bindings ↔ r.Records n d := by
  simp only [bindings, List.mem_flatMap, OrderedMap.mem_values_iff, List.mem_map, Prod.mk.injEq]
  constructor
  · rintro ⟨g, ⟨m, hgroup⟩, d', hd, rfl, hname⟩
    rw [hk.name hgroup] at hname
    subst hname
    exact (mem_installedPrefixes_iff hk hgroup).1 hd
  · intro h
    have hgroup : ∃ g, r.groups.get? n = some g := by
      rcases h with ⟨c, p, hp, -⟩ | ⟨s, hs, -⟩
      · exact (path?_eq_some_iff.1 hp).imp fun _ => And.left
      · exact (service?_eq_some_iff.1 hs).imp fun _ => And.left
    obtain ⟨g, hgroup⟩ := hgroup
    exact ⟨g, ⟨n, hgroup⟩, d, (mem_installedPrefixes_iff hk hgroup).2 h, rfl, hk.name hgroup⟩

/-- The bindings stand in the order of the groups. -/
private theorem pairwise_bindings {r : Router} (hk : r.Keyed) :
    r.bindings.Pairwise fun a b => a.2 = b.2 ∨ KeyOrder.before a.2 b.2 = true := by
  rw [bindings, OrderedMap.values, List.flatMap_map, List.pairwise_flatMap]
  constructor
  · intro e _
    rw [List.pairwise_map]
    exact List.pairwise_of_forall fun _ _ => .inl rfl
  · refine (List.pairwise_map.1 r.groups.sorted).imp_of_mem ?_
    intro a b ha hb hab x hx y hy
    obtain ⟨_, _, rfl⟩ := List.mem_map.1 hx
    obtain ⟨_, _, rfl⟩ := List.mem_map.1 hy
    have hna := hk.name (OrderedMap.get?_eq_some_iff.2 ha)
    have hnb := hk.name (OrderedMap.get?_eq_some_iff.2 hb)
    simp only [hna, hnb]
    exact .inr hab

/-- The owner of a prefix is the last group, by name, that has a route for it. -/
theorem get?_owners_eq_some_iff {r : Router} (hk : r.Keyed) {d : Prefix} {n : GroupName} :
    r.owners.get? d = some n ↔
      r.Records n d ∧ ∀ m, r.Records m d → m = n ∨ KeyOrder.before m n = true := by
  have howners : r.owners.get? d = ((r.bindings.filter fun e => e.1 = d).getLast?).map Prod.snd :=
    OrderedMap.get?_ofList r.bindings d
  have hmem : ∀ m, (d, m) ∈ r.bindings.filter (fun e => e.1 = d) ↔ r.Records m d := by
    intro m
    simp [List.mem_filter, mem_bindings_iff hk]
  have hlast : ∀ e, (r.bindings.filter fun e => e.1 = d).getLast? = some e →
      e.1 = d ∧ r.Records e.2 d ∧ ∀ m, r.Records m d → m = e.2 ∨ KeyOrder.before m e.2 = true := by
    intro e he
    have hin := List.mem_of_getLast? he
    have hd : e.1 = d := by simpa using (List.mem_filter.1 hin).2
    obtain ⟨a, b⟩ := e
    subst hd
    refine ⟨rfl, (hmem b).1 hin, ?_⟩
    intro m hm
    obtain ⟨init, hinit⟩ := List.getLast?_eq_some_iff.1 he
    have hsorted := (pairwise_bindings hk).filter fun e => decide (e.1 = a)
    have hm' := (hmem m).2 hm
    rw [hinit, List.pairwise_append] at hsorted
    rw [hinit, List.mem_append, List.mem_singleton] at hm'
    rcases hm' with hm' | hm'
    · exact hsorted.2.2 _ hm' _ (List.mem_singleton.2 rfl)
    · exact .inl (congrArg Prod.snd hm')
  rw [howners]
  constructor
  · intro h
    obtain ⟨e, he, rfl⟩ := Option.map_eq_some_iff.1 h
    exact (hlast e he).2
  · rintro ⟨hn, hfirst⟩
    cases he : (r.bindings.filter fun e => e.1 = d).getLast? with
    | none =>
      rw [List.getLast?_eq_none_iff] at he
      have := (hmem n).2 hn
      rw [he] at this
      exact absurd this List.not_mem_nil
    | some e =>
      obtain ⟨-, hrecords, hafter⟩ := hlast e he
      have hsame : e.2 = n := by
        rcases hfirst _ hrecords with h | h
        · exact h
        rcases hafter _ hn with h' | h'
        · exact h'.symm
        have := KeyOrder.trans h h'
        rw [KeyOrder.irrefl] at this
        exact Bool.noConfusion this
      exact congrArg some hsame

/-- A prefix without owner is one that no group has a route for. -/
theorem get?_owners_eq_none_iff {r : Router} (hk : r.Keyed) {d : Prefix} :
    r.owners.get? d = none ↔ ∀ n, ¬ r.Records n d := by
  have howners : r.owners.get? d = ((r.bindings.filter fun e => e.1 = d).getLast?).map Prod.snd :=
    OrderedMap.get?_ofList r.bindings d
  rw [howners, Option.map_eq_none_iff, List.getLast?_eq_none_iff, List.filter_eq_nil_iff]
  constructor
  · intro h n hn
    exact h _ ((mem_bindings_iff hk).2 hn) (by simp)
  · rintro h ⟨a, n⟩ he ha
    have ha : a = d := by simpa using ha
    subst ha
    exact h n ((mem_bindings_iff hk).1 he)

end Router

end RouteKeeper
