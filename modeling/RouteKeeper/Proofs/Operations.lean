import RouteKeeper.Proofs.Lookups

/-!
# What operations change

Most operations only mark or measure: what a path or a service is, its route and the number of its
claim stay. The others add one path or one service, or give a path a new specification.

## Main definitions

* `Router.Marks` — a router differs from another only in marks and measurements.

## Main statements

* `marks_deletePeer`, `marks_deleteService`, `marks_flush`, `marks_recordRound`
* `path?_deletePeer`, `path?_flush`, `path?_recordRound` — the paths that are marked or measured.
* `path?_addPeer`, `service?_addService` — the entry that an operation adds or changes.
* `service?_deletePeer`, `service?_deleteService`, `service?_flush` — only candidates are marked.
-/
namespace RouteKeeper

/-- What marks and measurements leave alone in a path. -/
def Path.core (p : Path) : PathSpec × Option String × Nat := (p.spec, p.installed, p.claim)

/-- The path, marked to be removed. -/
def Path.doomed (p : Path) : Path := { p with flags := p.flags.toDelete }

/-- What marks leave alone in a service. -/
def Service.core (s : Service) : Prefix × Option ActiveRoute × Nat :=
  (s.destination, s.active, s.claim)

/-- The second group differs from the first only in marks and measurements. -/
structure Group.Marks (g g' : Group) : Prop where
  name : g'.name = g.name
  path (c : ConnectionName) : (g'.paths.get? c).map Path.core = (g.paths.get? c).map Path.core
  service (d : Prefix) :
    (g'.services.get? d).map Service.core = (g.services.get? d).map Service.core

/-- The second router differs from the first only in marks and measurements. -/
structure Router.Marks (r r' : Router) : Prop where
  claims : r'.claims = r.claims
  name (n : GroupName) : (r'.groups.get? n).map Group.name = (r.groups.get? n).map Group.name
  path (n : GroupName) (c : ConnectionName) :
    (r'.path? n c).map Path.core = (r.path? n c).map Path.core
  service (n : GroupName) (d : Prefix) :
    (r'.service? n d).map Service.core = (r.service? n d).map Service.core

/-! ## Marking and measuring -/

namespace Group

theorem Marks.refl (g : Group) : g.Marks g := ⟨rfl, fun _ => rfl, fun _ => rfl⟩

theorem marks_deletePath (g : Group) (connection : ConnectionName) :
    g.Marks (g.deletePath connection) := by
  unfold deletePath
  split
  case isFalse => exact Marks.refl g
  case isTrue =>
    refine ⟨rfl, ?_, ?_⟩
    · intro c
      rw [OrderedMap.get?_modify]
      split
      · rw [Option.map_map]
        rfl
      · rfl
    · intro d
      rw [OrderedMap.get?_map, Option.map_map]
      rfl

theorem marks_deleteService (g : Group) (destination : Prefix) (connection : ConnectionName) :
    g.Marks (g.deleteService destination connection) := by
  refine ⟨rfl, fun _ => rfl, ?_⟩
  intro d
  rw [deleteService, OrderedMap.get?_modify]
  split
  · rw [Option.map_map]
    rfl
  · rfl

theorem marks_flush (g : Group) : g.Marks g.flush := by
  refine ⟨rfl, ?_, ?_⟩
  · intro c
    rw [flush, OrderedMap.get?_map, Option.map_map]
    rfl
  · intro d
    rw [flush, OrderedMap.get?_map, Option.map_map]
    rfl

end Group

namespace Router

variable {r : Router}

/-- Marking and measuring groups is marking and measuring a router. -/
theorem marks_of_groups {r' : Router} {f : GroupName → Group → Group}
    (hclaims : r'.claims = r.claims) (hgroups : ∀ n, r'.groups.get? n = (r.groups.get? n).map (f n))
    (hf : ∀ (n : GroupName) (g : Group), g.Marks (f n g)) : r.Marks r' where
  claims := hclaims
  name n := by
    rw [hgroups]
    cases r.groups.get? n with
    | none => rfl
    | some g => exact congrArg some (hf n g).name
  path n c := by
    rw [path?, path?, hgroups]
    cases r.groups.get? n with
    | none => rfl
    | some g => exact (hf n g).path c
  service n d := by
    rw [service?, service?, hgroups]
    cases r.groups.get? n with
    | none => rfl
    | some g => exact (hf n g).service d

theorem marks_modify (name : GroupName) (f : Group → Group) (hf : ∀ g : Group, g.Marks (f g)) :
    r.Marks { r with groups := r.groups.modify name f } := by
  refine marks_of_groups (f := fun n => if n = name then f else id) rfl ?_ ?_
  · intro n
    rw [OrderedMap.get?_modify]
    split <;> simp
  · intro n g
    split
    · exact hf g
    · exact Group.Marks.refl g

theorem marks_deletePeer (name : GroupName) (connection : ConnectionName) :
    r.Marks (r.deletePeer name connection) :=
  marks_modify name _ fun g => g.marks_deletePath connection

theorem marks_deleteService (name : GroupName) (destination : Prefix)
    (connection : ConnectionName) : r.Marks (r.deleteService name destination connection) :=
  marks_modify name _ fun g => g.marks_deleteService destination connection

theorem marks_flush : r.Marks r.flush :=
  marks_of_groups (f := fun _ => Group.flush) rfl (fun n => r.groups.get?_map Group.flush n)
    fun _ g => g.marks_flush

theorem marks_recordRound (results : RoundTrips) : r.Marks (r.recordRound results) := by
  refine marks_of_groups rfl (fun n => r.groups.get?_map _ n) fun _ g => ?_
  refine ⟨rfl, ?_, fun _ => rfl⟩
  intro c
  rw [OrderedMap.get?_map]
  cases g.paths.get? c with
  | none => rfl
  | some p =>
    simp only [Option.map_some]
    split
    · rfl
    · split <;> rfl

/-! ### Paths that are marked or measured -/

theorem path?_deletePeer (name : GroupName) (connection : ConnectionName) (n : GroupName)
    (c : ConnectionName) :
    (r.deletePeer name connection).path? n c =
      if n = name ∧ c = connection then (r.path? n c).map Path.doomed else r.path? n c := by
  simp only [deletePeer, path?, OrderedMap.get?_modify]
  by_cases hn : n = name
  · cases r.groups.get? n with
    | none => simp
    | some g =>
      have hpaths : (g.deletePath connection).paths.get? c =
          if c = connection then (g.paths.get? c).map Path.doomed else g.paths.get? c := by
        unfold Group.deletePath
        split
        case isTrue => exact OrderedMap.get?_modify ..
        case isFalse habsent =>
          split
          case isTrue hc =>
            rw [hc, OrderedMap.contains, Option.not_isSome_iff_eq_none] at *
            rw [habsent, Option.map_none]
          case isFalse => rfl
      simpa [hn] using hpaths
  · simp [hn]

theorem path?_deleteService (name : GroupName) (destination : Prefix)
    (connection : ConnectionName) (n : GroupName) (c : ConnectionName) :
    (r.deleteService name destination connection).path? n c = r.path? n c := by
  simp only [deleteService, path?, OrderedMap.get?_modify]
  split
  · cases r.groups.get? n <;> rfl
  · rfl

theorem path?_flush (n : GroupName) (c : ConnectionName) :
    r.flush.path? n c = (r.path? n c).map Path.doomed := by
  simp only [flush, path?, OrderedMap.get?_map]
  cases r.groups.get? n with
  | none => rfl
  | some g => exact g.paths.get?_map _ c

/-- A round changes of a path only its window. -/
theorem path?_recordRound {results : RoundTrips} {n : GroupName} {c : ConnectionName} {p' : Path}
    (h : (r.recordRound results).path? n c = some p') :
    ∃ p window, r.path? n c = some p ∧ p' = { p with window } := by
  simp only [recordRound, path?, OrderedMap.get?_map, Option.bind_map] at h
  obtain ⟨g, hgroup, hpath⟩ := Option.bind_eq_some_iff.1 h
  simp only [Function.comp, OrderedMap.get?_map] at hpath
  obtain ⟨p, hp, rfl⟩ := Option.map_eq_some_iff.1 hpath
  refine ⟨p, ?_⟩
  split
  · exact ⟨p.window, path?_eq_some_iff.2 ⟨g, hgroup, hp⟩, rfl⟩
  · split
    · exact ⟨_, path?_eq_some_iff.2 ⟨g, hgroup, hp⟩, rfl⟩
    · exact ⟨p.window, path?_eq_some_iff.2 ⟨g, hgroup, hp⟩, rfl⟩

/-! ### Services that are marked -/

/-- Where only candidates of the services of groups change, only candidates of services do. -/
theorem service?_of_groups {r' : Router} {f : GroupName → Group → Group}
    (hgroups : ∀ n, r'.groups.get? n = (r.groups.get? n).map (f n))
    (hf : ∀ (n : GroupName) (g : Group) (d : Prefix) (s' : Service),
      (f n g).services.get? d = some s' →
        ∃ s candidates, g.services.get? d = some s ∧ s' = { s with candidates })
    {n : GroupName} {d : Prefix} {s' : Service} (h : r'.service? n d = some s') :
    ∃ s candidates, r.service? n d = some s ∧ s' = { s with candidates } := by
  obtain ⟨g', hgroup', hservice'⟩ := service?_eq_some_iff.1 h
  rw [hgroups] at hgroup'
  obtain ⟨g, hgroup, rfl⟩ := Option.map_eq_some_iff.1 hgroup'
  obtain ⟨s, candidates, hservice, hs'⟩ := hf n g d s' hservice'
  exact ⟨s, candidates, service?_eq_some_iff.2 ⟨g, hgroup, hservice⟩, hs'⟩

theorem service?_modify {name : GroupName} {f : Group → Group}
    (hf : ∀ (g : Group) (d : Prefix) (s' : Service), (f g).services.get? d = some s' →
      ∃ s candidates, g.services.get? d = some s ∧ s' = { s with candidates })
    {n : GroupName} {d : Prefix} {s' : Service}
    (h : ({ r with groups := r.groups.modify name f } : Router).service? n d = some s') :
    ∃ s candidates, r.service? n d = some s ∧ s' = { s with candidates } := by
  refine service?_of_groups (f := fun n => if n = name then f else id) ?_ ?_ h
  · intro n
    rw [OrderedMap.get?_modify]
    split <;> simp
  · intro n g d s' hservice
    split at hservice
    · exact hf g d s' hservice
    · exact ⟨s', s'.candidates, hservice, rfl⟩

section Services

variable {n : GroupName} {d : Prefix} {s' : Service}

theorem service?_deletePeer {name : GroupName} {connection : ConnectionName}
    (h : (r.deletePeer name connection).service? n d = some s') :
    ∃ s candidates, r.service? n d = some s ∧ s' = { s with candidates } := by
  refine service?_modify (fun g d s' hservice => ?_) h
  unfold Group.deletePath at hservice
  split at hservice
  · rw [OrderedMap.get?_map] at hservice
    obtain ⟨s, hs, rfl⟩ := Option.map_eq_some_iff.1 hservice
    exact ⟨s, _, hs, rfl⟩
  · exact ⟨s', s'.candidates, hservice, rfl⟩

theorem service?_deleteService {name : GroupName} {destination : Prefix}
    {connection : ConnectionName}
    (h : (r.deleteService name destination connection).service? n d = some s') :
    ∃ s candidates, r.service? n d = some s ∧ s' = { s with candidates } := by
  refine service?_modify (fun g d s' hservice => ?_) h
  rw [Group.deleteService, OrderedMap.get?_modify] at hservice
  split at hservice
  · obtain ⟨s, hs, rfl⟩ := Option.map_eq_some_iff.1 hservice
    exact ⟨s, _, hs, rfl⟩
  · exact ⟨s', s'.candidates, hservice, rfl⟩

theorem service?_flush (h : r.flush.service? n d = some s') :
    ∃ s candidates, r.service? n d = some s ∧ s' = { s with candidates } := by
  refine service?_of_groups (f := fun _ => Group.flush) (fun n => r.groups.get?_map _ n) ?_ h
  intro n g d s' hservice
  rw [Group.flush, OrderedMap.get?_map] at hservice
  obtain ⟨s, hs, rfl⟩ := Option.map_eq_some_iff.1 hservice
  exact ⟨s, _, hs, rfl⟩

theorem service?_recordRound (results : RoundTrips) (n : GroupName) (d : Prefix) :
    (r.recordRound results).service? n d = r.service? n d := by
  simp only [recordRound, service?, OrderedMap.get?_map]
  cases r.groups.get? n <;> rfl

end Services

/-! ## Adding -/

theorem paths_group (n : GroupName) (c : ConnectionName) :
    (r.group n).paths.get? c = r.path? n c := by
  rw [group, path?]
  cases r.groups.get? n <;> rfl

theorem services_group (n : GroupName) (d : Prefix) :
    (r.group n).services.get? d = r.service? n d := by
  rw [group, service?]
  cases r.groups.get? n <;> rfl

theorem addPeer_of_isUsable {spec : PathSpec} (h : spec.isUsable = true) (name : GroupName) :
    r.addPeer name spec =
      { r with
        claims := r.claims + 1
        groups := r.groups.insert name ((r.group name).addPath spec (r.claims + 1)) } := by
  rw [addPeer, if_pos h]

theorem addPeer_of_not_isUsable {spec : PathSpec} (h : spec.isUsable = false) (name : GroupName) :
    r.addPeer name spec = r := by
  rw [addPeer, h]
  rfl

/-- The path that asking for a path leads to. -/
def requested (r : Router) (name : GroupName) (spec : PathSpec) : Path :=
  match r.path? name spec.connection with
  | some path => path.update spec
  | none =>
    .new spec (r.group name).name (r.group name).selector.policy.windowSize (r.claims + 1)

/-- A path that is asked for keeps what it records as installed. -/
theorem installed_requested (name : GroupName) (spec : PathSpec) :
    (r.requested name spec).installed = (r.path? name spec.connection).bind Path.installed := by
  rw [requested]
  cases r.path? name spec.connection <;> rfl

/-- A path that is asked for is specified as it is asked for. -/
theorem spec_requested (name : GroupName) (spec : PathSpec) :
    (r.requested name spec).spec = spec.normal := by
  rw [requested]
  cases r.path? name spec.connection <;> rfl

/-- A path that is asked for takes the address that it is asked for with. -/
theorem destination_requested (name : GroupName) (spec : PathSpec) :
    (r.requested name spec).destination = .host spec.normal.address := by
  rw [requested]
  cases r.path? name spec.connection <;> rfl

/-- Asking for a path changes one path. -/
theorem path?_addPeer {spec : PathSpec} (h : spec.isUsable = true) (name n : GroupName)
    (c : ConnectionName) :
    (r.addPeer name spec).path? n c =
      if n = name ∧ c = spec.connection then some (r.requested name spec) else r.path? n c := by
  rw [addPeer_of_isUsable h]
  simp only [path?, OrderedMap.get?_insert]
  by_cases hn : n = name
  · subst hn
    have hpaths : ((r.group n).addPath spec (r.claims + 1)).paths.get? c =
        if c = spec.connection then some (r.requested n spec) else r.path? n c := by
      cases hp : r.path? n spec.connection <;>
        simp only [Group.addPath, OrderedMap.get?_insert, paths_group, requested, hp]
    simpa [path?] using hpaths
  · simp [hn]

theorem service?_addPeer (name : GroupName) (spec : PathSpec) (n : GroupName) (d : Prefix) :
    (r.addPeer name spec).service? n d = r.service? n d := by
  cases h : spec.isUsable with
  | false => rw [addPeer_of_not_isUsable h]
  | true =>
    rw [addPeer_of_isUsable h]
    simp only [service?, OrderedMap.get?_insert]
    by_cases hn : n = name
    · subst hn
      have hservices : ((r.group n).addPath spec (r.claims + 1)).services.get? d = r.service? n d :=
        services_group n d
      simpa [service?] using hservices
    · simp [hn]

theorem path?_addService (name : GroupName) (destination : Prefix) (connection : ConnectionName)
    (n : GroupName) (c : ConnectionName) :
    (r.addService name destination connection).path? n c = r.path? n c := by
  simp only [addService, path?, OrderedMap.get?_insert]
  by_cases hn : n = name
  · subst hn
    have hpaths : ((r.group n).addService destination connection (r.claims + 1)).paths.get? c =
        r.path? n c := paths_group n c
    simpa [path?] using hpaths
  · simp [hn]

/-- Asking for a service adds a service without a route, or leaves all but the candidates of the one
that is there. -/
theorem exists_service?_addService (name : GroupName) (destination : Prefix)
    (connection : ConnectionName) (n : GroupName) (d : Prefix) :
    ∃ candidates, (r.addService name destination connection).service? n d =
      if n = name ∧ d = destination.normal then
        some { (r.service? n d).getD (.new d (r.claims + 1)) with candidates }
      else r.service? n d := by
  let service := (r.service? name destination.normal).getD (.new destination.normal (r.claims + 1))
  let flags := (service.candidates.get? connection).getD .none
  refine ⟨service.candidates.insert connection flags.toAdd, ?_⟩
  simp only [addService, service?, OrderedMap.get?_insert]
  by_cases hn : n = name
  · subst hn
    have hservices : ((r.group n).addService destination connection
        (r.claims + 1)).services.get? d =
        if d = destination.normal then
          some { (r.service? n d).getD (.new d (r.claims + 1)) with
            candidates := service.candidates.insert connection flags.toAdd }
        else r.service? n d := by
      simp only [Group.addService, OrderedMap.get?_insert, services_group]
      split
      case isTrue hd =>
        subst hd
        rfl
      case isFalse => rfl
    simpa [service?] using hservices
  · simp [hn]

theorem service?_addService (name : GroupName) (destination : Prefix)
    (connection : ConnectionName) (n : GroupName) (d : Prefix) :
    ((r.addService name destination connection).service? n d).map Service.core =
      if n = name ∧ d = destination.normal then
        some ((r.service? n d).getD (.new d (r.claims + 1))).core
      else (r.service? n d).map Service.core := by
  obtain ⟨candidates, hservice⟩ :=
    exists_service?_addService (r := r) name destination connection n d
  rw [hservice]
  split <;> rfl

/-! ## Names -/

theorem Marks.keyed {r' : Router} (h : r.Marks r') (hk : r.Keyed) : r'.Keyed where
  name {n g'} hg' := by
    have hname := h.name n
    rw [hg', Option.map_some] at hname
    obtain ⟨g, hg, hsame⟩ := Option.map_eq_some_iff.1 hname.symm
    exact hsame.symm.trans (hk.name hg)
  connection {n c p'} hp' := by
    have hpath := h.path n c
    rw [hp', Option.map_some] at hpath
    obtain ⟨p, hp, hcore⟩ := Option.map_eq_some_iff.1 hpath.symm
    have hspec : p.spec = p'.spec := congrArg Prod.fst hcore
    exact (congrArg PathSpec.connection hspec.symm).trans (hk.connection hp)
  destination {n d s'} hs' := by
    have hservice := h.service n d
    rw [hs', Option.map_some] at hservice
    obtain ⟨s, hs, hcore⟩ := Option.map_eq_some_iff.1 hservice.symm
    have hdestination : s.destination = s'.destination := congrArg Prod.fst hcore
    exact hdestination.symm.trans (hk.destination hs)

theorem Keyed.name_group (hk : r.Keyed) (n : GroupName) : (r.group n).name = n := by
  cases h : r.groups.get? n with
  | none =>
    rw [group, h]
    rfl
  | some g =>
    rw [group, h]
    exact hk.name h

theorem Keyed.addPeer (hk : r.Keyed) (name : GroupName) (spec : PathSpec) :
    (r.addPeer name spec).Keyed := by
  cases husable : spec.isUsable with
  | false => rwa [addPeer_of_not_isUsable husable]
  | true =>
    refine ⟨?_, ?_, ?_⟩
    · intro n g hgroup
      rw [addPeer_of_isUsable husable, OrderedMap.get?_insert] at hgroup
      split at hgroup
      case isTrue hn =>
        cases hgroup
        exact (hk.name_group name).trans hn.symm
      case isFalse => exact hk.name hgroup
    · intro n c p hp
      rw [path?_addPeer husable] at hp
      split at hp
      case isTrue hkey =>
        cases hp
        rw [hkey.2, requested]
        split <;> rfl
      case isFalse => exact hk.connection hp
    · intro n d s hs
      rw [service?_addPeer] at hs
      exact hk.destination hs

theorem Keyed.addService (hk : r.Keyed) (name : GroupName) (destination : Prefix)
    (connection : ConnectionName) : (r.addService name destination connection).Keyed := by
  refine ⟨?_, ?_, ?_⟩
  · intro n g hgroup
    rw [Router.addService, OrderedMap.get?_insert] at hgroup
    split at hgroup
    case isTrue hn =>
      cases hgroup
      exact (hk.name_group name).trans hn.symm
    case isFalse => exact hk.name hgroup
  · intro n c p hp
    rw [path?_addService] at hp
    exact hk.connection hp
  · intro n d s hs
    have hcore := service?_addService (r := r) name destination connection n d
    rw [hs, Option.map_some] at hcore
    split at hcore
    case isTrue =>
      have hdestination := congrArg Prod.fst (Option.some.inj hcore)
      refine hdestination.trans ?_
      cases hold : r.service? n d with
      | none => rfl
      | some s => exact hk.destination hold
    case isFalse =>
      obtain ⟨s₀, hs₀, hsame⟩ := Option.map_eq_some_iff.1 hcore.symm
      exact (congrArg Prod.fst hsame).symm.trans (hk.destination hs₀)

end Router

end RouteKeeper
