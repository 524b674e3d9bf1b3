import RouteKeeper.Proofs.Choices
import RouteKeeper.Proofs.History

/-!
# Marks of waiting that change nothing

A path without a route is tried whether or not it is marked to wait for one, and the marks of
candidates are read by no turn. So routers that differ only in such marks are reconciled alike.

## Main definitions

* `Router.Renewed` — the second router has the entries of the first, some of which are marked to
  wait besides: paths without a route, and candidates.

## Main statements

* `reconcilePath_renewed`, `reconcileService_renewed` — the turns of entries.
* `Router.Renewed.reconcileWith` — routers that differ in such marks are reconciled alike.
-/
namespace RouteKeeper

variable {σ : Type}

/-! ## Marks of waiting -/

/-- The same marks, and that of waiting to be installed. -/
def Flags.waiting (f : Flags) : Flags := { f with pendingAdd := true }

/-- The path, marked to wait for its route. -/
def Path.waiting (p : Path) : Path := { p with flags := p.flags.waiting }

/-- The service, its candidates marked to wait. -/
def Service.waiting (s : Service) : Service :=
  { s with candidates := s.candidates.map Flags.waiting }

/-- The second path is the first; or this has no route, and that waits for one. -/
def Path.Renewed (p p' : Path) : Prop := p' = p ∨ (p.installed = none ∧ p' = p.waiting)

/-- The second service is the first, or all its candidates wait. -/
def Service.Renewed (s s' : Service) : Prop := s' = s ∨ s' = s.waiting

/-- The second group is the first but for paths and services that are renewed. -/
structure Group.Renewed (g g' : Group) : Prop where
  name : g'.name = g.name
  selector : g'.selector = g.selector
  selection : g'.selection = g.selection
  paths : g.paths.Rel Path.Renewed g'.paths
  services : g.services.Rel Service.Renewed g'.services

/-- The second router is the first but for groups that are renewed, and more claims were made. -/
structure Router.Renewed (more : Nat) (r r' : Router) : Prop where
  policy : r'.policy = r.policy
  claims : r'.claims = r.claims + more
  groups : r.groups.Rel Group.Renewed r'.groups

/-! ### What the marks leave -/

namespace Path

variable (p : Path)

@[simp] theorem spec_waiting : p.waiting.spec = p.spec := rfl

@[simp] theorem connection_waiting : p.waiting.connection = p.connection := rfl

@[simp] theorem interface_waiting : p.waiting.interface = p.interface := rfl

@[simp] theorem destination_waiting : p.waiting.destination = p.destination := rfl

@[simp] theorem isInstalled_waiting : p.waiting.isInstalled = p.isInstalled := rfl

@[simp] theorem pendingDelete_waiting :
    p.waiting.flags.pendingDelete = p.flags.pendingDelete := rfl

@[simp] theorem disabled_waiting : p.waiting.flags.disabled = p.flags.disabled := rfl

end Path

section Path

variable {p p' : Path}

theorem Path.Renewed.bare (h : p.Renewed p') : p'.bare = p.bare := by
  rcases h with rfl | ⟨-, rfl⟩ <;> rfl

theorem Path.Renewed.installed (h : p.Renewed p') : p'.installed = p.installed := by
  rcases h with rfl | ⟨-, rfl⟩ <;> rfl

theorem Path.Renewed.spec (h : p.Renewed p') : p'.spec = p.spec := by
  rcases h with rfl | ⟨-, rfl⟩ <;> rfl

/-- A path loses its prefix alike; without a route it is left without one. -/
theorem Path.Renewed.disable (h : p.Renewed p') {installed : Option String}
    (hroute : p.installed = none → installed = none) :
    ({ p with flags := { p.flags with disabled := true }, installed } : Path).Renewed
      { p' with flags := { p'.flags with disabled := true }, installed } := by
  rcases h with rfl | ⟨hnone, rfl⟩
  · exact .inl rfl
  · exact .inr ⟨hroute hnone, rfl⟩

/-- A path that regains its prefix waits in any case. -/
theorem Path.Renewed.regained (h : p.Renewed p') : p'.regained = p.regained := by
  rcases h with rfl | ⟨-, rfl⟩ <;> rfl

end Path

section Service

variable {s s' : Service}

@[simp] theorem Service.liveCandidates_waiting (s : Service) :
    s.waiting.liveCandidates = s.liveCandidates := by
  simp [liveCandidates, waiting, OrderedMap.keys, OrderedMap.filter, OrderedMap.map,
    OrderedMap.mapWithKey, List.filter_map, Function.comp_def, Flags.waiting]

@[simp] theorem Service.commit_waiting (s : Service) : s.waiting.commit = s.commit := by
  have hcandidates : s.waiting.commit.candidates = s.commit.candidates := by
    refine OrderedMap.get?_ext fun c => ?_
    simp only [commit, waiting, OrderedMap.get?_map, OrderedMap.get?_filter]
    cases s.candidates.get? c with
    | none => rfl
    | some f => cases h : f.pendingDelete <;> simp [Flags.waiting, Option.filter_some, h]
  show ({ s.commit with candidates := s.waiting.commit.candidates } : Service) = s.commit
  rw [hcandidates]

theorem Service.Renewed.liveCandidates (h : s.Renewed s') :
    s'.liveCandidates = s.liveCandidates := by
  rcases h with rfl | rfl
  · rfl
  · exact s.liveCandidates_waiting

theorem Service.Renewed.isCleared (h : s.Renewed s') : s'.isCleared = s.isCleared := by
  rw [Service.isCleared, Service.isCleared, h.liveCandidates]

theorem Service.Renewed.destination (h : s.Renewed s') : s'.destination = s.destination := by
  rcases h with rfl | rfl <;> rfl

theorem Service.Renewed.active (h : s.Renewed s') : s'.active = s.active := by
  rcases h with rfl | rfl <;> rfl

theorem Service.Renewed.disabled (h : s.Renewed s') : s'.disabled = s.disabled := by
  rcases h with rfl | rfl <;> rfl

theorem Service.Renewed.claim (h : s.Renewed s') : s'.claim = s.claim := by
  rcases h with rfl | rfl <;> rfl

/-- Settling takes the marks of waiting off. -/
theorem Service.Renewed.settle (h : s.Renewed s') : s'.settle = s.settle := by
  have hcommit : s'.commit = s.commit := by
    rcases h with rfl | rfl
    · rfl
    · exact s.commit_waiting
  simp only [Service.settle, hcommit]

theorem Service.Renewed.withActive (h : s.Renewed s') (active : Option ActiveRoute) :
    ({ s with active } : Service).Renewed { s' with active } := by
  rcases h with rfl | rfl
  · exact .inl rfl
  · exact .inr rfl

theorem Service.Renewed.withDisabled (h : s.Renewed s') (disabled : Bool) :
    ({ s with disabled } : Service).Renewed { s' with disabled } := by
  rcases h with rfl | rfl
  · exact .inl rfl
  · exact .inr rfl

theorem Service.Renewed.plan (h : s.Renewed s') (desired : Option ConnectionName) :
    s'.plan desired = s.plan desired := by
  simp only [Service.plan, h.active, h.isCleared, h.disabled]

end Service

section Group

variable {g g' : Group}

theorem Group.Renewed.candidates (h : g.Renewed g') : g'.paths.candidates = g.paths.candidates := by
  have hvalid : ∀ p p' : Path, p.Renewed p' → p'.isValid = p.isValid := by
    intro p p' hp
    rw [← p'.isValid_bare, hp.bare, p.isValid_bare]
  exact (h.paths.filter fun _ => hvalid).mapWithKey_eq fun _ _ _ hp => hp.bare

theorem Group.Renewed.desired (h : g.Renewed g') {s s' : Service} (hs : s.Renewed s') :
    g'.desired s' = g.desired s :=
  Group.desired_congr h.candidates (by rw [h.selection]) (by rw [h.selection]) hs.liveCandidates

theorem Group.Renewed.routeThrough (h : g.Renewed g') (connection : ConnectionName) :
    g'.routeThrough connection = g.routeThrough connection := by
  rw [Group.routeThrough, Group.routeThrough]
  rcases h.paths.cases connection with ⟨hnone, hnone'⟩ | ⟨p, p', hp, hp', hrenewed⟩
  · rw [hnone, hnone', Option.map_none]
  · simp only [hp, hp', Option.map_some, Path.interface, hrenewed.spec]

theorem Group.Renewed.isEmpty (h : g.Renewed g') : g'.isEmpty = g.isEmpty := by
  rw [Group.isEmpty, Group.isEmpty, h.paths.isEmpty_eq, h.services.isEmpty_eq]

/-- A group is selected for alike. -/
theorem Group.Renewed.reselect (h : g.Renewed g') : g.reselect.Renewed g'.reselect := by
  have hselect : g'.selector.select Loss.less g'.paths = g.selector.select Loss.less g.paths := by
    rw [← Selector.select_candidates, h.candidates, h.selector, Selector.select_candidates]
  exact ⟨h.name, by simp only [Group.reselect, hselect], by simp only [Group.reselect, hselect],
    h.paths, h.services⟩

end Group

/-! ## Turns -/

theorem Path.renewed_refl (o : Option Path) : Option.Rel Path.Renewed o o := by
  cases o with
  | none => exact .none
  | some p => exact .some (.inl rfl)

theorem Service.renewed_refl (o : Option Service) : Option.Rel Service.Renewed o o := by
  cases o with
  | none => exact .none
  | some s => exact .some (.inl rfl)

/-- A path without a route has the same turn whether or not it is marked to wait. -/
theorem reconcilePath_renewed {p p' : Path} (h : p.Renewed p') (T : RouteTable σ)
    (managed : List String) (group : GroupName) (pass : Pass σ) :
    Option.Rel Path.Renewed (reconcilePath T managed group pass p).1
        (reconcilePath T managed group pass p').1 ∧
      (reconcilePath T managed group pass p').2 = (reconcilePath T managed group pass p).2 := by
  rcases h with rfl | ⟨hroute, rfl⟩
  · exact ⟨Path.renewed_refl _, rfl⟩
  have hstays : Option.Rel Path.Renewed (some p) (some p.waiting) := .some (.inr ⟨hroute, rfl⟩)
  have hroute' : p.waiting.installed = none := hroute
  have hidle : p.isInstalled = false := by rw [Path.isInstalled, hroute]; rfl
  simp only [reconcilePath, hroute, hroute', hidle, Path.pendingDelete_waiting,
    Path.disabled_waiting, Path.isInstalled_waiting, Path.destination_waiting,
    Path.interface_waiting, Path.spec_waiting, Path.connection_waiting, Bool.and_false]
  split
  case isTrue => exact ⟨.none, rfl⟩
  case isFalse =>
    split
    case isTrue => exact ⟨hstays, rfl⟩
    case isFalse =>
      split
      case h_1 => exact ⟨hstays, rfl⟩
      case h_2 => exact ⟨Path.renewed_refl _, rfl⟩

theorem finishService_renewed {s s' : Service} (h : s.Renewed s') (group : GroupName)
    (pass : Pass σ) (table : σ) (action : Action) (result : Except Error Outcome)
    (current : Option ActiveRoute) :
    Option.Rel Service.Renewed (finishService group s pass table action result current).1
        (finishService group s' pass table action result current).1 ∧
      (finishService group s' pass table action result current).2 =
        (finishService group s pass table action result current).2 := by
  cases result with
  | error e =>
    simp only [finishService, h.destination]
    exact ⟨.some h, trivial⟩
  | ok outcome =>
    rw [finishService_ok_fst, finishService_ok_fst, (h.withActive current).settle]
    refine ⟨Service.renewed_refl _, ?_⟩
    simp only [finishService, h.destination, h.active]

/-- The turn of a service does not depend on which of its candidates wait. -/
theorem reconcileService_renewed {g g' : Group} (hg : g.Renewed g') {s s' : Service}
    (h : s.Renewed s') (T : RouteTable σ) (managed : List String) (pass : Pass σ) :
    Option.Rel Service.Renewed (reconcileService T managed g pass s).1
        (reconcileService T managed g' pass s').1 ∧
      (reconcileService T managed g' pass s').2 = (reconcileService T managed g pass s).2 := by
  simp only [reconcileService, hg.desired h, h.plan, h.destination, hg.name, hg.routeThrough,
    h.settle]
  cases s.plan (g.desired s) with
  | keep => exact ⟨Service.renewed_refl _, rfl⟩
  | clear route => exact finishService_renewed h ..
  | install target =>
    simp only
    cases g.routeThrough target with
    | none => exact ⟨Service.renewed_refl _, rfl⟩
    | some route =>
      simp only
      split
      case isTrue => exact ⟨.some h, rfl⟩
      case isFalse => exact finishService_renewed h ..
  | move target =>
    simp only
    cases g.routeThrough target with
    | none => exact ⟨Service.renewed_refl _, rfl⟩
    | some route => exact finishService_renewed h ..

theorem visitPath_renewed {g g' : Group} (h : g.Renewed g') (T : RouteTable σ)
    (managed : List String) (pass : Pass σ) (connection : ConnectionName) :
    (visitPath T managed (g, pass) connection).1.Renewed
        (visitPath T managed (g', pass) connection).1 ∧
      (visitPath T managed (g', pass) connection).2 =
        (visitPath T managed (g, pass) connection).2 := by
  rcases h.paths.cases connection with ⟨hnone, hnone'⟩ | ⟨p, p', hp, hp', hrenewed⟩
  · simpa only [visitPath, hnone, hnone', and_true] using h
  · obtain ⟨hkept, hpass⟩ := reconcilePath_renewed hrenewed T managed g.name pass
    simp only [visitPath, hp, hp', h.name]
    exact ⟨⟨rfl, h.selector, h.selection, h.paths.put connection hkept, h.services⟩, hpass⟩

theorem visitService_renewed {g g' : Group} (h : g.Renewed g') (T : RouteTable σ)
    (managed : List String) (pass : Pass σ) (destination : Prefix) :
    (visitService T managed (g, pass) destination).1.Renewed
        (visitService T managed (g', pass) destination).1 ∧
      (visitService T managed (g', pass) destination).2 =
        (visitService T managed (g, pass) destination).2 := by
  rcases h.services.cases destination with ⟨hnone, hnone'⟩ | ⟨s, s', hs, hs', hrenewed⟩
  · simpa only [visitService, hnone, hnone', and_true] using h
  · obtain ⟨hkept, hpass⟩ := reconcileService_renewed h hrenewed T managed pass
    rw [visitService_of_get? hs, visitService_of_get? hs']
    exact ⟨⟨h.name, h.selector, h.selection, h.paths, h.services.put destination hkept⟩, hpass⟩

/-! ## Passes -/

namespace Router.Renewed

variable {more : Nat} {r r' : Router}

theorem managedInterfaces_eq (h : r.Renewed more r') :
    r'.managedInterfaces = r.managedInterfaces := by
  refine h.groups.values_flatMap_eq fun g g' hg => ?_
  have hpaths := hg.paths.values_flatMap_eq (f := fun p => p.interface :: p.installed.toList)
    (g := fun p => p.interface :: p.installed.toList) fun p p' hp => by
      rw [Path.interface, hp.spec, hp.installed, Path.interface]
  have hservices := hg.services.values_filterMap_eq
    (f := fun s => s.active.map (·.hop.interface))
    (g := fun s => s.active.map (·.hop.interface)) fun s s' hs => by rw [hs.active]
  rw [hpaths, hservices]

theorem owners_eq (h : r.Renewed more r') : r'.owners = r.owners := by
  have hprefixes : ∀ g g' : Group, g.Renewed g' → g'.installedPrefixes = g.installedPrefixes := by
    intro g g' hg
    rw [Group.installedPrefixes, Group.installedPrefixes]
    rw [hg.paths.values_filter_map_eq (p := Path.isInstalled) (f := Path.destination)
      (fun p p' hp => by rw [Path.isInstalled, hp.installed, Path.isInstalled])
      (fun p p' hp => by rw [Path.destination, hp.spec, Path.destination])]
    rw [hg.services.values_filter_map_eq (p := fun s => s.active.isSome)
      (q := fun s => s.active.isSome) (f := Service.destination)
      (fun s s' hs => by rw [hs.active]) (fun s s' hs => hs.destination)]
  rw [owners, owners]
  congr 1
  exact h.groups.values_flatMap_eq fun g g' hg => by rw [hprefixes g g' hg, hg.name]

theorem turns_eq (h : r.Renewed more r') (visit : Visit) : r'.turns visit = r.turns visit := by
  refine h.groups.entries_flatMap_eq (f := fun n g => g.turns visit n)
    (g := fun n g => g.turns visit n) fun n g g' hg => ?_
  rw [Group.turns, Group.turns, hg.paths.keys_eq, hg.services.keys_eq, hg.name]

theorem putGroup (h : r.Renewed more r') (name : GroupName) {g g' : Group} (hg : g.Renewed g') :
    (r.putGroup name g).Renewed more (r'.putGroup name g') where
  policy := h.policy
  claims := h.claims
  groups := h.groups.put name (.some hg)

end Router.Renewed

/-- Passes that stand at routers of which one renews the other, and have done the same. -/
structure Stage.Renewed (more : Nat) (s s' : Stage σ) : Prop where
  router : s.router.Renewed more s'.router
  pass : s'.pass = s.pass

namespace Stage.Renewed

variable {more : Nat} {s s' : Stage σ}

/-- A change of one group keeps it so if it does with the groups. -/
theorem onGroup (h : s.Renewed more s') (name : GroupName)
    {f : Group × Pass σ → Group × Pass σ}
    (hf : ∀ g g' pass, g.Renewed g' →
      (f (g, pass)).1.Renewed (f (g', pass)).1 ∧ (f (g', pass)).2 = (f (g, pass)).2) :
    (s.onGroup name f).Renewed more (s'.onGroup name f) := by
  rcases h.router.groups.cases name with ⟨hnone, hnone'⟩ | ⟨g, g', hg, hg', hrenewed⟩
  · simpa only [Stage.onGroup, hnone, hnone'] using h
  · rw [onGroup_of_get? hg, onGroup_of_get? hg', h.pass]
    obtain ⟨hgroup, hpass⟩ := hf g g' s.pass hrenewed
    exact ⟨h.router.putGroup name hgroup, hpass⟩

theorem take (h : s.Renewed more s') (T : RouteTable σ) (managed : List String) (turn : Turn) :
    (s.take T managed turn).Renewed more (s'.take T managed turn) := by
  cases turn with
  | path name connection =>
    simp only [Stage.take]
    refine h.onGroup name fun g g' pass hg => ?_
    exact visitPath_renewed hg T managed pass connection
  | select name =>
    simp only [Stage.take]
    refine h.onGroup name fun g g' pass hg => ?_
    exact ⟨hg.reselect, rfl⟩
  | service name destination =>
    simp only [Stage.take]
    refine h.onGroup name fun g g' pass hg => ?_
    exact visitService_renewed hg T managed pass destination

end Stage.Renewed

theorem Router.Renewed.passStage {more : Nat} {r r' : Router} (h : r.Renewed more r')
    (T : RouteTable σ) (visit : Visit) (table : σ) (ledger : Ledger) :
    (r.passStage T visit table ledger).Renewed more (r'.passStage T visit table ledger) := by
  rw [Router.passStage, Router.passStage, h.turns_eq, h.managedInterfaces_eq, h.owners_eq]
  have hstart : (⟨r, ⟨table, r.owners, ledger⟩⟩ : Stage σ).Renewed more
      ⟨r', ⟨table, r.owners, ledger⟩⟩ := ⟨h, rfl⟩
  exact List.foldl_rel hstart fun turn _ _ _ h => h.take T _ turn

/-! ## Resolutions -/

theorem Router.Renewed.contests_eq {more : Nat} {r r' : Router} (h : r.Renewed more r') :
    r'.contests = r.contests := by
  have hclaims : ∀ g g' : Group, g.Renewed g' → g'.claims = g.claims := by
    intro g g' hg
    rw [Group.claims, Group.claims, hg.name]
    congr 1
    · refine hg.paths.values_filter_map_eq (fun p p' hp => ?_) fun p p' hp => ?_
      · rw [← p'.pendingDelete_bare, hp.bare, p.pendingDelete_bare]
      · rcases hp with rfl | ⟨-, rfl⟩ <;> rfl
    · refine hg.services.values_filter_map_eq (fun s s' hs => ?_) fun s s' hs => ?_
      · rw [hs.isCleared]
      · rw [hs.destination, hs.active, hs.disabled, hs.claim]
  rw [contests, contests, h.groups.values_flatMap_eq hclaims]

/-- Resolutions of which one stands at a router that renews the other's, and that have done the
same. -/
structure Resolution.Renewed (more : Nat) (res res' : Resolution σ) : Prop where
  router : res.router.Renewed more res'.router
  table : res'.table = res.table
  ledger : res'.ledger = res.ledger

namespace Resolution.Renewed

variable {more : Nat} {res res' : Resolution σ}

theorem withGroup (h : res.Renewed more res') (name : GroupName) {f f' : Group → Group}
    (hf : ∀ g g', g.Renewed g' → (f g).Renewed (f' g')) :
    (res.withGroup name f).Renewed more (res'.withGroup name f') where
  router := ⟨h.router.policy, h.router.claims, h.router.groups.modify name hf⟩
  table := h.table
  ledger := h.ledger

theorem remove (h : res.Renewed more res') (T : RouteTable σ) (destination : Prefix)
    (claim : Claim) (interface : String) :
    ∃ removed after after', res.remove T destination claim interface = (removed, after) ∧
      res'.remove T destination claim interface = (removed, after') ∧
      after.Renewed more after' := by
  obtain ⟨r, table, ledger⟩ := res
  obtain ⟨r', table', ledger'⟩ := res'
  obtain ⟨hrouter, rfl, rfl⟩ := h
  rcases hcall : T.remove destination interface table' with ⟨e | _, table⟩
  · exact ⟨_, _, _, remove_of_error hcall claim, remove_of_error hcall claim, hrouter, rfl, rfl⟩
  · exact ⟨_, _, _, remove_of_ok hcall claim, remove_of_ok hcall claim, hrouter, rfl, rfl⟩

/-- Putting a path into a group. -/
theorem putPath (h : res.Renewed more res') (name : GroupName) (connection : ConnectionName)
    {p p' : Path} (hp : p.Renewed p') :
    (res.withGroup name fun g => { g with paths := g.paths.insert connection p }).Renewed more
      (res'.withGroup name fun g => { g with paths := g.paths.insert connection p' }) :=
  h.withGroup name fun _ _ hg =>
    ⟨hg.name, hg.selector, hg.selection, hg.paths.put connection (.some hp), hg.services⟩

/-- Putting a service into a group. -/
theorem putService (h : res.Renewed more res') (name : GroupName) (destination : Prefix)
    {s s' : Service} (hs : s.Renewed s') :
    (res.withGroup name fun g =>
      { g with services := g.services.insert destination s }).Renewed more
      (res'.withGroup name fun g => { g with services := g.services.insert destination s' }) :=
  h.withGroup name fun _ _ hg =>
    ⟨hg.name, hg.selector, hg.selection, hg.paths, hg.services.put destination (.some hs)⟩

theorem withLedger (h : res.Renewed more res') (ledger : Ledger) :
    ({ res with ledger } : Resolution σ).Renewed more { res' with ledger } :=
  ⟨h.router, h.table, rfl⟩

theorem disable (h : res.Renewed more res') (T : RouteTable σ) (destination : Prefix)
    (claim : Claim) (winner : GroupName) :
    (res.disable T destination claim winner).Renewed more
      (res'.disable T destination claim winner) := by
  unfold Resolution.disable
  rcases h.router.groups.cases claim.group with ⟨hnone, hnone'⟩ | ⟨g, g', hg, hg', hrenewed⟩
  · simp only [hnone, hnone']
    exact h
  simp only [hg, hg', h.ledger]
  have hlost := h.withLedger (res.ledger.outcome claim.group destination (.lost winner))
  cases claim.claimant with
  | path connection =>
    simp only
    rcases hrenewed.paths.cases connection with ⟨hnone, hnone'⟩ | ⟨p, p', hp, hp', hpath⟩
    · simp only [hnone, hnone']
      exact hlost
    simp only [hp, hp', hpath.installed]
    cases hroute : p.installed with
    | none => exact hlost.putPath claim.group connection (hpath.disable fun _ => rfl)
    | some interface =>
      obtain ⟨removed, after, after', hremove, hremove', hafter⟩ :=
        hlost.remove T destination claim interface
      simp only [hremove, hremove']
      refine hafter.putPath claim.group connection (hpath.disable fun hnone => ?_)
      rw [hroute] at hnone
      cases hnone
  | service =>
    simp only
    rcases hrenewed.services.cases destination with ⟨hnone, hnone'⟩ | ⟨s, s', hs, hs', hservice⟩
    · simp only [hnone, hnone']
      exact hlost
    have hdisabled := hservice.withDisabled true
    simp only [hs, hs', hservice.active]
    cases hroute : s.active with
    | none => exact hlost.putService claim.group destination (hdisabled.withActive none)
    | some route =>
      obtain ⟨removed, after, after', hremove, hremove', hafter⟩ :=
        hlost.remove T destination claim route.hop.interface
      simp only [hremove, hremove']
      cases removed with
      | false =>
        exact hafter.putService claim.group destination (hdisabled.withActive (some route))
      | true =>
        simp only [hafter.ledger]
        exact (hafter.withLedger _).putService claim.group destination (hdisabled.withActive none)

theorem enable (h : res.Renewed more res') (destination : Prefix) (claim : Claim) :
    (res.enable destination claim).Renewed more (res'.enable destination claim) := by
  unfold Resolution.enable
  refine h.withGroup claim.group fun g g' hg => ?_
  cases claim.claimant with
  | path connection =>
    refine ⟨hg.name, hg.selector, hg.selection, ?_, hg.services⟩
    exact hg.paths.modify connection fun p p' hp => .inl hp.regained
  | service =>
    refine ⟨hg.name, hg.selector, hg.selection, hg.paths, ?_⟩
    exact hg.services.modify destination fun s s' hs => hs.withDisabled false

end Resolution.Renewed

theorem Router.Renewed.resolve {more : Nat} {r r' : Router} (h : r.Renewed more r')
    (T : RouteTable σ) (table : σ) (ledger : Ledger) :
    (r'.resolve T table ledger).1 = (r.resolve T table ledger).1 ∧
      (r.resolve T table ledger).2.Renewed more (r'.resolve T table ledger).2 := by
  have hdisable : r'.toDisable = r.toDisable := by rw [toDisable, toDisable, h.contests_eq]
  have henable : r'.toEnable = r.toEnable := by rw [toEnable, toEnable, h.contests_eq]
  rw [resolve_eq, resolve_eq, hdisable, henable]
  refine ⟨rfl, ?_⟩
  have hstart : (⟨r, table, ledger⟩ : Resolution σ).Renewed more ⟨r', table, ledger⟩ :=
    ⟨h, rfl, rfl⟩
  refine List.foldl_rel (List.foldl_rel hstart ?_) ?_
  · exact fun i _ _ _ hres => hres.disable T i.1 i.2.1 i.2.2
  · exact fun j _ _ _ hres => hres.enable j.1 j.2

/-! ## Reconciliations -/

/-- Reconciliations of which one stands at a router that renews the other's, and that have done the
same. -/
structure Reconciled.Renewed (more : Nat) (s s' : Reconciled σ) : Prop where
  router : s.router.Renewed more s'.router
  table : s'.table = s.table
  ledger : s'.ledger = s.ledger
  passes : s'.passes = s.passes
  resolved : s'.resolved = s.resolved
  unsettled : s'.unsettled = s.unsettled

namespace Reconciled.Renewed

variable {more : Nat} {s s' : Reconciled σ}

theorem step (h : s.Renewed more s') (T : RouteTable σ) (visits : Nat → Visit) :
    (s.step T visits).Renewed more (s'.step T visits) := by
  have hturned : (s.turned T visits).Renewed more (s'.turned T visits) := by
    rw [turned, turned, h.passes, h.table, h.ledger]
    exact h.router.passStage T (visits s.passes) s.table s.ledger
  obtain ⟨hcount, hres⟩ := hturned.router.resolve T (s.turned T visits).pass.table
    (s.turned T visits).pass.ledger
  have hresolution : s'.resolution T visits = (s'.turned T visits).router.resolve T
      (s.turned T visits).pass.table (s.turned T visits).pass.ledger := by
    rw [resolution, hturned.pass]
  rw [step_eq, step_eq, hresolution]
  exact ⟨hres.router, hres.table, hres.ledger, congrArg (· + 1) h.passes,
    congrArg₂ (· + ·) h.resolved hcount, hcount⟩

theorem iterate (h : s.Renewed more s') (T : RouteTable σ) (visits : Nat → Visit) (n : Nat) :
    (Reconciled.iterate T visits n s).Renewed more (Reconciled.iterate T visits n s') := by
  induction n generalizing s s' with
  | zero => exact h
  | succ n ih =>
    have hstep := h.step T visits
    rw [Reconciled.iterate, Reconciled.iterate]
    simp only [hstep.unsettled]
    split
    · exact hstep
    · exact ih hstep

end Reconciled.Renewed

namespace Router.Renewed

variable {more : Nat} {r r' : Router}

theorem pruned (h : r.Renewed more r') : r.pruned.Renewed more r'.pruned where
  policy := h.policy
  claims := h.claims
  groups := h.groups.filter fun _ g g' hg => by rw [hg.isEmpty]

/-- Routers that differ in marks of waiting are reconciled alike. -/
theorem reconcileWith (h : r.Renewed more r') (T : RouteTable σ) (visits : Nat → Visit)
    (table : σ) :
    (r.reconcileWith T visits table).Renewed more (r'.reconcileWith T visits table) := by
  have hstart : (r.unreconciled table).Renewed more (r'.unreconciled table) :=
    ⟨h, rfl, rfl, rfl, rfl, rfl⟩
  have hlast := hstart.iterate T visits maxPasses
  rw [reconcileWith_eq, reconcileWith_eq]
  exact ⟨hlast.router.pruned, hlast.table, hlast.ledger, hlast.passes, hlast.resolved,
    hlast.unsettled⟩

end Router.Renewed

end RouteKeeper
