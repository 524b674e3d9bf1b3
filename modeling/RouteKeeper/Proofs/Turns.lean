import RouteKeeper.Proofs.OrderedMap
import RouteKeeper.Reconcile

/-!
# The turn of an entry

A pass gives every path and every service its turn. What a turn can do with its entry is said once,
by `PathTurn` and `ServiceTurn`: later proofs split into these cases and look at no code.

## Main statements

* `reconcilePath_turn`, `reconcileService_turn` — the possible outcomes of a turn.
* `PathTurn.bare_eq`, `ServiceTurn.bare_eq` — what a turn never changes.
* `PathTurn.tries`, `ServiceTurn.tries` — what a turn must try.
* `PathTurn.settled`, `ServiceTurn.settled` — what a turn without failures leaves.
-/
namespace RouteKeeper

variable {σ : Type}

/-! ## The running state -/

namespace Pass

variable (pass : Pass σ) (table : σ) (group : GroupName) (claimant : Claimant)
  (destination : Prefix) (action : Action)

@[simp] theorem table_tried (result : Except Error Outcome) :
    (pass.tried table group claimant destination action result).table = table := by
  cases result <;> rfl

@[simp] theorem owners_tried (result : Except Error Outcome) :
    (pass.tried table group claimant destination action result).owners = pass.owners := by
  cases result <;> rfl

@[simp] theorem attempts_tried_ok (outcome : Outcome) :
    (pass.tried table group claimant destination action (.ok outcome)).ledger.attempts =
      ⟨group, claimant, destination, action, none⟩ :: pass.ledger.attempts := rfl

@[simp] theorem attempts_tried_error (e : Error) :
    (pass.tried table group claimant destination action (.error e)).ledger.attempts =
      ⟨group, claimant, destination, action, some e⟩ :: pass.ledger.attempts := rfl

@[simp] theorem table_own : (pass.own destination group).table = pass.table := rfl

@[simp] theorem ledger_own : (pass.own destination group).ledger = pass.ledger := rfl

@[simp] theorem owners_own :
    (pass.own destination group).owners = pass.owners.insert destination group := rfl

@[simp] theorem table_disown : (pass.disown destination group).table = pass.table := by
  unfold disown
  split <;> rfl

@[simp] theorem ledger_disown : (pass.disown destination group).ledger = pass.ledger := by
  unfold disown
  split <;> rfl

theorem get?_owners_disown (d : Prefix) :
    (pass.disown destination group).owners.get? d =
      if d = destination ∧ pass.owners.get? d = some group then none
      else pass.owners.get? d := by
  unfold disown
  by_cases hd : d = destination
  · subst hd
    by_cases h : pass.owners.get? d = some group <;> simp [h]
  · by_cases h : pass.owners.get? destination = some group <;>
      simp [h, hd, OrderedMap.get?_erase_of_ne]

/-- A prefix is free for a group as long as no other group has it. -/
theorem isBlocked_eq_false_iff :
    pass.isBlocked destination group = false ↔
      ∀ owner, pass.owners.get? destination = some owner → owner = group := by
  unfold isBlocked
  cases pass.owners.get? destination <;> simp

theorem isBlocked_iff :
    pass.isBlocked destination group = true ↔
      ∃ owner, pass.owners.get? destination = some owner ∧ owner ≠ group := by
  unfold isBlocked
  cases pass.owners.get? destination <;> simp

end Pass

section FinishService

variable (group : GroupName) (service : Service) (pass : Pass σ) (table : σ) (action : Action)

@[simp] theorem finishService_ok_fst (outcome : Outcome) (current : Option ActiveRoute) :
    (finishService group service pass table action (.ok outcome) current).1 =
      { service with active := current }.settle := rfl

@[simp] theorem table_finishService_ok (outcome : Outcome) (current : Option ActiveRoute) :
    (finishService group service pass table action (.ok outcome) current).2.table = table := by
  cases current <;> simp [finishService]

@[simp] theorem attempts_finishService_ok (outcome : Outcome) (current : Option ActiveRoute) :
    (finishService group service pass table action (.ok outcome) current).2.ledger.attempts =
      ⟨group, .service, service.destination, action, none⟩ :: pass.ledger.attempts := by
  cases current <;> simp [finishService, Ledger.change]

@[simp] theorem owners_finishService_some (outcome : Outcome) (route : ActiveRoute) :
    (finishService group service pass table action (.ok outcome) (some route)).2.owners =
      pass.owners.insert service.destination group := by
  simp [finishService]

theorem get?_owners_finishService_none (outcome : Outcome) (d : Prefix) :
    (finishService group service pass table action (.ok outcome) none).2.owners.get? d =
      if d = service.destination ∧ pass.owners.get? d = some group then none
      else pass.owners.get? d := by
  simp [finishService, Pass.get?_owners_disown]

end FinishService

/-! ## The turn of a path -/

/-- The path with its route in place. -/
def Path.placed (p : Path) : Path :=
  { p with installed := some p.interface, flags := { p.flags with pendingAdd := false } }

/-- What a pass may do with a path of a group: how it leaves the path, and the pass. -/
inductive PathTurn (T : RouteTable σ) (managed : List String) (group : GroupName) (pass : Pass σ)
    (path : Path) : Option Path → Pass σ → Prop
  /-- A path to be removed that has no route goes. -/
  | drop (hdelete : path.flags.pendingDelete = true) (hroute : path.installed = none) :
    PathTurn T managed group pass path none pass
  /-- A path to be removed goes with its route. -/
  | remove {interface : String} {table : σ} (hdelete : path.flags.pendingDelete = true)
    (hroute : path.installed = some interface)
    (hcall : T.remove path.destination interface pass.table = (.ok (), table)) :
    PathTurn T managed group pass path none
      ((pass.tried table group (.path path.connection) path.destination (.remove interface)
        (.ok .removed)).disown path.destination group)
  /-- A path whose route cannot be removed stays. -/
  | removeFailed {interface : String} {table : σ} {e : Error}
    (hdelete : path.flags.pendingDelete = true) (hroute : path.installed = some interface)
    (hcall : T.remove path.destination interface pass.table = (.error e, table)) :
    PathTurn T managed group pass path (some path)
      (pass.tried table group (.path path.connection) path.destination (.remove interface)
        (.error e))
  /-- A path that is disabled, in place, or shut out by another group is left alone. -/
  | idle (hdelete : path.flags.pendingDelete = false)
    (hidle : path.flags.disabled = true ∨
      (path.flags.pendingAdd = false ∧ path.isInstalled = true) ∨
      pass.isBlocked path.destination group = true) :
    PathTurn T managed group pass path (some path) pass
  /-- A path that waits gets its route. -/
  | install {outcome : Outcome} {table : σ} (hdelete : path.flags.pendingDelete = false)
    (henabled : path.flags.disabled = false)
    (hwaits : path.flags.pendingAdd = true ∨ path.isInstalled = false)
    (hfree : pass.isBlocked path.destination group = false)
    (hcall : install T managed path.destination ⟨path.interface, path.spec.gateway⟩ pass.table =
      (.ok outcome, table)) :
    PathTurn T managed group pass path (some path.placed)
      ((pass.tried table group (.path path.connection) path.destination
        (.install ⟨path.interface, path.spec.gateway⟩) (.ok outcome)).own path.destination group)
  /-- A path whose route cannot be made goes on waiting. -/
  | installFailed {e : Error} {table : σ} (hdelete : path.flags.pendingDelete = false)
    (henabled : path.flags.disabled = false)
    (hwaits : path.flags.pendingAdd = true ∨ path.isInstalled = false)
    (hfree : pass.isBlocked path.destination group = false)
    (hcall : install T managed path.destination ⟨path.interface, path.spec.gateway⟩ pass.table =
      (.error e, table)) :
    PathTurn T managed group pass path (some path)
      (pass.tried table group (.path path.connection) path.destination
        (.install ⟨path.interface, path.spec.gateway⟩) (.error e))

theorem reconcilePath_turn (T : RouteTable σ) (managed : List String) (group : GroupName)
    (pass : Pass σ) (path : Path) :
    PathTurn T managed group pass path (reconcilePath T managed group pass path).1
      (reconcilePath T managed group pass path).2 := by
  unfold reconcilePath
  by_cases hdelete : path.flags.pendingDelete = true
  · rw [if_pos hdelete]
    cases hroute : path.installed with
    | none => exact .drop hdelete hroute
    | some interface =>
      rcases hcall : T.remove path.destination interface pass.table with ⟨_ | _, table⟩
      · simp only [hcall, Except.map]
        exact .removeFailed hdelete hroute hcall
      · simp only [hcall, Except.map]
        exact .remove hdelete hroute hcall
  · rw [if_neg hdelete]
    rw [Bool.not_eq_true] at hdelete
    split
    case isTrue hidle =>
      refine .idle hdelete ?_
      simpa [or_assoc] using hidle
    case isFalse hidle =>
      simp only [Bool.or_eq_true, Bool.and_eq_true, not_or, Bool.not_eq_true, not_and,
        Bool.not_eq_eq_eq_not, Bool.not_true] at hidle
      obtain ⟨⟨henabled, hwaits⟩, hfree⟩ := hidle
      have hwaits : path.flags.pendingAdd = true ∨ path.isInstalled = false := by
        cases h : path.flags.pendingAdd
        · exact .inr (hwaits h)
        · exact .inl rfl
      rcases hcall : install T managed path.destination ⟨path.interface, path.spec.gateway⟩
        pass.table with ⟨_ | _, table⟩
      · simp only [hcall]
        exact .installFailed hdelete henabled hwaits hfree hcall
      · simp only [hcall]
        exact .install hdelete henabled hwaits hfree hcall

/-! ## The turn of a service -/

namespace Service

variable {s : Service} {desired : Option ConnectionName}

/-- A route is cleared if the service is to have none. -/
theorem plan_eq_clear_iff {route : ActiveRoute} :
    s.plan desired = .clear route ↔
      s.active = some route ∧ (s.isCleared = true ∨ s.disabled = true ∨ desired = none) := by
  unfold plan
  cases s.active <;> cases s.isCleared <;> cases s.disabled <;> cases desired <;> simp
  all_goals split <;> simp

theorem plan_eq_keep_iff :
    s.plan desired = .keep ↔
      (s.active = none ∧ (s.isCleared = true ∨ s.disabled = true ∨ desired = none)) ∨
        ∃ route, s.active = some route ∧ s.isCleared = false ∧ s.disabled = false ∧
          desired = some route.connection := by
  unfold plan
  cases s.active <;> cases s.isCleared <;> cases s.disabled <;> cases desired <;> simp
  exact eq_comm

theorem plan_eq_install_iff {target : ConnectionName} :
    s.plan desired = .install target ↔
      s.active = none ∧ s.isCleared = false ∧ s.disabled = false ∧ desired = some target := by
  unfold plan
  cases s.active <;> cases s.isCleared <;> cases s.disabled <;> cases desired <;> simp
  all_goals split <;> simp

theorem plan_eq_move_iff {target : ConnectionName} :
    s.plan desired = .move target ↔
      (∃ route, s.active = some route ∧ route.connection ≠ target) ∧ s.isCleared = false ∧
        s.disabled = false ∧ desired = some target := by
  unfold plan
  cases s.active <;> cases s.isCleared <;> cases s.disabled <;> cases desired <;> simp
  all_goals split <;> simp
  all_goals grind

end Service


/-- What a pass may do with a service of a group: how it leaves the service, and the pass. -/
inductive ServiceTurn (T : RouteTable σ) (managed : List String) (g : Group) (pass : Pass σ)
    (service : Service) : Option Service → Pass σ → Prop
  /-- A service whose route is right, or that has none to be made, is settled. -/
  | keep (hplan : service.plan (g.desired service) = .keep ∨
      ∃ target, (service.plan (g.desired service) = .install target ∨
        service.plan (g.desired service) = .move target) ∧ g.routeThrough target = none) :
    ServiceTurn T managed g pass service service.settle pass
  /-- A service whose prefix another group has is left alone. -/
  | blocked {target : ConnectionName}
    (hplan : service.plan (g.desired service) = .install target)
    (hblocked : pass.isBlocked service.destination g.name = true) :
    ServiceTurn T managed g pass service (some service) pass
  /-- A service loses a route that it should not have. -/
  | clear {route : ActiveRoute} {table : σ}
    (hplan : service.plan (g.desired service) = .clear route)
    (hcall : T.remove service.destination route.hop.interface pass.table = (.ok (), table)) :
    ServiceTurn T managed g pass service { service with active := none }.settle
      (finishService g.name service pass table (.remove route.hop.interface) (.ok .removed)
        none).2
  | clearFailed {route : ActiveRoute} {table : σ} {e : Error}
    (hplan : service.plan (g.desired service) = .clear route)
    (hcall : T.remove service.destination route.hop.interface pass.table = (.error e, table)) :
    ServiceTurn T managed g pass service (some service)
      (pass.tried table g.name .service service.destination (.remove route.hop.interface)
        (.error e))
  /-- A service without a route gets one. -/
  | install {target : ConnectionName} {route : ActiveRoute} {outcome : Outcome} {table : σ}
    (hplan : service.plan (g.desired service) = .install target)
    (hroute : g.routeThrough target = some route)
    (hfree : pass.isBlocked service.destination g.name = false)
    (hcall : install T managed service.destination route.hop pass.table = (.ok outcome, table)) :
    ServiceTurn T managed g pass service { service with active := some route }.settle
      (finishService g.name service pass table (.install route.hop) (.ok outcome)
        (some route)).2
  | installFailed {target : ConnectionName} {route : ActiveRoute} {e : Error} {table : σ}
    (hplan : service.plan (g.desired service) = .install target)
    (hroute : g.routeThrough target = some route)
    (hfree : pass.isBlocked service.destination g.name = false)
    (hcall : install T managed service.destination route.hop pass.table = (.error e, table)) :
    ServiceTurn T managed g pass service (some service)
      (pass.tried table g.name .service service.destination (.install route.hop) (.error e))
  /-- A service's route moves to another connection, whoever has the prefix. -/
  | move {target : ConnectionName} {route : ActiveRoute} {table : σ}
    (hplan : service.plan (g.desired service) = .move target)
    (hroute : g.routeThrough target = some route)
    (hcall : T.replace service.destination route.hop pass.table = (.ok (), table)) :
    ServiceTurn T managed g pass service { service with active := some route }.settle
      (finishService g.name service pass table (.install route.hop) (.ok .replaced)
        (some route)).2
  | moveFailed {target : ConnectionName} {route : ActiveRoute} {e : Error} {table : σ}
    (hplan : service.plan (g.desired service) = .move target)
    (hroute : g.routeThrough target = some route)
    (hcall : T.replace service.destination route.hop pass.table = (.error e, table)) :
    ServiceTurn T managed g pass service (some service)
      (pass.tried table g.name .service service.destination (.install route.hop) (.error e))

theorem reconcileService_turn (T : RouteTable σ) (managed : List String) (g : Group)
    (pass : Pass σ) (service : Service) :
    ServiceTurn T managed g pass service (reconcileService T managed g pass service).1
      (reconcileService T managed g pass service).2 := by
  unfold reconcileService
  cases hplan : service.plan (g.desired service) with
  | keep => exact .keep (.inl hplan)
  | clear route =>
    rcases hcall : T.remove service.destination route.hop.interface pass.table with ⟨_ | _, table⟩
    · simp only [hcall, Except.map]
      exact .clearFailed hplan hcall
    · simp only [hcall, Except.map]
      exact .clear hplan hcall
  | install target =>
    cases hroute : g.routeThrough target with
    | none =>
      simp only [hroute]
      exact .keep (.inr ⟨target, .inl hplan, hroute⟩)
    | some route =>
      simp only [hroute]
      split
      case isTrue hblocked => exact .blocked hplan hblocked
      case isFalse hfree =>
        rw [Bool.not_eq_true] at hfree
        rcases hcall : install T managed service.destination route.hop pass.table with
          ⟨_ | _, table⟩
        · simp only
          exact .installFailed hplan hroute hfree hcall
        · simp only
          exact .install hplan hroute hfree hcall
  | move target =>
    cases hroute : g.routeThrough target with
    | none =>
      simp only [hroute]
      exact .keep (.inr ⟨target, .inr hplan, hroute⟩)
    | some route =>
      simp only [hroute]
      rcases hcall : T.replace service.destination route.hop pass.table with ⟨_ | _, table⟩
      · simp only [hcall, Except.map]
        exact .moveFailed hplan hroute hcall
      · simp only [hcall, Except.map]
        exact .move hplan hroute hcall

/-! ## What a turn keeps -/

/-- The path without what a turn may change: its route, and that it waits for one. -/
def Path.bare (p : Path) : Path :=
  { p with installed := none, flags := { p.flags with pendingAdd := false } }

namespace Path

variable (p : Path)

@[simp] theorem bare_placed : p.placed.bare = p.bare := rfl

@[simp] theorem connection_bare : p.bare.connection = p.connection := rfl

@[simp] theorem destination_bare : p.bare.destination = p.destination := rfl

@[simp] theorem pendingDelete_bare : p.bare.flags.pendingDelete = p.flags.pendingDelete := rfl

@[simp] theorem disabled_bare : p.bare.flags.disabled = p.flags.disabled := rfl

end Path

/-- A turn changes nothing of a path but its route, and that it waits for one. -/
theorem PathTurn.bare_eq {T : RouteTable σ} {managed : List String} {group : GroupName}
    {pass pass' : Pass σ} {path path' : Path}
    (h : PathTurn T managed group pass path (some path') pass') : path'.bare = path.bare := by
  cases h <;> rfl

/-- Only a path to be removed goes. -/
theorem PathTurn.pendingDelete_of_none {T : RouteTable σ} {managed : List String}
    {group : GroupName} {pass pass' : Pass σ} {path : Path}
    (h : PathTurn T managed group pass path none pass') : path.flags.pendingDelete = true := by
  cases h with
  | drop hdelete => exact hdelete
  | remove hdelete => exact hdelete

namespace Service

/-- The service without what a turn may change: its route, and candidates that are settled. -/
def bare (s : Service) : Service := { s.commit with active := none }

@[simp] theorem commit_commit (s : Service) : s.commit.commit = s.commit := by
  have h : s.commit.commit.candidates = s.commit.candidates := by
    refine OrderedMap.get?_ext fun c => ?_
    simp only [commit, OrderedMap.get?_map, OrderedMap.get?_filter]
    cases s.candidates.get? c with
    | none => rfl
    | some f => by_cases hf : f.pendingDelete = true <;> simp [Option.filter, hf]
  show ({ s.commit with candidates := s.commit.commit.candidates } : Service) = s.commit
  rw [h]

@[simp] theorem liveCandidates_commit (s : Service) :
    s.commit.liveCandidates = s.liveCandidates := by
  simp only [liveCandidates, commit, OrderedMap.keys, OrderedMap.filter, OrderedMap.map,
    OrderedMap.mapWithKey]
  rw [List.filter_map, List.filter_filter, List.map_map]
  congr 1
  refine List.filter_congr fun e _ => ?_
  simp

@[simp] theorem isCleared_commit (s : Service) : s.commit.isCleared = s.isCleared := by
  simp [isCleared]

@[simp] theorem liveCandidates_active (s : Service) (active : Option ActiveRoute) :
    ({ s with active } : Service).liveCandidates = s.liveCandidates := rfl

@[simp] theorem isCleared_active (s : Service) (active : Option ActiveRoute) :
    ({ s with active } : Service).isCleared = s.isCleared := rfl

@[simp] theorem liveCandidates_bare (s : Service) : s.bare.liveCandidates = s.liveCandidates := by
  simp [bare]

@[simp] theorem isCleared_bare (s : Service) : s.bare.isCleared = s.isCleared := by
  simp [bare]

@[simp] theorem bare_commit (s : Service) : s.commit.bare = s.bare := by
  simp [bare]

@[simp] theorem bare_active (s : Service) (active : Option ActiveRoute) :
    ({ s with active } : Service).bare = s.bare := rfl

/-- A settled service has its candidates taken in, and some use. -/
theorem settle_eq_some_iff {s s' : Service} :
    s.settle = some s' ↔ s' = s.commit ∧ (s.isCleared = false ∨ s.active ≠ none) := by
  have hactive : s.commit.active = s.active := rfl
  simp only [settle, isCleared_commit, hactive]
  cases hc : s.isCleared <;> cases ha : s.active <;> simp [eq_comm]

theorem settle_eq_none_iff {s : Service} :
    s.settle = none ↔ s.isCleared = true ∧ s.active = none := by
  have hactive : s.commit.active = s.active := rfl
  simp only [settle, isCleared_commit, hactive]
  cases hc : s.isCleared <;> cases ha : s.active <;> simp

/-- Settling a service leaves its route. -/
theorem bind_active_settle {α : Type} (s : Service) (f : ActiveRoute → α) :
    (s.settle.bind fun s => s.active.map f) = s.active.map f := by
  cases h : s.settle with
  | none => simp [(settle_eq_none_iff.1 h).2]
  | some s' =>
    rw [(settle_eq_some_iff.1 h).1]
    rfl

/-- Settling a service leaves its route. -/
theorem active_of_settle {s s' : Service} (h : s.settle = some s') : s'.active = s.active := by
  rw [(settle_eq_some_iff.1 h).1]
  rfl

theorem bare_of_settle {s s' : Service} (h : s.settle = some s') : s'.bare = s.bare := by
  rw [(settle_eq_some_iff.1 h).1, bare_commit]

end Service

/-- A turn changes nothing of a service but its route, and the candidates that it settles. -/
theorem ServiceTurn.bare_eq {T : RouteTable σ} {managed : List String} {g : Group}
    {pass pass' : Pass σ} {service : Service} {kept : Option Service}
    (h : ServiceTurn T managed g pass service kept pass') :
    ∀ service', kept = some service' → service'.bare = service.bare := by
  intro service' hkept
  cases h with
  | keep => exact Service.bare_of_settle hkept
  | clear => exact (Service.bare_of_settle hkept).trans (Service.bare_active ..)
  | install => exact (Service.bare_of_settle hkept).trans (Service.bare_active ..)
  | move => exact (Service.bare_of_settle hkept).trans (Service.bare_active ..)
  | blocked | clearFailed | installFailed | moveFailed =>
    cases hkept
    rfl

/-- Only a service without candidates to stay goes. -/
theorem ServiceTurn.isCleared_of_none {T : RouteTable σ} {managed : List String} {g : Group}
    {pass pass' : Pass σ} {service : Service} {kept : Option Service}
    (h : ServiceTurn T managed g pass service kept pass') (hkept : kept = none) :
    service.isCleared = true := by
  cases h with
  | keep => exact (Service.settle_eq_none_iff.1 hkept).1
  | clear => exact (Service.settle_eq_none_iff.1 hkept).1
  | install => exact (Service.settle_eq_none_iff.1 hkept).1
  | move => exact (Service.settle_eq_none_iff.1 hkept).1
  | blocked | clearFailed | installFailed | moveFailed => cases hkept

/-! ## What a turn must try -/

/-- A path that is to have a route and waits for it is tried, unless another group has the
prefix. -/
theorem PathTurn.tries {T : RouteTable σ} {managed : List String} {group : GroupName}
    {pass pass' : Pass σ} {path : Path} {kept : Option Path}
    (h : PathTurn T managed group pass path kept pass') (hlive : path.flags.pendingDelete = false)
    (henabled : path.flags.disabled = false)
    (hwaits : path.flags.pendingAdd = true ∨ path.isInstalled = false)
    (hfree : pass.isBlocked path.destination group = false) :
    ∃ error, pass'.ledger.attempts = ⟨group, .path path.connection, path.destination,
      .install ⟨path.interface, path.spec.gateway⟩, error⟩ :: pass.ledger.attempts := by
  cases h with
  | drop hdelete | remove hdelete | removeFailed hdelete =>
    rw [hlive] at hdelete
    cases hdelete
  | idle _ hcause =>
    rcases hcause with hcause | ⟨hadd, hinstalled⟩ | hcause
    · rw [henabled] at hcause
      cases hcause
    · rw [hadd, hinstalled] at hwaits
      simp at hwaits
    · rw [hfree] at hcause
      cases hcause
  | install => exact ⟨none, by simp⟩
  | @installFailed e => exact ⟨some e, by simp⟩

/-- A service whose plan is to install is tried, unless another group has the prefix. -/
theorem ServiceTurn.tries {T : RouteTable σ} {managed : List String} {g : Group}
    {pass pass' : Pass σ} {service : Service} {kept : Option Service}
    (h : ServiceTurn T managed g pass service kept pass') {target : ConnectionName}
    {route : ActiveRoute} (hplan : service.plan (g.desired service) = .install target)
    (hroute : g.routeThrough target = some route)
    (hfree : pass.isBlocked service.destination g.name = false) :
    ∃ error, pass'.ledger.attempts = ⟨g.name, .service, service.destination,
      .install route.hop, error⟩ :: pass.ledger.attempts := by
  cases h with
  | keep hkeep =>
    rw [hplan] at hkeep
    rcases hkeep with hkeep | ⟨target', hkeep | hkeep, hthrough⟩ <;> cases hkeep
    rw [hroute] at hthrough
    cases hthrough
  | blocked _ hblocked =>
    rw [hfree] at hblocked
    cases hblocked
  | clear hclear | clearFailed hclear =>
    rw [hplan] at hclear
    cases hclear
  | move hmove | moveFailed hmove =>
    rw [hplan] at hmove
    cases hmove
  | install hinstall hroute' =>
    rw [hplan] at hinstall
    cases hinstall
    rw [hroute] at hroute'
    cases hroute'
    exact ⟨none, by simp⟩
  | @installFailed _ _ e _ hinstall hroute' =>
    rw [hplan] at hinstall
    cases hinstall
    rw [hroute] at hroute'
    cases hroute'
    exact ⟨some e, by simp⟩

/-! ## What a turn without failures leaves -/

/-- After a turn without failures a path is to stay, and is in place unless it is disabled or
another group has the prefix. -/
theorem PathTurn.settled {T : RouteTable σ} {managed : List String} {group : GroupName}
    {pass pass' : Pass σ} {path path' : Path}
    (h : PathTurn T managed group pass path (some path') pass')
    (hclean : ∀ a ∈ pass'.ledger.attempts, a.error = none) :
    path'.flags.pendingDelete = false ∧ (path'.flags.disabled = true ∨
      (path'.flags.pendingAdd = false ∧ path'.isInstalled = true) ∨
      pass.isBlocked path.destination group = true) := by
  cases h with
  | removeFailed | installFailed =>
    have hnone := hclean _ (by rw [Pass.attempts_tried_error]; exact List.mem_cons_self)
    cases hnone
  | idle hdelete hidle => exact ⟨hdelete, hidle⟩
  | install hdelete => exact ⟨hdelete, .inr (.inl ⟨rfl, rfl⟩)⟩

/-- Where every desired connection has a path, only a service that is to be kept is. -/
theorem Group.plan_eq_keep {g : Group} {service : Service}
    (hplan : service.plan (g.desired service) = .keep ∨
      ∃ target, (service.plan (g.desired service) = .install target ∨
        service.plan (g.desired service) = .move target) ∧ g.routeThrough target = none)
    (hthrough : ∀ c, g.desired service = some c → ∃ route, g.routeThrough c = some route) :
    service.plan (g.desired service) = .keep := by
  rcases hplan with hplan | ⟨target, hplan, hnone⟩
  · exact hplan
  · have hdesired : g.desired service = some target := by
      rcases hplan with hplan | hplan
      · exact (Service.plan_eq_install_iff.1 hplan).2.2.2
      · exact (Service.plan_eq_move_iff.1 hplan).2.2.2
    obtain ⟨route, hroute⟩ := hthrough target hdesired
    rw [hnone] at hroute
    cases hroute

/-- The route that a service has after its turn goes through the connection assigned to it, unless a
call to take it away or to move it failed. -/
theorem ServiceTurn.desired_of_active {T : RouteTable σ} {managed : List String} {g : Group}
    {pass pass' : Pass σ} {service service' : Service}
    (h : ServiceTurn T managed g pass service (some service') pass')
    (hthrough : ∀ c, g.desired service = some c → ∃ route, g.routeThrough c = some route)
    {route : ActiveRoute} (hactive : service'.active = some route) :
    (service.isCleared = false ∧ service.disabled = false ∧
      g.desired service = some route.connection) ∨
    ∃ e, ((∃ i, T.remove service.destination i pass.table = (.error e, pass'.table)) ∨
        ∃ hop, T.replace service.destination hop pass.table = (.error e, pass'.table)) ∧
      ∃ action, pass'.ledger.attempts =
        ⟨g.name, .service, service.destination, action, some e⟩ :: pass.ledger.attempts := by
  have hpresent : ∀ {target : ConnectionName} {route' : ActiveRoute},
      ({ service with active := some route' } : Service).settle = some service' →
      g.routeThrough target = some route' → route.connection = target := by
    intro target route' hsettle hroute
    obtain rfl : route' = route :=
      Option.some.inj ((Service.active_of_settle hsettle).symm.trans hactive)
    obtain ⟨p, -, rfl⟩ := Option.map_eq_some_iff.1 hroute
    rfl
  generalize hkept : some service' = kept at h
  cases h with
  | keep hplan =>
    have hkeep := Group.plan_eq_keep hplan hthrough
    rw [Service.active_of_settle hkept.symm] at hactive
    rcases Service.plan_eq_keep_iff.1 hkeep with ⟨hnone, -⟩ | ⟨route', hroute, hfits⟩
    · rw [hnone] at hactive
      cases hactive
    · rw [hroute] at hactive
      cases hactive
      exact .inl hfits
  | blocked hplan | installFailed hplan =>
    cases hkept
    rw [(Service.plan_eq_install_iff.1 hplan).1] at hactive
    cases hactive
  | clear =>
    rw [Service.active_of_settle hkept.symm] at hactive
    cases hactive
  | install hplan hroute =>
    obtain ⟨-, hcleared, henabled, hdesired⟩ := Service.plan_eq_install_iff.1 hplan
    rw [hpresent hkept.symm hroute]
    exact .inl ⟨hcleared, henabled, hdesired⟩
  | move hplan hroute =>
    obtain ⟨-, hcleared, henabled, hdesired⟩ := Service.plan_eq_move_iff.1 hplan
    rw [hpresent hkept.symm hroute]
    exact .inl ⟨hcleared, henabled, hdesired⟩
  | clearFailed _ hcall =>
    refine .inr ⟨_, .inl ⟨_, hcall.trans ?_⟩, _, Pass.attempts_tried_error ..⟩
    rw [Pass.table_tried]
  | moveFailed _ _ hcall =>
    refine .inr ⟨_, .inr ⟨_, hcall.trans ?_⟩, _, Pass.attempts_tried_error ..⟩
    rw [Pass.table_tried]

/-- After a turn without failures a service has a route through the connection assigned to it; or it
has none, and then it is not to have one or another group has the prefix. -/
theorem ServiceTurn.settled {T : RouteTable σ} {managed : List String} {g : Group}
    {pass pass' : Pass σ} {service service' : Service}
    (h : ServiceTurn T managed g pass service (some service') pass')
    (hclean : ∀ a ∈ pass'.ledger.attempts, a.error = none)
    (hthrough : ∀ c, g.desired service = some c → ∃ route, g.routeThrough c = some route) :
    (∀ route, service'.active = some route → service.isCleared = false ∧
      service.disabled = false ∧ g.desired service = some route.connection) ∧
    (service'.active = none → service.isCleared = true ∨ service.disabled = true ∨
      g.desired service = none ∨ pass.isBlocked service.destination g.name = true) := by
  constructor
  · intro route hactive
    rcases h.desired_of_active hthrough hactive with hfits | ⟨e, -, action, hattempts⟩
    · exact hfits
    · have hnone := hclean _ (by rw [hattempts]; exact List.mem_cons_self)
      cases hnone
  intro hidle
  generalize hkept : some service' = kept at h
  cases h with
  | clearFailed | installFailed | moveFailed =>
    have hnone := hclean _ (by rw [Pass.attempts_tried_error]; exact List.mem_cons_self)
    cases hnone
  | keep hplan =>
    rw [Service.active_of_settle hkept.symm] at hidle
    rcases Service.plan_eq_keep_iff.1 (Group.plan_eq_keep hplan hthrough) with
      ⟨-, hcause⟩ | ⟨route, hroute, -⟩
    · tauto
    · rw [hroute] at hidle
      cases hidle
  | blocked _ hblocked => exact .inr (.inr (.inr hblocked))
  | clear hplan =>
    have hcause := (Service.plan_eq_clear_iff.1 hplan).2
    tauto
  | install | move =>
    rw [Service.active_of_settle hkept.symm] at hidle
    cases hidle

end RouteKeeper
