import RouteKeeper.Proofs.Flush
import RouteKeeper.Proofs.Separation

/-!
# The order of visits does not matter

The services of a group share the table, the owners and the ledger while they take their turns. But
the turn of a service looks only at what concerns its prefix, and changes only that. So over a table
that keeps destinations apart the services of a group may be visited in any order: what is known of
each prefix in the end is the same.

## Main definitions

* `Pass.AlikeAt` — two passes stand alike at a prefix.
* `Visited` — the same of a group whose services are being visited.

## Main statements

* `confined_reconcilePath`, `confined_reconcileService` — a turn concerns one prefix.
* `Confined.foldl_perm` — operations on different destinations may be made in any order.
* `reconcileGroup_alike`, `pass_alike` — a group, and a pass, under two orders of visits.
* `Router.reconcileWith_visits` — a reconciliation comes to the same in any order of visits.
-/
namespace RouteKeeper

variable {σ : Type}

/-! ## Ledgers -/

namespace Ledger

/-- The latest outcome for a destination of a group. -/
def outcome? (l : Ledger) (n : GroupName) (d : Prefix) : Option Outcome :=
  (l.outcomes.get? n).bind (·.get? d)

/-- A group is listed only with an outcome. -/
def Tidy (l : Ledger) : Prop := ∀ n m, l.outcomes.get? n = some m → m.isEmpty = false

/-- Ledgers that agree on a destination. -/
structure AlikeAt (d : Prefix) (l l' : Ledger) : Prop where
  outcome (n : GroupName) : l.outcome? n d = l'.outcome? n d
  tidy : l.Tidy
  tidy' : l'.Tidy

variable {l l' : Ledger} {d e : Prefix}

theorem tidy_empty : Ledger.empty.Tidy := by
  intro n m h
  cases h

theorem Tidy.outcome (h : l.Tidy) (n : GroupName) (d : Prefix) (o : Outcome) :
    (l.outcome n d o).Tidy := by
  intro n' m hm
  simp only [Ledger.outcome, OrderedMap.get?_insert] at hm
  split at hm
  case isTrue =>
    cases hm
    rw [Bool.eq_false_iff, ne_eq, OrderedMap.isEmpty_iff]
    intro hnone
    have hself := hnone d
    simp at hself
  case isFalse => exact h n' m hm

theorem outcome?_outcome (l : Ledger) (n : GroupName) (d : Prefix) (o : Outcome) (n' : GroupName)
    (e : Prefix) :
    (l.outcome n d o).outcome? n' e = if n' = n ∧ e = d then some o else l.outcome? n' e := by
  simp only [outcome?, Ledger.outcome, OrderedMap.get?_insert]
  by_cases hn : n' = n
  · subst hn
    by_cases he : e = d
    · simp [he]
    · cases l.outcomes.get? n' <;> simp [he, OrderedMap.get?_insert]
  · simp [hn]

namespace AlikeAt

theorem symm (h : AlikeAt d l l') : AlikeAt d l' l :=
  ⟨fun n => (h.outcome n).symm, h.tidy', h.tidy⟩

/-- An outcome that is entered in both ledgers. -/
theorem enter (h : AlikeAt d l l') (n : GroupName) (e : Prefix) (o : Outcome) :
    AlikeAt d (l.outcome n e o) (l'.outcome n e o) where
  outcome n' := by rw [outcome?_outcome, outcome?_outcome, h.outcome]
  tidy := h.tidy.outcome n e o
  tidy' := h.tidy'.outcome n e o

/-- An outcome for another destination, entered in one ledger only. -/
theorem enter_of_ne (h : AlikeAt e l l') (hne : e ≠ d) (n : GroupName) (o : Outcome) :
    AlikeAt e (l.outcome n d o) l' where
  outcome n' := by rw [outcome?_outcome, if_neg fun hkey => hne hkey.2, h.outcome]
  tidy := h.tidy.outcome n d o
  tidy' := h.tidy'

/-- Attempts and changes of connection are not looked at. -/
theorem congr (h : AlikeAt d l l') {m m' : Ledger} (hm : m.outcomes = l.outcomes)
    (hm' : m'.outcomes = l'.outcomes) : AlikeAt d m m' where
  outcome n := by rw [outcome?, outcome?, hm, hm', ← outcome?, ← outcome?, h.outcome]
  tidy := by rw [Tidy, hm]; exact h.tidy
  tidy' := by rw [Tidy, hm']; exact h.tidy'

end AlikeAt

/-- Ledgers that agree on every destination have the same outcomes. -/
theorem outcomes_eq_of_alikeAt (h : ∀ d, AlikeAt d l l') : l.outcomes = l'.outcomes := by
  refine OrderedMap.get?_ext fun n => ?_
  have hsame : ∀ d, (l.outcomes.get? n).bind (·.get? d) = (l'.outcomes.get? n).bind (·.get? d) :=
    fun d => (h d).outcome n
  have htidy := (h (.host (.v4 0))).tidy n
  have htidy' := (h (.host (.v4 0))).tidy' n
  cases hl : l.outcomes.get? n with
  | none =>
    cases hl' : l'.outcomes.get? n with
    | none => rfl
    | some m' =>
      simp only [hl, hl', Option.bind_none, Option.bind_some] at hsame
      have hempty := OrderedMap.isEmpty_iff.2 fun d => (hsame d).symm
      rw [htidy' m' hl'] at hempty
      cases hempty
  | some m =>
    cases hl' : l'.outcomes.get? n with
    | none =>
      simp only [hl, hl', Option.bind_none, Option.bind_some] at hsame
      have hempty := OrderedMap.isEmpty_iff.2 hsame
      rw [htidy m hl] at hempty
      cases hempty
    | some m' =>
      simp only [hl, hl', Option.bind_some] at hsame
      rw [OrderedMap.get?_ext hsame]

end Ledger

/-! ## Turns -/

/-- Passes that stand alike at a prefix: after the same calls for it, with the same owner and the
same outcomes. -/
structure Pass.AlikeAt (T : RouteTable σ) (start : σ) (d : Prefix) (pass pass' : Pass σ) :
    Prop where
  table : T.Alike start d pass.table pass'.table
  owner : pass.owners.get? d = pass'.owners.get? d
  ledger : Ledger.AlikeAt d pass.ledger pass'.ledger

namespace Pass

variable {T : RouteTable σ} {start : σ} {d : Prefix}

theorem AlikeAt.symm {pass pass' : Pass σ} (h : AlikeAt T start d pass pass') :
    AlikeAt T start d pass' pass :=
  ⟨h.table.symm, h.owner.symm, h.ledger.symm⟩

/-- The outcome that is entered for the result of an attempt. -/
def entered : Except Error Outcome → Outcome
  | .ok outcome => outcome
  | .error e => .failed e

theorem outcomes_tried (pass : Pass σ) (table : σ) (group : GroupName) (claimant : Claimant)
    (d : Prefix) (action : Action) (result : Except Error Outcome) :
    (pass.tried table group claimant d action result).ledger.outcomes =
      (pass.ledger.outcome group d (entered result)).outcomes := by
  cases result <;> rfl

/-- An attempt on the table concerns one prefix. -/
theorem confined_tried {α : Type} {op : σ → α × σ} (hop : Confined (T.Alike start) d op)
    (group : GroupName) (claimant : Claimant) (action : Action) (f : α → Except Error Outcome) :
    Confined (AlikeAt T start) d fun pass => ((op pass.table).1,
      pass.tried (op pass.table).2 group claimant d action (f (op pass.table).1)) where
  here {pass pass'} h := by
    obtain ⟨hanswer, htable⟩ := hop.here h.table
    refine ⟨hanswer, by simpa using htable, by simpa using h.owner, ?_⟩
    simp only [hanswer]
    exact (h.ledger.enter ..).congr (outcomes_tried ..) (outcomes_tried ..)
  elsewhere {e pass pass'} hne h := by
    refine ⟨by simpa using hop.elsewhere hne h.table, by simpa using h.owner, ?_⟩
    exact (h.ledger.enter_of_ne hne ..).congr (outcomes_tried ..) rfl

theorem confined_isBlocked (T : RouteTable σ) (start : σ) (d : Prefix) (group : GroupName) :
    Confined (AlikeAt T start) d fun pass => (pass.isBlocked d group, pass) where
  here h := ⟨by simp only [isBlocked, h.owner], h⟩
  elsewhere _ h := h

theorem confined_own {α : Type} (T : RouteTable σ) (start : σ) (d : Prefix) (group : GroupName)
    (a : α) : Confined (AlikeAt T start) d fun pass => (a, pass.own d group) where
  here h := ⟨rfl, h.table, by simp, h.ledger⟩
  elsewhere hne h := ⟨h.table, by simpa [OrderedMap.get?_insert, hne] using h.owner, h.ledger⟩

theorem confined_disown {α : Type} (T : RouteTable σ) (start : σ) (d : Prefix) (group : GroupName)
    (a : α) : Confined (AlikeAt T start) d fun pass => (a, pass.disown d group) where
  here h := ⟨rfl, by simpa using h.table, by simp only [get?_owners_disown, h.owner],
    by simpa using h.ledger⟩
  elsewhere hne h := ⟨by simpa using h.table, by simpa [get?_owners_disown, hne] using h.owner,
    by simpa using h.ledger⟩

theorem confined_change {α : Type} (T : RouteTable σ) (start : σ) (d : Prefix) (group : GroupName)
    (previous current : Option ConnectionName) (a : α) :
    Confined (AlikeAt T start) d fun pass =>
      (a, { pass with ledger := pass.ledger.change group previous current }) where
  here h := ⟨rfl, h.table, h.owner, h.ledger.congr rfl rfl⟩
  elsewhere _ h := ⟨h.table, h.owner, h.ledger.congr rfl rfl⟩

/-- A path after its route was to be removed. -/
def removedPath (group : GroupName) (path : Path) (answer : Except Error Unit) (pass : Pass σ) :
    Option Path × Pass σ :=
  match answer with
  | .error _ => (some path, pass)
  | .ok () => (none, pass.disown path.destination group)

/-- A path after its route was to be made. -/
def placedPath (group : GroupName) (path : Path) (result : Except Error Outcome) (pass : Pass σ) :
    Option Path × Pass σ :=
  match result with
  | .error _ => (some path, pass)
  | .ok _ => (some path.placed, pass.own path.destination group)

/-- A service after its route was to be changed. -/
def finishedService (group : GroupName) (service : Service) (current : Option ActiveRoute)
    (result : Except Error Outcome) (pass : Pass σ) : Option Service × Pass σ :=
  match result with
  | .error _ => (some service, pass)
  | .ok _ =>
    let pass := match current with
      | some _ => pass.own service.destination group
      | none => pass.disown service.destination group
    ({ service with active := current }.settle,
      { pass with
        ledger := pass.ledger.change group (service.active.map ActiveRoute.connection)
          (current.map ActiveRoute.connection) })

theorem confined_removedPath (T : RouteTable σ) (start : σ) (group : GroupName) (path : Path)
    (answer : Except Error Unit) :
    Confined (AlikeAt T start) path.destination (removedPath group path answer) := by
  cases answer with
  | error e => exact .pure _ _ _
  | ok => exact confined_disown ..

theorem confined_placedPath (T : RouteTable σ) (start : σ) (group : GroupName) (path : Path)
    (result : Except Error Outcome) :
    Confined (AlikeAt T start) path.destination (placedPath group path result) := by
  cases result with
  | error e => exact .pure _ _ _
  | ok outcome => exact confined_own ..

theorem confined_finishedService (T : RouteTable σ) (start : σ) (group : GroupName)
    (service : Service) (current : Option ActiveRoute) (result : Except Error Outcome) :
    Confined (AlikeAt T start) service.destination
      (finishedService group service current result) := by
  cases result with
  | error e => exact .pure _ _ _
  | ok outcome =>
    cases current with
    | none => exact (confined_disown T start _ group ()).bind fun _ => confined_change ..
    | some route => exact (confined_own T start _ group ()).bind fun _ => confined_change ..

end Pass

section Turns

variable {T : RouteTable σ} {start : σ}

/-- The turn of a path concerns its prefix only. -/
theorem confined_reconcilePath (hT : T.Separate start) (managed : List String) (group : GroupName)
    (path : Path) :
    Confined (Pass.AlikeAt T start) path.destination
      fun pass => reconcilePath T managed group pass path := by
  unfold reconcilePath
  by_cases hdelete : path.flags.pendingDelete = true
  · simp only [if_pos hdelete]
    cases path.installed with
    | none => exact .pure _ _ _
    | some interface =>
      have hremove := Pass.confined_tried (hT.confined_remove path.destination interface) group
        (.path path.connection) (.remove interface) (·.map fun _ => .removed)
      exact hremove.bind (Pass.confined_removedPath T start group path)
  · simp only [if_neg hdelete]
    have hinstall := Pass.confined_tried (hT.confined_install managed path.destination
      ⟨path.interface, path.spec.gateway⟩) group (.path path.connection)
      (.install ⟨path.interface, path.spec.gateway⟩) id
    exact (Pass.confined_isBlocked T start path.destination group).bind fun blocked =>
      .ite ((path.flags.disabled || (!path.flags.pendingAdd && path.isInstalled) || blocked) = true)
        (.pure _ _ _) (hinstall.bind (Pass.confined_placedPath T start group path))

/-- Entering an attempt for a service concerns its prefix only. -/
theorem confined_finishService {α : Type} {service : Service} {op : σ → α × σ}
    (hop : Confined (T.Alike start) service.destination op) (group : GroupName) (action : Action)
    (f : α → Except Error Outcome) (current : Option ActiveRoute) :
    Confined (Pass.AlikeAt T start) service.destination fun pass =>
      finishService group service pass (op pass.table).2 action (f (op pass.table).1) current := by
  have htried := (Pass.confined_tried hop group .service action f).map f
  exact htried.bind (Pass.confined_finishedService T start group service current)

/-- The turn of a service concerns its prefix only. -/
theorem confined_reconcileService (hT : T.Separate start) (managed : List String) (g : Group)
    (service : Service) :
    Confined (Pass.AlikeAt T start) service.destination
      fun pass => reconcileService T managed g pass service := by
  unfold reconcileService
  cases service.plan (g.desired service) with
  | keep => exact .pure _ _ _
  | clear route =>
    exact confined_finishService (hT.confined_remove service.destination route.hop.interface) g.name
      (.remove route.hop.interface) (·.map fun _ => .removed) none
  | install target =>
    simp only
    cases g.routeThrough target with
    | none => exact .pure _ _ _
    | some route =>
      have hinstall := confined_finishService (hT.confined_install managed service.destination
        route.hop) g.name (.install route.hop) id (some route)
      exact (Pass.confined_isBlocked T start service.destination g.name).bind fun blocked =>
        .ite (blocked = true) (.pure _ _ _) hinstall
  | move target =>
    simp only
    cases g.routeThrough target with
    | none => exact .pure _ _ _
    | some route =>
      exact confined_finishService (hT.confined_replace service.destination route.hop) g.name
        (.install route.hop) (·.map fun _ => .replaced) (some route)

end Turns

/-! ## Visits -/

/-- Operations on different destinations may be made in any order. -/
theorem Confined.foldl_perm {S : Type} {A : Prefix → S → S → Prop} {f : S → Prefix → S}
    (hf : ∀ d, Confined A d fun s => ((), f s d)) (hsymm : ∀ {d s s'}, A d s s' → A d s' s)
    {l l' : List Prefix} (hperm : l.Perm l') (hnodup : l.Nodup) {s s' : S} (h : ∀ d, A d s s')
    (d : Prefix) : A d (l.foldl f s) (l'.foldl f s') := by
  have helsewhere : ∀ (l : List Prefix) (s s' : S), d ∉ l → A d s s' → A d (l.foldl f s) s' := by
    intro l
    induction l with
    | nil => intro s s' _ h; exact h
    | cons e l ih =>
      intro s s' hd h
      rw [List.mem_cons, not_or] at hd
      exact ih _ _ hd.2 ((hf e).elsewhere hd.1 h)
  have hboth : ∀ (l l' : List Prefix) (s s' : S), d ∉ l → d ∉ l' → A d s s' →
      A d (l.foldl f s) (l'.foldl f s') := fun l l' s s' hl hl' h =>
    helsewhere l s _ hl (hsymm (helsewhere l' s' s hl' (hsymm h)))
  by_cases hd : d ∈ l
  · obtain ⟨a, b, rfl⟩ := List.append_of_mem hd
    obtain ⟨a', b', rfl⟩ := List.append_of_mem (hperm.mem_iff.1 hd)
    have hnodup' := hperm.nodup_iff.1 hnodup
    rw [List.nodup_middle, List.nodup_cons, List.mem_append, not_or] at hnodup hnodup'
    rw [List.foldl_append, List.foldl_append, List.foldl_cons, List.foldl_cons]
    -- nothing else than its own operation is seen at the destination
    have hbefore := hboth a a' s s' hnodup.1.1 hnodup'.1.1 (h d)
    exact hboth b b' _ _ hnodup.1.2 hnodup'.1.2 ((hf d).here hbefore).2
  · exact hboth l l' s s' hd (fun hd' => hd (hperm.mem_iff.2 hd')) (h d)

/-- A group in the middle of its visits, and a pass, that stand alike at a prefix. -/
structure Visited (T : RouteTable σ) (start : σ) (d : Prefix) (state state' : Group × Pass σ) :
    Prop where
  group : state'.1 = { state.1 with services := state'.1.services }
  service : state.1.services.get? d = state'.1.services.get? d
  keyed {e : Prefix} {s : Service} : state.1.services.get? e = some s → s.destination = e
  keyed' {e : Prefix} {s : Service} : state'.1.services.get? e = some s → s.destination = e
  pass : Pass.AlikeAt T start d state.2 state'.2

section Visits

variable {T : RouteTable σ} {start : σ}

theorem Visited.symm {d : Prefix} {state state' : Group × Pass σ}
    (h : Visited T start d state state') : Visited T start d state' state where
  group := by rw [h.group]
  service := h.service.symm
  keyed := h.keyed'
  keyed' := h.keyed
  pass := h.pass.symm

/-- Groups that stand alike at every prefix are the same. -/
theorem Visited.group_eq {state state' : Group × Pass σ}
    (h : ∀ d, Visited T start d state state') : state.1 = state'.1 := by
  have hservices := OrderedMap.get?_ext fun d => (h d).service
  have hgroup := (h (.host (.v4 0))).group
  rw [← hservices] at hgroup
  exact hgroup.symm

/-- The services of a group stay bound to their prefixes. -/
theorem destination_visitService (T : RouteTable σ) (managed : List String) {g : Group}
    (hkeyed : ∀ {e s}, g.services.get? e = some s → s.destination = e) (pass : Pass σ)
    (d : Prefix) {e : Prefix} {s' : Service}
    (hs' : (visitService T managed (g, pass) d).1.services.get? e = some s') :
    s'.destination = e := by
  cases hs : g.services.get? d with
  | none =>
    simp only [visitService, hs] at hs'
    exact hkeyed hs'
  | some s =>
    rw [visitService_of_get? hs, OrderedMap.get?_put] at hs'
    split at hs'
    case isTrue he =>
      have hbare := (reconcileService_turn T managed g pass s).bare_eq s' hs'
      have hdestination : s'.bare.destination = s.bare.destination := by rw [hbare]
      exact hdestination.trans ((hkeyed hs).trans he.symm)
    case isFalse => exact hkeyed hs'

/-- A visit looks at one service, and at no other. -/
theorem confined_visitService (hT : T.Separate start) (managed : List String) (d : Prefix) :
    Confined (Visited T start) d fun state => ((), visitService T managed state d) where
  here {state state'} h := by
    obtain ⟨g, pass⟩ := state
    obtain ⟨g', pass'⟩ := state'
    obtain ⟨hgroup, hservice, hkeyed, hkeyed', hpass⟩ := h
    simp only at hgroup hservice hkeyed hkeyed' hpass
    refine ⟨rfl, ?_⟩
    cases hs : g.services.get? d with
    | none =>
      have hs' := hservice.symm.trans hs
      simp only [visitService, hs, hs']
      exact ⟨hgroup, hservice, hkeyed, hkeyed', hpass⟩
    | some s =>
      have hs' := hservice.symm.trans hs
      have hturn : reconcileService T managed g' pass' s =
          reconcileService T managed g pass' s := by
        rw [hgroup]
        rfl
      obtain ⟨hkept, hafter⟩ := (confined_reconcileService hT managed g s).here
        (by rw [hkeyed hs]; exact hpass)
      refine ⟨?_, ?_, destination_visitService T managed hkeyed pass d,
        destination_visitService T managed hkeyed' pass' d, ?_⟩
      · simp only [visitService_of_get? hs, visitService_of_get? hs']
        rw [hgroup]
      · simp only [visitService_of_get? hs, visitService_of_get? hs', hturn,
          OrderedMap.get?_put_self, hkept]
      · simp only [visitService_of_get? hs, visitService_of_get? hs', hturn]
        rw [hkeyed hs] at hafter
        exact hafter
  elsewhere {e state state'} hne h := by
    obtain ⟨g, pass⟩ := state
    obtain ⟨g', pass'⟩ := state'
    obtain ⟨hgroup, hservice, hkeyed, hkeyed', hpass⟩ := h
    simp only at hgroup hservice hkeyed hkeyed' hpass
    refine ⟨?_, (get?_services_visitService_of_ne T (g, pass) hne).trans hservice,
      destination_visitService T managed hkeyed pass d, hkeyed', ?_⟩
    · cases hs : g.services.get? d with
      | none => simpa only [visitService, hs] using hgroup
      | some s =>
        rw [visitService_of_get? hs]
        simp only
        rw [hgroup]
    · cases hs : g.services.get? d with
      | none => simpa only [visitService, hs] using hpass
      | some s =>
        rw [visitService_of_get? hs]
        exact (confined_reconcileService hT managed g s).elsewhere (by rwa [hkeyed hs]) hpass

/-! ## Passes -/

/-- A group is brought in line alike in any order of visits. -/
theorem reconcileGroup_alike (hT : T.Separate start) (managed : List String) {visit visit' : Visit}
    (hvisit : visit.IsComplete) (hvisit' : visit'.IsComplete) {g : Group}
    (hkeyed : ∀ {e s}, g.services.get? e = some s → s.destination = e) {pass pass' : Pass σ}
    (h : ∀ d, Pass.AlikeAt T start d pass pass') :
    (reconcileGroup T managed visit pass g).1 = (reconcileGroup T managed visit' pass' g).1 ∧
      ∀ d, Pass.AlikeAt T start d (reconcileGroup T managed visit pass g).2
        (reconcileGroup T managed visit' pass' g).2 := by
  obtain ⟨hpaths, hpass⟩ := OrderedMap.sweep_rel (m := g.paths)
    (f := fun pass _ path => reconcilePath T managed g.name pass path)
    (g := fun pass _ path => reconcilePath T managed g.name pass path)
    (fun _ path _ _ _ hstate =>
      (confined_reconcilePath hT managed g.name path).everywhere Pass.AlikeAt.symm hstate) h
  simp only [reconcileGroup]
  generalize g.paths.sweep (fun pass _ path => reconcilePath T managed g.name pass path) pass =
    swept at hpaths hpass ⊢
  generalize g.paths.sweep (fun pass _ path => reconcilePath T managed g.name pass path) pass' =
    swept' at hpaths hpass ⊢
  obtain ⟨paths, after⟩ := swept
  obtain ⟨_, after'⟩ := swept'
  cases hpaths
  have hperm : (visit g.name g.services.keys).Perm (visit' g.name g.services.keys) :=
    (hvisit _ _).trans (hvisit' _ _).symm
  have hnodup := (hvisit g.name _).nodup_iff.2 g.services.nodup_keys
  have hstart : ∀ d, Visited T start d (({ g with paths } : Group).reselect, after)
      (({ g with paths } : Group).reselect, after') :=
    fun d => ⟨rfl, rfl, hkeyed, hkeyed, hpass d⟩
  have hvisited := Confined.foldl_perm (confined_visitService hT managed) Visited.symm hperm hnodup
    hstart
  exact ⟨Visited.group_eq hvisited, fun d => (hvisited d).pass⟩

/-- A pass does the same in any order of visits. -/
theorem pass_alike (hT : T.Separate start) {visit visit' : Visit} (hvisit : visit.IsComplete)
    (hvisit' : visit'.IsComplete) {r : Router} (hk : r.Keyed) {table table' : σ}
    {ledger ledger' : Ledger} (htable : ∀ d, T.Alike start d table table')
    (hledger : ∀ d, Ledger.AlikeAt d ledger ledger') :
    (r.pass T visit table ledger).1 = (r.pass T visit' table' ledger').1 ∧
      (∀ d, T.Alike start d (r.pass T visit table ledger).2.1
        (r.pass T visit' table' ledger').2.1) ∧
      ∀ d, Ledger.AlikeAt d (r.pass T visit table ledger).2.2
        (r.pass T visit' table' ledger').2.2 := by
  have hstart : ∀ d, Pass.AlikeAt T start d ⟨table, r.owners, ledger⟩
      ⟨table', r.owners, ledger'⟩ := fun d => ⟨htable d, rfl, hledger d⟩
  obtain ⟨hgroups, hpass⟩ := OrderedMap.sweep_rel (m := r.groups)
    (f := fun pass _ g => (some (reconcileGroup T r.managedInterfaces visit pass g).1,
      (reconcileGroup T r.managedInterfaces visit pass g).2))
    (g := fun pass _ g => (some (reconcileGroup T r.managedInterfaces visit' pass g).1,
      (reconcileGroup T r.managedInterfaces visit' pass g).2))
    (R := fun pass pass' => ∀ d, Pass.AlikeAt T start d pass pass')
    (fun n g pass pass' hgroup hpass => by
      obtain ⟨hsame, hafter⟩ := reconcileGroup_alike hT r.managedInterfaces hvisit hvisit'
        (fun hs => hk.destination (Router.service?_eq_some_iff.2 ⟨g, hgroup, hs⟩)) hpass
      exact ⟨congrArg some hsame, hafter⟩) hstart
  refine ⟨?_, fun d => (hpass d).table, fun d => (hpass d).ledger⟩
  simp only [Router.pass]
  rw [hgroups]

end Visits

/-! ## Resolutions -/

/-- Resolutions that stand at the same router and are alike at every prefix. -/
structure Resolution.Alike (T : RouteTable σ) (start : σ) (res res' : Resolution σ) : Prop where
  router : res'.router = res.router
  table (d : Prefix) : T.Alike start d res.table res'.table
  ledger (d : Prefix) : Ledger.AlikeAt d res.ledger res'.ledger

namespace Resolution.Alike

variable {T : RouteTable σ} {start : σ} {res res' : Resolution σ}

theorem withGroup (h : Alike T start res res') (name : GroupName) (f : Group → Group) :
    Alike T start (res.withGroup name f) (res'.withGroup name f) where
  router := by simp only [Resolution.withGroup, h.router]
  table := h.table
  ledger := h.ledger

theorem outcome (h : Alike T start res res') (name : GroupName) (d : Prefix) (o : Outcome) :
    Alike T start { res with ledger := res.ledger.outcome name d o }
      { res' with ledger := res'.ledger.outcome name d o } :=
  ⟨h.router, h.table, fun e => (h.ledger e).enter name d o⟩

theorem change (h : Alike T start res res') (name : GroupName)
    (previous current : Option ConnectionName) :
    Alike T start { res with ledger := res.ledger.change name previous current }
      { res' with ledger := res'.ledger.change name previous current } :=
  ⟨h.router, h.table, fun e => (h.ledger e).congr rfl rfl⟩

theorem remove (hT : T.Separate start) (h : Alike T start res res') (d : Prefix) (claim : Claim)
    (interface : String) :
    ∃ removed after after', res.remove T d claim interface = (removed, after) ∧
      res'.remove T d claim interface = (removed, after') ∧ Alike T start after after' := by
  obtain ⟨hanswer, htable⟩ :=
    (hT.confined_remove d interface).everywhere RouteTable.Alike.symm h.table
  have hledger : ∀ (a : Attempt) e,
      Ledger.AlikeAt e (res.ledger.attempt a) (res'.ledger.attempt a) :=
    fun a e => (h.ledger e).congr rfl rfl
  simp only [Resolution.remove, ← hanswer]
  cases (T.remove d interface res.table).1 with
  | error e => exact ⟨_, _, _, rfl, rfl, h.router, htable, hledger _⟩
  | ok => exact ⟨_, _, _, rfl, rfl, h.router, htable, hledger _⟩

theorem disable (hT : T.Separate start) (h : Alike T start res res') (d : Prefix) (claim : Claim)
    (winner : GroupName) :
    Alike T start (res.disable T d claim winner) (res'.disable T d claim winner) := by
  have hlost := h.outcome claim.group d (.lost winner)
  obtain ⟨r, table, ledger⟩ := res
  obtain ⟨_, table', ledger'⟩ := res'
  cases h.router
  simp only [Resolution.disable] at hlost ⊢
  cases r.groups.get? claim.group with
  | none => exact h
  | some group =>
    simp only
    cases claim.claimant with
    | path connection =>
      simp only
      cases group.paths.get? connection with
      | none => exact hlost
      | some path =>
        simp only
        cases path.installed with
        | none => exact hlost.withGroup ..
        | some interface =>
          obtain ⟨removed, after, after', hremove, hremove', hafter⟩ :=
            hlost.remove hT d claim interface
          simp only [hremove, hremove']
          exact hafter.withGroup ..
    | service =>
      simp only
      cases group.services.get? d with
      | none => exact hlost
      | some service =>
        simp only
        cases service.active with
        | none => exact hlost.withGroup ..
        | some route =>
          obtain ⟨removed, after, after', hremove, hremove', hafter⟩ :=
            hlost.remove hT d claim route.hop.interface
          simp only [hremove, hremove']
          cases removed with
          | false => exact hafter.withGroup ..
          | true => exact (hafter.change claim.group (some route.connection) none).withGroup ..

theorem enable (h : Alike T start res res') (d : Prefix) (claim : Claim) :
    Alike T start (res.enable d claim) (res'.enable d claim) := h.withGroup ..

end Resolution.Alike

/-- A router's conflicts are resolved alike over tables that are alike. -/
theorem resolve_alike {T : RouteTable σ} {start : σ} (hT : T.Separate start) (r : Router)
    {table table' : σ} {ledger ledger' : Ledger} (htable : ∀ d, T.Alike start d table table')
    (hledger : ∀ d, Ledger.AlikeAt d ledger ledger') :
    (r.resolve T table ledger).1 = (r.resolve T table' ledger').1 ∧
      Resolution.Alike T start (r.resolve T table ledger).2 (r.resolve T table' ledger').2 := by
  have hstart : Resolution.Alike T start ⟨r, table, ledger⟩ ⟨r, table', ledger'⟩ :=
    ⟨rfl, htable, hledger⟩
  rw [Router.resolve_eq, Router.resolve_eq]
  refine ⟨rfl, List.foldl_rel (List.foldl_rel hstart ?_) ?_⟩
  · intro i _ res res' hres
    exact hres.disable hT i.1 i.2.1 i.2.2
  · intro j _ res res' hres
    exact hres.enable j.1 j.2

/-! ## Reconciliations -/

/-- Reconciliations that stand at the same router, are alike at every prefix and have counted
alike. -/
structure Reconciled.Alike (T : RouteTable σ) (start : σ) (s s' : Reconciled σ) : Prop where
  router : s'.router = s.router
  table (d : Prefix) : T.Alike start d s.table s'.table
  ledger (d : Prefix) : Ledger.AlikeAt d s.ledger s'.ledger
  passes : s'.passes = s.passes
  resolved : s'.resolved = s.resolved
  unsettled : s'.unsettled = s.unsettled

namespace Reconciled.Alike

variable {T : RouteTable σ} {start : σ} {visits visits' : Nat → Visit} {s s' : Reconciled σ}

theorem step (hT : T.Separate start) (hvisits : ∀ i, (visits i).IsComplete)
    (hvisits' : ∀ i, (visits' i).IsComplete) (h : Alike T start s s') (hk : s.router.Keyed) :
    Alike T start (s.step T visits) (s'.step T visits') := by
  obtain ⟨hrouter, htable, hledger⟩ :=
    pass_alike hT (hvisits s.passes) (hvisits' s.passes) hk h.table h.ledger
  obtain ⟨hcount, hres⟩ := resolve_alike hT
    (s.router.pass T (visits s.passes) s.table s.ledger).1 htable hledger
  simp only [Reconciled.step, h.router, h.passes, ← hrouter, ← hcount, h.resolved]
  exact ⟨hres.router, hres.table, hres.ledger, rfl, rfl, rfl⟩

theorem iterate (hT : T.Separate start) (hvisits : ∀ i, (visits i).IsComplete)
    (hvisits' : ∀ i, (visits' i).IsComplete) (n : Nat) (h : Alike T start s s')
    (hk : s.router.Keyed) :
    Alike T start (Reconciled.iterate T visits n s) (Reconciled.iterate T visits' n s') := by
  induction n generalizing s s' with
  | zero => exact h
  | succ n ih =>
    have hstep := h.step hT hvisits hvisits' hk
    rw [Reconciled.iterate, Reconciled.iterate]
    simp only [hstep.unsettled]
    split
    · exact hstep
    · exact ih hstep (Router.keyed_step hk)

end Reconciled.Alike

/-- The last service is visited first. -/
def Visit.reversed : Visit := fun _ ds => ds.reverse

theorem Visit.isComplete_reversed : Visit.reversed.IsComplete := fun _ ds => ds.reverse_perm

namespace Router

/-- Over a table that keeps destinations apart, the order in which services are visited does not
matter. Reconciliations that differ in nothing else leave the same router and the same entries in
the table, and whatever is seen of a destination is the same, be it the answer to the next call.
They make as many passes, settle as many conflicts and report the same statuses. -/
theorem reconcileWith_visits {r : Router} (hr : r.Reachable) {T : RouteTable σ} {table : σ}
    (hT : T.Separate table) {visits visits' : Nat → Visit} (hvisits : ∀ i, (visits i).IsComplete)
    (hvisits' : ∀ i, (visits' i).IsComplete) :
    let s := r.reconcileWith T visits table
    let s' := r.reconcileWith T visits' table
    let report := s.ledger.report s.passes s.resolved
    let report' := s'.ledger.report s'.passes s'.resolved
    s'.router = s.router ∧
      (∀ routes, T.Faithful routes → routes s'.table = routes s.table) ∧
      (∀ {α : Type} (look : Prefix → σ → α), T.Local table look →
        ∀ d, look d s'.table = look d s.table) ∧
      report'.iterations = report.iterations ∧
      report'.conflictsResolved = report.conflictsResolved ∧
      report'.statuses = report.statuses := by
  have hstart : Reconciled.Alike T table (r.unreconciled table) (r.unreconciled table) :=
    ⟨rfl, T.alike_refl table, fun _ => ⟨fun _ => rfl, Ledger.tidy_empty, Ledger.tidy_empty⟩, rfl,
      rfl, rfl⟩
  have hlast := hstart.iterate hT hvisits hvisits' maxPasses hr.keyed
  have hlook : ∀ {α : Type} (look : Prefix → σ → α), T.Local table look → ∀ d,
      look d (r.reconcileWith T visits' table).table =
        look d (r.reconcileWith T visits table).table := by
    intro α look hlocal d
    rw [reconcileWith_eq, reconcileWith_eq]
    exact ((hlast.table d).look_eq hlocal).symm
  refine ⟨?_, ?_, hlook, ?_, ?_, ?_⟩
  · rw [router_reconcileWith, router_reconcileWith, hlast.router]
  · intro routes hfaithful
    exact OrderedMap.get?_ext (hlook _ (hfaithful.local_routes hT))
  · rw [reconcileWith_eq, reconcileWith_eq]
    exact hlast.passes
  · rw [reconcileWith_eq, reconcileWith_eq]
    exact hlast.resolved
  · rw [reconcileWith_eq, reconcileWith_eq]
    have houtcomes := Ledger.outcomes_eq_of_alikeAt hlast.ledger
    simp only [Ledger.report, houtcomes]

/-- Two services through one path. -/
def twoSites : Router :=
  let r := (Router.new .default).addPeer ⟨"alpha"⟩ (.v4 "t1" "wg-a" 1)
  let r := (r.addService ⟨"alpha"⟩ (.single (.v4 8)) ⟨"t1"⟩).addService ⟨"alpha"⟩ (.single (.v4 9))
    ⟨"t1"⟩
  r.recordRound (.ofList [(.v4 1, some (.clamp 30000000))])

theorem twoSites_reachable : twoSites.Reachable := by
  dsimp only [twoSites]
  exact ((((Reachable.new _).addPeer _ _).addService _ _ _).addService _ _ _).recordRound _

/-- A table that refuses once to make a route to the second service. -/
def refusesOnce : RouteTable.Memory :=
  ⟨.empty, [⟨.add, some (.single (.v4 9)), .refused, "busy", some 1⟩]⟩

theorem separate_refusesOnce : RouteTable.memory.Separate refusesOnce := by
  refine RouteTable.separate_memory fun rule hrule => ?_
  rw [List.mem_singleton.1 hrule]
  exact Option.some_ne_none _

/-- The two services are tried in another order, and it comes to the same. -/
theorem twoSites_visits :
    let s := twoSites.reconcileWith RouteTable.memory (fun _ => .inOrder) refusesOnce
    let s' := twoSites.reconcileWith RouteTable.memory (fun _ => .reversed) refusesOnce
    twoSites.Reachable ∧ RouteTable.memory.Separate refusesOnce ∧ Visit.inOrder.IsComplete ∧
      Visit.reversed.IsComplete ∧ s'.ledger.attempts ≠ s.ledger.attempts ∧
      s'.router = s.router ∧ s'.table.routes = s.table.routes := by
  intro s s'
  have h := reconcileWith_visits twoSites_reachable separate_refusesOnce
    (fun _ => Visit.isComplete_inOrder) fun _ => Visit.isComplete_reversed
  exact ⟨twoSites_reachable, separate_refusesOnce, Visit.isComplete_inOrder,
    Visit.isComplete_reversed, by decide +kernel, h.1, h.2.1 _ RouteTable.faithful_memory⟩

end Router

end RouteKeeper
