import RouteKeeper.Proofs.Again
import RouteKeeper.Proofs.Calls

/-!
# Flushing a router

After a flush every path and every candidate is to be removed. A reconciliation then has nothing to
make and nothing to settle: it removes each route that is recorded, once, and makes no other call to
the table. An entry goes with its route, so if no removal fails, no group is left.

## Main definitions

* `Router.recorded` — the routes that the entries of a router record.
* `Group.Doomed` — all entries of a group are to be removed.
* `Journal.Clears` — the calls from one journal to a later one are the removals of some routes.

## Main statements

* `PathTurn.clears`, `ServiceTurn.clears` — the turn of an entry that is to be removed.
* `Group.Doomed.clears`, `Router.clears_pass` — the turns of a group, and of a whole pass.
* `Router.reconcileWith_flush` — the reconciliation after a flush.
-/
namespace RouteKeeper

variable {σ : Type}

/-! ## Recorded routes -/

/-- The route that a path records, if there is one: its prefix and its interface. -/
def Path.recorded (p : Path) : List (Prefix × String) :=
  p.installed.toList.map fun interface => (p.destination, interface)

/-- The route that a service records, if there is one. -/
def Service.recorded (s : Service) : List (Prefix × String) :=
  s.active.toList.map fun route => (s.destination, route.hop.interface)

/-- The routes that the entries of a group record. -/
def Group.recorded (g : Group) : List (Prefix × String) :=
  g.paths.values.flatMap Path.recorded ++ g.services.values.flatMap Service.recorded

/-- The routes that the entries of a router record. -/
def Router.recorded (r : Router) : List (Prefix × String) :=
  r.groups.values.flatMap Group.recorded

@[simp] theorem Group.recorded_flush (g : Group) : g.flush.recorded = g.recorded := by
  simp only [recorded, flush, OrderedMap.values_map, List.flatMap_map]
  rfl

@[simp] theorem Router.recorded_flush (r : Router) : r.flush.recorded = r.recorded := by
  simp only [recorded, flush, OrderedMap.values_map, List.flatMap_map, Group.recorded_flush]

/-! ## Journals of removals -/

/-- The calls of a journal, without their results. -/
def Journal.calls (j : Journal) : List (Prefix × RouteCall) := j.map fun e => (e.1, e.2.1)

/-- No removal in the journal failed. -/
def Journal.Releases (j : Journal) : Prop := ∀ d i, (d, RouteCall.remove i, true) ∉ j

/-- The removals of some routes. -/
def removals (routes : List (Prefix × String)) : List (Prefix × RouteCall) :=
  routes.map fun route => (route.1, .remove route.2)

/-! ## Clearing -/

namespace Journal

/-- From one journal to a later one the routes were removed, each once, and no other call was made.
If no removal failed, `gone` holds. -/
structure Clears (j j' : Journal) (routes : List (Prefix × String)) (gone : Prop) : Prop where
  calls : ∃ calls : Journal, j' = calls ++ j ∧ calls.calls.Perm (removals routes)
  gone : j'.Releases → gone

variable {j j' j'' : Journal} {routes routes' : List (Prefix × String)} {gone gone' : Prop}

theorem clears_refl (j : Journal) (h : gone) : j.Clears j [] gone :=
  ⟨⟨[], rfl, .refl _⟩, fun _ => h⟩

/-- A removal clears its route; if it fails, nothing has to be gone. -/
theorem clears_cons (j : Journal) (d : Prefix) (i : String) {failed : Bool}
    (hgone : failed = false → gone) : j.Clears ((d, .remove i, failed) :: j) [(d, i)] gone := by
  refine ⟨⟨[(d, .remove i, failed)], rfl, .refl _⟩, fun hreleases => hgone ?_⟩
  cases failed with
  | false => rfl
  | true => exact absurd List.mem_cons_self (hreleases d i)

theorem Clears.imp (h : j.Clears j' routes gone) (himp : gone → gone') :
    j.Clears j' routes gone' :=
  ⟨h.calls, fun hreleases => himp (h.gone hreleases)⟩

/-- What was cleared first stays so. -/
theorem Clears.trans (h : j.Clears j' routes gone) (h' : j'.Clears j'' routes' gone') :
    j.Clears j'' (routes ++ routes') (gone ∧ gone') := by
  obtain ⟨calls, rfl, hcalls⟩ := h.calls
  obtain ⟨calls', rfl, hcalls'⟩ := h'.calls
  refine ⟨⟨calls' ++ calls, (List.append_assoc ..).symm, ?_⟩, fun hreleases => ?_⟩
  · rw [Journal.calls, removals, List.map_append, List.map_append]
    exact List.perm_append_comm.trans (hcalls.append hcalls')
  · refine ⟨h.gone fun d i hmem => hreleases d i ?_, h'.gone hreleases⟩
    exact List.mem_append_right calls' hmem

theorem Clears.of_perm (h : j.Clears j' routes gone) (hperm : routes.Perm routes') :
    j.Clears j' routes' gone := by
  obtain ⟨calls, hj, hcalls⟩ := h.calls
  exact ⟨⟨calls, hj, hcalls.trans (hperm.map _)⟩, h.gone⟩

end Journal

/-- A walk clears what its steps clear. -/
theorem clears_sweepEntries {κ ν μ : Type}
    {f : Pass (σ × Journal) → κ → ν → Option μ × Pass (σ × Journal)}
    (routes : ν → List (Prefix × String)) {P : μ → Prop} (entries : List (κ × ν))
    (hstep : ∀ pass : Pass (σ × Journal), ∀ e ∈ entries, pass.table.2.Clears
      (f pass e.1 e.2).2.table.2 (routes e.2) (∀ v, (f pass e.1 e.2).1 = some v → P v))
    (pass : Pass (σ × Journal)) :
    pass.table.2.Clears (OrderedMap.sweepEntries f pass entries).2.table.2
      (entries.flatMap fun e => routes e.2)
      (∀ e ∈ (OrderedMap.sweepEntries f pass entries).1, P e.2) := by
  induction entries generalizing pass with
  | nil => exact Journal.clears_refl _ fun _ he => absurd he List.not_mem_nil
  | cons e rest ih =>
    have hhere := hstep pass e List.mem_cons_self
    have hrest := ih (fun pass e he => hstep pass e (List.mem_cons_of_mem _ he)) (f pass e.1 e.2).2
    have hboth := hhere.trans hrest
    rw [OrderedMap.sweepEntries, List.flatMap_cons]
    cases hkept : (f pass e.1 e.2).1 with
    | none => exact hboth.imp And.right
    | some v =>
      refine hboth.imp ?_
      rintro ⟨hv, hall⟩ e' he'
      rcases List.mem_cons.1 he' with rfl | he'
      · exact hv v hkept
      · exact hall e' he'

/-! ## The turns of entries to be removed -/

/-- A path that is to be removed goes with its route. -/
theorem PathTurn.clears {T : RouteTable σ} {managed : List String} {group : GroupName}
    {pass pass' : Pass (σ × Journal)} {path : Path} {kept : Option Path}
    (h : PathTurn T.journaled managed group pass path kept pass')
    (hdelete : path.flags.pendingDelete = true) :
    pass.table.2.Clears pass'.table.2 path.recorded (kept = none) := by
  cases h with
  | drop _ hroute =>
    rw [Path.recorded, hroute]
    exact Journal.clears_refl _ rfl
  | remove _ hroute hcall =>
    rw [Path.recorded, hroute]
    rw [Pass.table_disown, Pass.table_tried, journal_of_remove_ok hcall]
    exact Journal.clears_cons _ _ _ fun _ => rfl
  | removeFailed _ hroute hcall =>
    rw [Path.recorded, hroute]
    rw [Pass.table_tried, journal_of_remove_error hcall]
    exact Journal.clears_cons _ _ _ nofun
  | idle hlive | install hlive | installFailed hlive =>
    rw [hdelete] at hlive
    cases hlive

/-- A service without candidates to stay goes with its route. -/
theorem ServiceTurn.clears {T : RouteTable σ} {managed : List String} {g : Group}
    {pass pass' : Pass (σ × Journal)} {service : Service} {kept : Option Service}
    (h : ServiceTurn T.journaled managed g pass service kept pass')
    (hcleared : service.isCleared = true) :
    pass.table.2.Clears pass'.table.2 service.recorded (kept = none) := by
  have hidle : ∀ {target}, service.plan (g.desired service) ≠ .install target := by
    intro target hplan
    rw [(Service.plan_eq_install_iff.1 hplan).2.1] at hcleared
    cases hcleared
  have hstays : ∀ {target}, service.plan (g.desired service) ≠ .move target := by
    intro target hplan
    rw [(Service.plan_eq_move_iff.1 hplan).2.1] at hcleared
    cases hcleared
  cases h with
  | keep hplan =>
    have hkeep : service.plan (g.desired service) = .keep := by
      rcases hplan with hplan | ⟨target, hplan | hplan, -⟩
      · exact hplan
      · exact absurd hplan hidle
      · exact absurd hplan hstays
    have hactive : service.active = none := by
      rcases Service.plan_eq_keep_iff.1 hkeep with ⟨hactive, -⟩ | ⟨_, -, hlive, -⟩
      · exact hactive
      · rw [hcleared] at hlive
        cases hlive
    rw [Service.recorded, hactive]
    exact Journal.clears_refl _ (Service.settle_eq_none_iff.2 ⟨hcleared, hactive⟩)
  | clear hplan hcall =>
    rw [Service.recorded, (Service.plan_eq_clear_iff.1 hplan).1]
    rw [table_finishService_ok, journal_of_remove_ok hcall]
    exact Journal.clears_cons _ _ _ fun _ => Service.settle_eq_none_iff.2 ⟨hcleared, rfl⟩
  | clearFailed hplan hcall =>
    rw [Service.recorded, (Service.plan_eq_clear_iff.1 hplan).1]
    rw [Pass.table_tried, journal_of_remove_error hcall]
    exact Journal.clears_cons _ _ _ nofun
  | blocked hplan | install hplan | installFailed hplan => exact absurd hplan hidle
  | move hplan | moveFailed hplan => exact absurd hplan hstays

/-! ## Groups -/

/-- All paths are to be removed, and no service has a candidate that is to stay. -/
structure Group.Doomed (g : Group) : Prop where
  path {c : ConnectionName} {p : Path} : g.paths.get? c = some p → p.flags.pendingDelete = true
  service {d : Prefix} {s : Service} : g.services.get? d = some s → s.isCleared = true

theorem Service.isCleared_flushed (s : Service) :
    ({ s with candidates := s.candidates.map Flags.toDelete } : Service).isCleared = true := by
  simp [isCleared, liveCandidates, OrderedMap.keys, OrderedMap.filter, OrderedMap.map,
    OrderedMap.mapWithKey, List.filter_map, Flags.toDelete, Function.comp_def]

theorem Group.doomed_flush (g : Group) : g.flush.Doomed where
  path h := by
    rw [flush, OrderedMap.get?_map] at h
    obtain ⟨p, -, rfl⟩ := Option.map_eq_some_iff.1 h
    rfl
  service h := by
    rw [flush, OrderedMap.get?_map] at h
    obtain ⟨s, -, rfl⟩ := Option.map_eq_some_iff.1 h
    exact s.isCleared_flushed

section Services

variable {T : RouteTable σ} {managed : List String}

/-- The routes that the service of a prefix records. -/
def Group.recordedAt (g : Group) (d : Prefix) : List (Prefix × String) :=
  (g.services.get? d).elim [] Service.recorded

theorem Group.flatMap_recordedAt (g : Group) :
    g.services.keys.flatMap g.recordedAt = g.services.values.flatMap Service.recorded := by
  rw [OrderedMap.keys, OrderedMap.values, List.flatMap_map, List.flatMap_map]
  refine List.flatMap_congr fun e he => ?_
  rw [recordedAt, OrderedMap.get?_eq_some_iff.2 he]
  rfl

theorem get?_services_visitService_of_ne (T : RouteTable σ) (state : Group × Pass σ)
    {d e : Prefix} (hne : e ≠ d) :
    (visitService T managed state d).1.services.get? e = state.1.services.get? e := by
  unfold visitService
  split
  · rfl
  · simp only
    split
    · exact OrderedMap.get?_insert_of_ne _ _ hne
    · exact OrderedMap.get?_erase_of_ne _ hne

theorem paths_visitService (T : RouteTable σ) (state : Group × Pass σ) (d : Prefix) :
    (visitService T managed state d).1.paths = state.1.paths := by
  unfold visitService
  split <;> rfl

/-- The visit of a service without candidates to stay. -/
theorem clears_visitService (T : RouteTable σ) (managed : List String) {g : Group}
    (pass : Pass (σ × Journal)) {d : Prefix}
    (hcleared : ∀ s, g.services.get? d = some s → s.isCleared = true) :
    pass.table.2.Clears (visitService T.journaled managed (g, pass) d).2.table.2 (g.recordedAt d)
      ((visitService T.journaled managed (g, pass) d).1.services.get? d = none) := by
  rw [Group.recordedAt]
  cases hs : g.services.get? d with
  | none =>
    simp only [visitService, hs]
    exact Journal.clears_refl _ trivial
  | some s =>
    rw [visitService_of_get? hs, OrderedMap.get?_put_self]
    exact (reconcileService_turn T.journaled managed g pass s).clears (hcleared s hs)

/-- The visits of services without candidates to stay: each is cleared, the others are left. -/
theorem clears_foldl_visitService (T : RouteTable σ) (managed : List String) {ds : List Prefix}
    (hnodup : ds.Nodup) {g : Group} (pass : Pass (σ × Journal))
    (hcleared : ∀ d ∈ ds, ∀ s, g.services.get? d = some s → s.isCleared = true) :
    (∀ e ∉ ds, (ds.foldl (visitService T.journaled managed) (g, pass)).1.services.get? e =
      g.services.get? e) ∧
    pass.table.2.Clears (ds.foldl (visitService T.journaled managed) (g, pass)).2.table.2
      (ds.flatMap g.recordedAt)
      (∀ d ∈ ds, (ds.foldl (visitService T.journaled managed) (g, pass)).1.services.get? d =
        none) := by
  induction ds generalizing g pass with
  | nil => exact ⟨fun _ _ => rfl, Journal.clears_refl _ fun _ hd => absurd hd List.not_mem_nil⟩
  | cons d ds ih =>
    obtain ⟨hd, hnodup⟩ := List.nodup_cons.1 hnodup
    have hhere := clears_visitService T managed pass (hcleared d List.mem_cons_self)
    have hother : ∀ e, e ≠ d → (visitService T.journaled managed (g, pass) d).1.services.get? e =
        g.services.get? e :=
      fun e hne => get?_services_visitService_of_ne T.journaled (g, pass) hne
    rw [List.foldl_cons, List.flatMap_cons]
    generalize visitService T.journaled managed (g, pass) d = state at hhere hother ⊢
    obtain ⟨g', pass'⟩ := state
    have hrest : ∀ e ∈ ds, g'.services.get? e = g.services.get? e := by
      intro e he
      exact hother e fun heq => hd (heq ▸ he)
    obtain ⟨hkept, hclears⟩ := ih hnodup (g := g') pass' fun e he s hs =>
      hcleared e (List.mem_cons_of_mem d he) s (hrest e he ▸ hs)
    have hrecorded : ds.flatMap g'.recordedAt = ds.flatMap g.recordedAt :=
      List.flatMap_congr fun e he => by rw [Group.recordedAt, Group.recordedAt, hrest e he]
    rw [hrecorded] at hclears
    refine ⟨fun e he => ?_, (hhere.trans hclears).imp ?_⟩
    · rw [hkept e fun hmem => he (List.mem_cons_of_mem d hmem)]
      exact hother e fun heq => he (heq ▸ List.mem_cons_self)
    · rintro ⟨hgone, hall⟩ e he
      rcases List.mem_cons.1 he with rfl | he
      · rw [hkept e hd]
        exact hgone
      · exact hall e he

/-- The visits of services leave the paths. -/
theorem paths_foldl_visitService (T : RouteTable σ) (ds : List Prefix) (state : Group × Pass σ) :
    (ds.foldl (visitService T managed) state).1.paths = state.1.paths := by
  induction ds generalizing state with
  | nil => rfl
  | cons d ds ih => rw [List.foldl_cons, ih, paths_visitService]

/-- A group of which everything is to be removed goes with its routes. -/
theorem Group.Doomed.clears {g : Group} (h : g.Doomed) {visit : Visit} (hvisit : visit.IsComplete)
    (pass : Pass (σ × Journal)) :
    pass.table.2.Clears (reconcileGroup T.journaled managed visit pass g).2.table.2 g.recorded
      ((reconcileGroup T.journaled managed visit pass g).1.isEmpty = true) := by
  let swept := g.paths.sweep
    (fun pass _ path => reconcilePath T.journaled managed g.name pass path) pass
  let g' := { g with paths := swept.1 }.reselect
  have hpaths : pass.table.2.Clears swept.2.table.2 (g.paths.values.flatMap Path.recorded)
      (∀ e ∈ swept.1.entries, False) := by
    rw [OrderedMap.values, List.flatMap_map]
    refine clears_sweepEntries Path.recorded (P := fun _ => False) g.paths.entries
      (fun pass e he => ?_) pass
    have hdelete := h.path (OrderedMap.get?_eq_some_iff.2 he)
    refine ((reconcilePath_turn T.journaled managed g.name pass e.2).clears hdelete).imp ?_
    intro hnone p hp
    rw [hnone] at hp
    cases hp
  have hvisited := hvisit g.name g.services.keys
  obtain ⟨hkept, hservices⟩ := clears_foldl_visitService T managed
    (hvisited.nodup_iff.2 g.services.nodup_keys) (g := g') swept.2 fun _ _ _ hs => h.service hs
  have hrecorded : (visit g.name g.services.keys).flatMap g'.recordedAt |>.Perm
      (g.services.values.flatMap Service.recorded) := by
    rw [← g.flatMap_recordedAt]
    exact hvisited.flatMap_right _
  refine (hpaths.trans (hservices.of_perm hrecorded)).imp ?_
  rintro ⟨hnopath, hnoservice⟩
  rw [isEmpty, Bool.and_eq_true]
  constructor
  · have hpaths' : (reconcileGroup T.journaled managed visit pass g).1.paths = swept.1 :=
      paths_foldl_visitService ..
    rw [hpaths', OrderedMap.isEmpty, List.isEmpty_iff]
    exact List.eq_nil_iff_forall_not_mem.2 hnopath
  · refine OrderedMap.isEmpty_iff.2 fun d => ?_
    by_cases hd : d ∈ visit g.name g.services.keys
    · exact hnoservice d hd
    · refine (hkept d hd).trans ?_
      by_contra hsome
      obtain ⟨s, hs⟩ := Option.ne_none_iff_exists'.1 hsome
      exact hd (hvisited.mem_iff.2 (OrderedMap.mem_keys_iff.2 ⟨s, hs⟩))

end Services

/-- Where everything is to be removed, nothing is claimed. -/
theorem Group.Doomed.claims_eq_nil {g : Group} (h : g.Doomed) : g.claims = [] := by
  have hpaths : g.paths.values.filter (!·.flags.pendingDelete) = [] := by
    refine List.filter_eq_nil_iff.2 fun p hp => ?_
    obtain ⟨c, hp⟩ := OrderedMap.mem_values_iff.1 hp
    simp [h.path hp]
  have hservices : g.services.values.filter (!·.isCleared) = [] := by
    refine List.filter_eq_nil_iff.2 fun s hs => ?_
    obtain ⟨d, hs⟩ := OrderedMap.mem_values_iff.1 hs
    simp [h.service hs]
  rw [claims, hpaths, hservices, List.map_nil, List.map_nil, List.append_nil]

/-! ## Routers -/

namespace Router

/-- A pass over a router of which everything is to be removed. -/
theorem clears_pass {r : Router} (hdoomed : ∀ n g, r.groups.get? n = some g → g.Doomed)
    (T : RouteTable σ) {visit : Visit} (hvisit : visit.IsComplete) (table : σ × Journal)
    (ledger : Ledger) :
    table.2.Clears (r.pass T.journaled visit table ledger).2.1.2 r.recorded
      ((r.pass T.journaled visit table ledger).1.pruned.groups = .empty) := by
  have hgroups := clears_sweepEntries Group.recorded (P := fun g => g.isEmpty = true)
    (f := fun pass (_ : GroupName) g =>
      let (g, pass) := reconcileGroup T.journaled r.managedInterfaces visit pass g
      (some g, pass)) r.groups.entries ?_ ⟨table, r.owners, ledger⟩
  · rw [recorded, OrderedMap.values, List.flatMap_map]
    refine hgroups.imp fun hempty => OrderedMap.ext ?_
    refine List.filter_eq_nil_iff.2 fun e he => ?_
    simp [hempty e he]
  · intro pass e he
    refine ((hdoomed _ _ (OrderedMap.get?_eq_some_iff.2 he)).clears hvisit pass).imp ?_
    rintro hempty _ ⟨⟩
    exact hempty

/-- The reconciliation after a flush makes one pass and settles nothing. Whatever the table answers,
it calls for the removal of each route that is recorded, once, and for nothing else. If no removal
fails, no group is left. -/
theorem reconcileWith_flush {r : Router} (hr : r.Reachable) (T : RouteTable σ)
    {visits : Nat → Visit} (hvisits : (visits 0).IsComplete) (table : σ) :
    let s := r.flush.reconcileWith T.journaled visits (table, [])
    s.passes = 1 ∧ s.resolved = 0 ∧ s.table.2.calls.Perm (removals r.recorded) ∧
      (s.table.2.Releases → s.router.groups = .empty) := by
  have hdoomed : ∀ n g, r.flush.groups.get? n = some g → g.Doomed := by
    intro n g hgroup
    rw [flush, OrderedMap.get?_map] at hgroup
    obtain ⟨g, -, rfl⟩ := Option.map_eq_some_iff.1 hgroup
    exact g.doomed_flush
  have hunclaimed : ∀ d, ¬ ∃ c, r.flush.Claimed d c := by
    rintro d ⟨c, n, g, hgroup, hclaim⟩
    rw [(hdoomed n g hgroup).claims_eq_nil] at hclaim
    exact List.not_mem_nil hclaim
  intro s
  have hs : s = _ := reconcileWith_eq_of_held hr.flush.keyed
    (fun d hd => absurd hd (hunclaimed d)) T.journaled visits (table, [])
  have hclears := clears_pass hdoomed T hvisits (table, []) .empty
  rw [pass_eq, recorded_flush] at hclears
  obtain ⟨calls, hcalls, hperm⟩ := hclears.calls
  rw [List.append_nil] at hcalls
  rw [← hcalls] at hperm
  rw [hs]
  exact ⟨rfl, rfl, hperm, hclears.gone⟩

/-- Alpha has a path and a service in place, beta's path to the same address is disabled, and
gamma's path waits. -/
def mixture : Reconciled RouteTable.Memory :=
  let r := (Router.new .default).addPeer ⟨"alpha"⟩ (.v4 "t1" "wg-a" 1)
  let r := (r.addService ⟨"alpha"⟩ (.single (.v4 9)) ⟨"t1"⟩).addPeer ⟨"beta"⟩ (.v4 "t2" "wg-b" 1)
  let r := r.recordRound (.ofList [(.v4 1, some (.millis 30))])
  let s := r.reconcileWith RouteTable.memory (fun _ => .inOrder) .empty
  { s with router := s.router.addPeer ⟨"gamma"⟩ (.v4 "t3" "wg-c" 2) }

theorem mixture_reachable : mixture.router.Reachable := by
  dsimp only [mixture]
  exact (((((Reachable.new _).addPeer _ _).addService _ _ _).addPeer _ _).recordRound _
    |>.reconcile RouteTable.memory (fun _ => .inOrder) .empty).addPeer _ _

/-- The flush takes the two routes that are recorded out of the table, and all three groups go. -/
theorem mixture_flush :
    mixture.router.Reachable ∧ Visit.inOrder.IsComplete ∧
      (mixture.router.flush.reconcileWith RouteTable.memory.journaled (fun _ => .inOrder)
        (mixture.table, [])).table.2.calls =
          [(.single (.v4 9), .remove "wg-a"), (.host (.v4 1), .remove "wg-a")] ∧
      (mixture.router.flush.reconcileWith RouteTable.memory.journaled (fun _ => .inOrder)
        (mixture.table, [])).router.groups = .empty := by
  have hcalls : (mixture.router.flush.reconcileWith RouteTable.memory.journaled
      (fun _ => .inOrder) (mixture.table, [])).table.2 =
        [(.single (.v4 9), .remove "wg-a", false), (.host (.v4 1), .remove "wg-a", false)] := by
    decide +kernel
  refine ⟨mixture_reachable, Visit.isComplete_inOrder, by rw [hcalls]; rfl, ?_⟩
  refine (reconcileWith_flush mixture_reachable RouteTable.memory Visit.isComplete_inOrder
    mixture.table).2.2.2 ?_
  rw [hcalls]
  intro d i
  simp

end Router

end RouteKeeper
