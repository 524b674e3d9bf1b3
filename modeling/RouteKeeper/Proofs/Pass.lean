import RouteKeeper.Proofs.Turns

/-!
# A pass as a series of turns

A pass takes the turns of a router one after the other: in each group the paths, a new selection,
and the services. An invariant of passes is an invariant of single turns, carried along the list of
turns.

## Main statements

* `Stage.take_turned` — what one turn does with the router and the running state.
* `pass_eq` — a pass is the series of its turns.
* `passStage_induction` — what every turn keeps, a pass keeps.
-/
namespace RouteKeeper

variable {σ : Type}

namespace Router

/-- The path of a group for a connection. -/
def path? (r : Router) (name : GroupName) (connection : ConnectionName) : Option Path :=
  (r.groups.get? name).bind (·.paths.get? connection)

/-- The service of a group for a prefix. -/
def service? (r : Router) (name : GroupName) (destination : Prefix) : Option Service :=
  (r.groups.get? name).bind (·.services.get? destination)

/-- Bind a name to a group. -/
def putGroup (r : Router) (name : GroupName) (g : Group) : Router :=
  { r with groups := r.groups.insert name g }

@[simp] theorem policy_putGroup (r : Router) (name : GroupName) (g : Group) :
    (r.putGroup name g).policy = r.policy := rfl

@[simp] theorem claims_putGroup (r : Router) (name : GroupName) (g : Group) :
    (r.putGroup name g).claims = r.claims := rfl

theorem get?_groups_putGroup (r : Router) (name n : GroupName) (g : Group) :
    (r.putGroup name g).groups.get? n = if n = name then some g else r.groups.get? n :=
  r.groups.get?_insert name n g

@[simp] theorem get?_groups_putGroup_self (r : Router) (name : GroupName) (g : Group) :
    (r.putGroup name g).groups.get? name = some g := by
  rw [get?_groups_putGroup, if_pos rfl]

theorem putGroup_putGroup (r : Router) (name : GroupName) (g g' : Group) :
    (r.putGroup name g).putGroup name g' = r.putGroup name g' := by
  have h := r.groups.put_put name (some g) (some g')
  simpa [putGroup, OrderedMap.put] using h

theorem putGroup_of_get? {r : Router} {name : GroupName} {g : Group}
    (h : r.groups.get? name = some g) : r.putGroup name g = r := by
  have hput := r.groups.put_get? name
  rw [h] at hput
  rw [putGroup, show r.groups.insert name g = r.groups from hput]

end Router

/-! ## Turns -/

/-- A router in the middle of a pass. -/
structure Stage (σ : Type) where
  router : Router
  pass : Pass σ

/-- Whose turn it is. -/
inductive Turn where
  | path (group : GroupName) (connection : ConnectionName)
  | select (group : GroupName)
  | service (group : GroupName) (destination : Prefix)

/-- Visit one path of a group, if it is still there. -/
def visitPath (T : RouteTable σ) (managed : List String) (state : Group × Pass σ)
    (connection : ConnectionName) : Group × Pass σ :=
  match state.1.paths.get? connection with
  | none => state
  | some path =>
    let (kept, pass) := reconcilePath T managed state.1.name state.2 path
    ({ state.1 with paths := state.1.paths.put connection kept }, pass)

/-- The visit of a service that is there binds its prefix anew. -/
theorem visitService_of_get? {g : Group} {destination : Prefix} {service : Service}
    (h : g.services.get? destination = some service) (T : RouteTable σ) (managed : List String)
    (pass : Pass σ) :
    visitService T managed (g, pass) destination =
      ({ g with
          services := g.services.put destination (reconcileService T managed g pass service).1 },
        (reconcileService T managed g pass service).2) := by
  simp only [visitService, h]
  cases (reconcileService T managed g pass service).1 <;> rfl

namespace Stage

/-- Let a group and the running state change. -/
def onGroup (name : GroupName) (f : Group × Pass σ → Group × Pass σ) (s : Stage σ) : Stage σ :=
  match s.router.groups.get? name with
  | none => s
  | some g => ⟨s.router.putGroup name (f (g, s.pass)).1, (f (g, s.pass)).2⟩

theorem onGroup_of_get? {name : GroupName} {f : Group × Pass σ → Group × Pass σ} {s : Stage σ}
    {g : Group} (h : s.router.groups.get? name = some g) :
    s.onGroup name f = ⟨s.router.putGroup name (f (g, s.pass)).1, (f (g, s.pass)).2⟩ := by
  simp only [onGroup, h]

/-- Changes of one group, one after the other, are one change. -/
theorem foldl_onGroup {α : Type} (name : GroupName) (f : Group × Pass σ → α → Group × Pass σ)
    (l : List α) {s : Stage σ} {g : Group} (h : s.router.groups.get? name = some g) :
    l.foldl (fun s a => s.onGroup name (f · a)) s =
      ⟨s.router.putGroup name (l.foldl f (g, s.pass)).1, (l.foldl f (g, s.pass)).2⟩ := by
  induction l generalizing s g with
  | nil => simp [Router.putGroup_of_get? h]
  | cons a l ih =>
    rw [List.foldl_cons, onGroup_of_get? h, List.foldl_cons,
      ih (Router.get?_groups_putGroup_self ..)]
    simp only [Router.putGroup_putGroup]

/-- Take one turn. -/
def take (T : RouteTable σ) (managed : List String) (s : Stage σ) : Turn → Stage σ
  | .path name connection => s.onGroup name (visitPath T managed · connection)
  | .select name => s.onGroup name fun state => (state.1.reselect, state.2)
  | .service name destination => s.onGroup name (visitService T managed · destination)

/-- What a turn does with a router and the running state. -/
inductive Turned (T : RouteTable σ) (managed : List String) (s : Stage σ) : Turn → Stage σ → Prop
  /-- An entry that is not there has no turn. -/
  | noPath {name : GroupName} {connection : ConnectionName}
    (hpath : s.router.path? name connection = none) :
    Turned T managed s (.path name connection) s
  | path {name : GroupName} {g : Group} {connection : ConnectionName} {path : Path}
    {kept : Option Path} {pass : Pass σ} (hgroup : s.router.groups.get? name = some g)
    (hpath : g.paths.get? connection = some path)
    (hturn : PathTurn T managed g.name s.pass path kept pass) :
    Turned T managed s (.path name connection)
      ⟨s.router.putGroup name { g with paths := g.paths.put connection kept }, pass⟩
  | noGroup {name : GroupName} (hgroup : s.router.groups.get? name = none) :
    Turned T managed s (.select name) s
  | select {name : GroupName} {g : Group} (hgroup : s.router.groups.get? name = some g) :
    Turned T managed s (.select name) ⟨s.router.putGroup name g.reselect, s.pass⟩
  | noService {name : GroupName} {destination : Prefix}
    (hservice : s.router.service? name destination = none) :
    Turned T managed s (.service name destination) s
  | service {name : GroupName} {g : Group} {destination : Prefix} {service : Service}
    {kept : Option Service} {pass : Pass σ} (hgroup : s.router.groups.get? name = some g)
    (hservice : g.services.get? destination = some service)
    (hturn : ServiceTurn T managed g s.pass service kept pass) :
    Turned T managed s (.service name destination)
      ⟨s.router.putGroup name { g with services := g.services.put destination kept }, pass⟩

theorem take_turned (T : RouteTable σ) (managed : List String) (s : Stage σ) (turn : Turn) :
    Turned T managed s turn (s.take T managed turn) := by
  cases turn with
  | path name connection =>
    cases hgroup : s.router.groups.get? name with
    | none => simpa only [take, onGroup, hgroup] using .noPath (by simp [Router.path?, hgroup])
    | some g =>
      simp only [take, onGroup_of_get? hgroup, visitPath]
      cases hpath : g.paths.get? connection with
      | none =>
        simpa only [Router.putGroup_of_get? hgroup] using
          .noPath (by simp [Router.path?, hgroup, hpath])
      | some path => exact .path hgroup hpath (reconcilePath_turn T managed g.name s.pass path)
  | select name =>
    cases hgroup : s.router.groups.get? name with
    | none => simpa only [take, onGroup, hgroup] using .noGroup hgroup
    | some g =>
      simp only [take, onGroup_of_get? hgroup]
      exact .select hgroup
  | service name destination =>
    cases hgroup : s.router.groups.get? name with
    | none =>
      simpa only [take, onGroup, hgroup] using .noService (by simp [Router.service?, hgroup])
    | some g =>
      simp only [take, onGroup_of_get? hgroup]
      cases hservice : g.services.get? destination with
      | none =>
        simpa only [visitService, hservice, Router.putGroup_of_get? hgroup] using
          .noService (by simp [Router.service?, hgroup, hservice])
      | some service =>
        rw [visitService_of_get? hservice]
        exact .service hgroup hservice (reconcileService_turn T managed g s.pass service)

/-- An invariant that speaks of the turns still to come is kept up to the end. -/
theorem foldl_take_induction {T : RouteTable σ} {managed : List String}
    {P : List Turn → Stage σ → Prop}
    (hstep : ∀ turn rest s s', P (turn :: rest) s → Turned T managed s turn s' → P rest s')
    {turns : List Turn} {s : Stage σ} (h : P turns s) :
    P [] (turns.foldl (take T managed) s) := by
  induction turns generalizing s with
  | nil => exact h
  | cons turn turns ih => exact ih (hstep turn turns s _ h (take_turned T managed s turn))

end Stage

/-! ## Passes -/

/-- The turns of a group: its paths, the selection, its services. -/
def Group.turns (visit : Visit) (name : GroupName) (g : Group) : List Turn :=
  g.paths.keys.map (.path name) ++
    .select name :: (visit g.name g.services.keys).map (.service name)

namespace Router

/-- The turns of all groups. -/
def turns (visit : Visit) (r : Router) : List Turn :=
  r.groups.entries.flatMap fun e => e.2.turns visit e.1

/-- The router and the running state at the end of a pass. -/
def passStage (T : RouteTable σ) (visit : Visit) (r : Router) (table : σ) (ledger : Ledger) :
    Stage σ :=
  (r.turns visit).foldl (Stage.take T r.managedInterfaces) ⟨r, ⟨table, r.owners, ledger⟩⟩

end Router

/-- The paths of a group take their turns one after the other. -/
theorem sweep_paths_eq_foldl (T : RouteTable σ) (managed : List String) (pass : Pass σ)
    (g : Group) :
    g.paths.keys.foldl (visitPath T managed) (g, pass) =
      let swept := g.paths.sweep (fun pass _ path => reconcilePath T managed g.name pass path) pass
      ({ g with paths := swept.1 }, swept.2) := by
  let step (s : Paths × Pass σ) (e : ConnectionName × Path) : Paths × Pass σ :=
    ((visitPath T managed ({ g with paths := s.1 }, s.2) e.1).1.paths,
      (visitPath T managed ({ g with paths := s.1 }, s.2) e.1).2)
  have hstep : ∀ m s e, m.get? e.1 = some e.2 →
      step (m, s) e = (m.put e.1 (reconcilePath T managed g.name s e.2).1,
        (reconcilePath T managed g.name s e.2).2) := by
    intro m s e h
    simp only [step, visitPath, h]
  have hcarry : ∀ (l : List (ConnectionName × Path)) (s : Paths × Pass σ),
      (l.map Prod.fst).foldl (visitPath T managed) ({ g with paths := s.1 }, s.2) =
        ({ g with paths := (l.foldl step s).1 }, (l.foldl step s).2) := by
    intro l
    induction l with
    | nil => intro s; rfl
    | cons e l ih =>
      intro s
      rw [List.map_cons, List.foldl_cons, List.foldl_cons, ← ih]
      congr 1
      simp only [step, visitPath]
      cases s.1.get? e.1 <;> rfl
  rw [OrderedMap.sweep_eq_foldl hstep]
  exact hcarry g.paths.entries (g.paths, pass)

theorem reconcileGroup_eq_foldl (T : RouteTable σ) (managed : List String) (visit : Visit)
    (pass : Pass σ) (g : Group) :
    reconcileGroup T managed visit pass g =
      let state := g.paths.keys.foldl (visitPath T managed) (g, pass)
      (visit g.name g.services.keys).foldl (visitService T managed)
        (state.1.reselect, state.2) := by
  rw [sweep_paths_eq_foldl]
  rfl

/-- The turns of a group bring its routes in line. -/
theorem foldl_take_turns (T : RouteTable σ) (managed : List String) (visit : Visit)
    {s : Stage σ} {name : GroupName} {g : Group} (h : s.router.groups.get? name = some g) :
    (g.turns visit name).foldl (Stage.take T managed) s =
      ⟨s.router.putGroup name (reconcileGroup T managed visit s.pass g).1,
        (reconcileGroup T managed visit s.pass g).2⟩ := by
  simp only [Group.turns, List.foldl_append, List.foldl_cons, List.foldl_map, Stage.take]
  rw [Stage.foldl_onGroup name _ _ h, Stage.onGroup_of_get? (Router.get?_groups_putGroup_self ..),
    Stage.foldl_onGroup name _ _ (Router.get?_groups_putGroup_self ..), reconcileGroup_eq_foldl]
  simp only [Router.putGroup_putGroup]

/-- A pass is the series of its turns. -/
theorem pass_eq (T : RouteTable σ) (visit : Visit) (r : Router) (table : σ) (ledger : Ledger) :
    r.pass T visit table ledger =
      ((r.passStage T visit table ledger).router, (r.passStage T visit table ledger).pass.table,
        (r.passStage T visit table ledger).pass.ledger) := by
  let managed := r.managedInterfaces
  let step (s : OrderedMap GroupName Group × Pass σ) (e : GroupName × Group) :
      OrderedMap GroupName Group × Pass σ :=
    let stage := (e.2.turns visit e.1).foldl (Stage.take T managed) ⟨{ r with groups := s.1 }, s.2⟩
    (stage.router.groups, stage.pass)
  have hstep : ∀ m s e, m.get? e.1 = some e.2 →
      step (m, s) e = (m.put e.1 (some (reconcileGroup T managed visit s e.2).1),
        (reconcileGroup T managed visit s e.2).2) := by
    intro m s e h
    simp only [step, foldl_take_turns T managed visit
      (show (Stage.mk { r with groups := m } s).router.groups.get? e.1 = some e.2 from h)]
    rfl
  have hkeep : ∀ (turns : List Turn) (s : Stage σ),
      s.router.policy = r.policy ∧ s.router.claims = r.claims →
      (turns.foldl (Stage.take T managed) s).router.policy = r.policy ∧
        (turns.foldl (Stage.take T managed) s).router.claims = r.claims := by
    intro turns s h
    refine Stage.foldl_take_induction
      (P := fun _ s => s.router.policy = r.policy ∧ s.router.claims = r.claims) ?_ h
    intro turn rest s s' h hturn
    cases hturn <;> exact h
  have hcarry : ∀ (l : List (GroupName × Group)) (s : OrderedMap GroupName Group × Pass σ),
      (l.flatMap fun e => e.2.turns visit e.1).foldl (Stage.take T managed)
          ⟨{ r with groups := s.1 }, s.2⟩ =
        ⟨{ r with groups := (l.foldl step s).1 }, (l.foldl step s).2⟩ := by
    intro l
    induction l with
    | nil => intro s; rfl
    | cons e l ih =>
      intro s
      rw [List.flatMap_cons, List.foldl_append, List.foldl_cons, ← ih]
      congr 1
      obtain ⟨hp, hc⟩ := hkeep (e.2.turns visit e.1) ⟨{ r with groups := s.1 }, s.2⟩ ⟨rfl, rfl⟩
      rcases hs : (e.2.turns visit e.1).foldl (Stage.take T managed)
        ⟨{ r with groups := s.1 }, s.2⟩ with ⟨⟨policy, groups, claims⟩, pass⟩
      rw [hs] at hp hc
      simp only at hp hc
      simp only [step, hs, hp, hc]
  have hstage : r.passStage T visit table ledger =
      ⟨{ r with groups := (r.groups.entries.foldl step (r.groups, ⟨table, r.owners, ledger⟩)).1 },
        (r.groups.entries.foldl step (r.groups, ⟨table, r.owners, ledger⟩)).2⟩ :=
    hcarry r.groups.entries (r.groups, ⟨table, r.owners, ledger⟩)
  have hsweep := OrderedMap.sweep_eq_foldl
    (f := fun pass _ g =>
      let state := reconcileGroup T managed visit pass g
      (some state.1, state.2)) hstep ⟨table, r.owners, ledger⟩ r.groups
  rw [hstage, ← hsweep]
  rfl

/-- What every turn keeps, a pass keeps; the invariant may speak of the turns still to come. -/
theorem passStage_induction {T : RouteTable σ} {visit : Visit} {r : Router} {table : σ}
    {ledger : Ledger} {P : List Turn → Stage σ → Prop}
    (hstart : P (r.turns visit) ⟨r, ⟨table, r.owners, ledger⟩⟩)
    (hstep : ∀ turn rest s s', P (turn :: rest) s →
      Stage.Turned T r.managedInterfaces s turn s' → P rest s') :
    P [] (r.passStage T visit table ledger) :=
  Stage.foldl_take_induction hstep hstart

end RouteKeeper
