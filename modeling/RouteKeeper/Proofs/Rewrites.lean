import RouteKeeper.Proofs.Runs
import RouteKeeper.Proofs.Sweep

/-!
# Routes that wait to be rewritten

A path that is in place and is asked for in another way waits to be installed again. Its mark says
that the route that was last written for it is out of date, and every operation keeps that so, but
for one series. Marking a path to be removed takes the other mark off, and asking for the path again
compares only with what was asked for before. So a path that was out of date and is asked for again
as before is back in place, still out of date, and waits for nothing.

## Main definitions

* `written?` — the route that was last written for a path.
* `Router.Tracked` — a path in place that is out of date waits to be installed.
* `Run.Forgets` — the operation that takes back a removal and forgets what the path waited for.

## Main statements

* `Router.Follows.reconcileWith` — what a reconciliation can do with a path and its last route.
* `Router.Tracked.reconcileWith` — a reconciliation keeps a path tracked.
* `Run.tracked_after_concat`, `Run.not_tracked_of_forgets` — the operations that forget are those
  after which a path is not tracked.
* `Run.tracked_iff` — a path is tracked unless some operation forgot and it was not tracked since.
-/
namespace RouteKeeper

variable {σ : Type} {n : GroupName} {c : ConnectionName}

/-! ## What was written last -/

/-- The route that a path asks for. -/
def Path.wanted (p : Path) : Prefix × Hop := (p.destination, ⟨p.interface, p.spec.gateway⟩)

/-- Paths that are asked for in the same way ask for the same route. -/
theorem Path.wanted_eq {p p' : Path} (h : p'.spec = p.spec) : p'.wanted = p.wanted := by
  simp only [wanted, destination, interface, h]

/-- The route that an attempt wrote for a path. -/
def Attempt.wrote? (n : GroupName) (c : ConnectionName) (a : Attempt) : Option (Prefix × Hop) :=
  match a.action, a.error with
  | .install hop, none =>
    if a.group = n ∧ a.claimant = .path c then some (a.destination, hop) else none
  | _, _ => none

/-- The route that was last written for a path; the newest attempt stands first. -/
def written? (n : GroupName) (c : ConnectionName) (attempts : List Attempt) :
    Option (Prefix × Hop) :=
  attempts.findSome? (Attempt.wrote? n c)

theorem Attempt.wrote?_of_ne {a : Attempt} (h : ¬ (a.group = n ∧ a.claimant = .path c)) :
    a.wrote? n c = none := by
  unfold wrote?
  split
  · rw [if_neg h]
  · rfl

theorem Attempt.wrote?_of_error {a : Attempt} {e : Error} (h : a.error = some e) :
    a.wrote? n c = none := by
  unfold wrote?
  split
  case h_1 hnone =>
    rw [h] at hnone
    cases hnone
  case h_2 => rfl

theorem written?_cons_of_none {a : Attempt} (h : a.wrote? n c = none) (attempts : List Attempt) :
    written? n c (a :: attempts) = written? n c attempts := by
  simp [written?, h]

theorem written?_cons_install (d : Prefix) (hop : Hop) (attempts : List Attempt) :
    written? n c (⟨n, .path c, d, .install hop, none⟩ :: attempts) = some (d, hop) := by
  simp [written?, Attempt.wrote?]

/-! ## What a reconciliation does with a path -/

section Follow

variable {T : RouteTable σ} {P : Path → Option (Prefix × Hop) → Prop}

/-- What `P` says of a path and the route last written for it. -/
def Router.Follows (P : Path → Option (Prefix × Hop) → Prop) (r : Router) (attempts : List Attempt)
    (n : GroupName) (c : ConnectionName) : Prop :=
  ∀ p, r.path? n c = some p → P p (written? n c attempts)

/-- A turn writes no route for a path other than its own. -/
theorem Stage.Turned.written?_of_ne {managed : List String} {s s' : Stage σ} {turn : Turn}
    (h : Turned T managed s turn s') (hk : s.router.Keyed) (hne : turn ≠ .path n c)
    (earlier : List Attempt) : written? n c (s'.pass.ledger.attempts ++ earlier) =
      written? n c (s.pass.ledger.attempts ++ earlier) := by
  rcases h.cause hk with hsame | ⟨m, k, d, action, error, hown, hattempts, -⟩
  · rw [hsame]
  · rw [hattempts, List.cons_append]
    refine written?_cons_of_none (Attempt.wrote?_of_ne ?_) _
    rintro ⟨rfl, rfl⟩
    exact hne hown

/-- A turn keeps a path or puts it in place. -/
theorem Stage.Turned.follows {managed : List String} {s s' : Stage σ} {turn : Turn}
    (h : Turned T managed s turn s') (hk : s.router.Keyed)
    (hplaced : ∀ p w, P p w → P p.placed (some p.wanted)) {earlier : List Attempt}
    (hs : s.router.Follows P (s.pass.ledger.attempts ++ earlier) n c) :
    s'.router.Follows P (s'.pass.ledger.attempts ++ earlier) n c := by
  intro p' hp'
  by_cases hown : turn = .path n c
  case neg =>
    rw [h.written?_of_ne hk hown]
    rw [h.path?_of_ne hown] at hp'
    exact hs p' hp'
  subst hown
  rcases h.path_cases hk with ⟨-, rfl⟩ | ⟨p, kept, hp, hturn, hkept⟩
  · exact hs p' hp'
  have hconnection := hk.connection hp
  subst hconnection
  rw [hp'] at hkept
  subst hkept
  generalize s'.pass = pass' at hturn ⊢
  cases hturn with
  | idle => exact hs _ hp
  | removeFailed | installFailed =>
    rw [Pass.attempts_tried_error, List.cons_append,
      written?_cons_of_none (Attempt.wrote?_of_error rfl)]
    exact hs _ hp
  | install =>
    rw [Pass.ledger_own, Pass.attempts_tried_ok, List.cons_append, written?_cons_install]
    exact hplaced _ _ (hs _ hp)

/-- A resolution writes no route. -/
theorem Resolution.Effect.written?_eq {res res' : Resolution σ} (h : Effect T res res')
    (earlier : List Attempt) : written? n c (res'.ledger.attempts ++ earlier) =
      written? n c (res.ledger.attempts ++ earlier) := by
  cases h with
  | quiet _ _ hattempts => rw [hattempts]
  | failed _ _ hattempts herror =>
    rw [hattempts]
    exact written?_cons_of_none (Attempt.wrote?_of_error herror) _
  | removed _ _ _ hattempts =>
    rw [hattempts]
    exact written?_cons_of_none rfl _

/-- What a path keeps when it is put in place, disabled or enabled, it keeps in a reconciliation. -/
theorem Router.Follows.reconcileWith {r : Router} {earlier : List Attempt}
    (h : r.Follows P earlier n c) (hk : r.Keyed)
    (hplaced : ∀ p w, P p w → P p.placed (some p.wanted))
    (hlost : ∀ p stays w, P p w → P (p.lost stays) w) (hregained : ∀ p w, P p w → P p.regained w)
    (T : RouteTable σ) (visits : Nat → Visit) (table : σ) :
    (r.reconcileWith T visits table).router.Follows P
      ((r.reconcileWith T visits table).ledger.attempts ++ earlier) n c := by
  refine reconcileWith_stages hk (A := fun _ => True) (fun _ _ => trivial)
    (Q := fun r _ attempts => r.Follows P (attempts ++ earlier) n c)
    (S := fun _ s => s.router.Follows P (s.pass.ledger.attempts ++ earlier) n c) h
    (fun _ _ _ _ h => h) ?_ (fun _ _ h => h) ?_ ?_ ?_
  · intro managed turn s s' hs hturned _
    exact hturned.follows hs hplaced
  · intro res d claim res' _ hdisabled _ hres p' hp'
    rw [hdisabled.effect.written?_eq]
    rcases hdisabled.path?_cases hp' with hp | ⟨p, stays, hp, rfl, -⟩
    · exact hres p' hp
    · exact hlost p stays _ (hres p hp)
  · intro res d claim res' _ henabled hres p' hp'
    rw [(henabled.effect (T := T)).written?_eq]
    rcases henabled.path?_cases hp' with hp | ⟨p, hp, rfl⟩
    · exact hres p' hp
    · exact hregained p _ (hres p hp)
  · intro r t attempts hr p hp
    exact hr p ((path?_pruned r n c).symm.trans hp)

end Follow

/-! ## Tracked paths -/

namespace Router

variable {r : Router}

/-- If the path is in place and is to stay, and the route last written for it is not the one that it
asks for, it waits to be installed. -/
def Tracked (r : Router) (attempts : List Attempt) (n : GroupName) (c : ConnectionName) : Prop :=
  ∀ p, r.path? n c = some p → p.isInstalled = true → p.flags.pendingDelete = false →
    p.flags.disabled = false → written? n c attempts ≠ some p.wanted → p.flags.pendingAdd = true

/-- A reconciliation keeps every path tracked. -/
theorem Tracked.reconcileWith {earlier : List Attempt} (h : r.Tracked earlier n c) (hk : r.Keyed)
    (T : RouteTable σ) (visits : Nat → Visit) (table : σ) :
    (r.reconcileWith T visits table).router.Tracked
      ((r.reconcileWith T visits table).ledger.attempts ++ earlier) n c := by
  refine Follows.reconcileWith (P := fun p w => p.isInstalled = true →
    p.flags.pendingDelete = false → p.flags.disabled = false → w ≠ some p.wanted →
      p.flags.pendingAdd = true) h hk ?_ ?_ ?_ T visits table
  · intro p w _ _ _ _ hstale
    exact absurd rfl hstale
  · intro p stays w _ _ _ henabled
    cases henabled
  · intro p w _ _ _ _ _
    rfl

end Router

/-! ## Operations -/

/-- A path that was updated waits, unless it is in place, did not wait before and is asked for as
before. -/
theorem Path.pendingAdd_update_eq_false_iff {p : Path} {spec : PathSpec}
    (hconnection : p.connection = spec.connection) :
    (p.update spec).flags.pendingAdd = false ↔
      p.flags.pendingAdd = false ∧ p.isInstalled = true ∧ spec.normal = p.spec := by
  have hspec : spec.normal = p.spec ↔ spec.normal.interface = p.spec.interface ∧
      spec.normal.gateway = p.spec.gateway ∧ spec.normal.address = p.spec.address := by
    have hsame : spec.normal.connection = p.spec.connection := hconnection.symm
    cases hp : p.spec
    cases hs : spec.normal
    simp_all
  rw [hspec]
  simp [update, and_comm, and_left_comm]

namespace Run

variable {T : RouteTable σ} {policy : Policy} {table : σ}

/-- The operation asks again, as before, for a path whose removal was to come, while the route last
written for the path is not the one that it asks for. -/
def Forgets (s : Run σ) (n : GroupName) (c : ConnectionName) : Operation → Prop
  | .addPeer name spec => name = n ∧ spec.connection = c ∧ spec.isUsable = true ∧
      ∃ p, s.router.path? n c = some p ∧ p.isInstalled = true ∧ p.flags.pendingDelete = true ∧
        p.flags.disabled = false ∧ p.flags.pendingAdd = false ∧ spec.normal = p.spec ∧
        written? n c s.history ≠ some p.wanted
  | _ => False

/-- What an operation does at once keeps a path tracked, unless it forgets. -/
theorem tracked_edit {s : Run σ} {op : Operation} (hk : s.router.Keyed)
    (h : s.router.Tracked s.history n c) (hcalm : ¬ s.Forgets n c op) :
    (op.edit s.router).Tracked s.history n c := by
  intro p' hp' hinstalled hlive henabled hstale
  rcases Operation.path?_edit hp' with ⟨spec, rfl, husable, rfl, rfl⟩ | ⟨p, hp, hkept⟩
  · cases hp : s.router.path? n spec.connection with
    | none => simp only [Router.requested, hp, Path.new]
    | some p =>
      simp only [Router.requested, hp] at hstale henabled ⊢
      by_contra hidle
      obtain ⟨hsettled, hplaced, hspec⟩ :=
        (Path.pendingAdd_update_eq_false_iff (hk.connection hp)).1 (by simpa using hidle)
      have hwanted : (p.update spec).wanted = p.wanted := Path.wanted_eq hspec
      rw [hwanted] at hstale
      cases hdelete : p.flags.pendingDelete with
      | true =>
        exact hcalm ⟨rfl, rfl, husable, p, hp, hplaced, hdelete, henabled, hsettled, hspec, hstale⟩
      | false =>
        rw [h p hp hplaced hdelete henabled hstale] at hsettled
        cases hsettled
  · rcases hkept.flags with hflags | hflags
    · rw [Path.wanted_eq hkept.spec] at hstale
      rw [hflags] at hlive henabled ⊢
      rw [Path.isInstalled, hkept.installed] at hinstalled
      exact h p hp hinstalled hlive henabled hstale
    · rw [hflags] at hlive
      cases hlive

/-- Only the operations that forget leave a path untracked. -/
theorem tracked_after_concat {ops : List Operation} {op : Operation}
    (h : (after T policy table ops).router.Tracked (after T policy table ops).history n c)
    (hcalm : ¬ (after T policy table ops).Forgets n c op) :
    (after T policy table (ops ++ [op])).router.Tracked
      (after T policy table (ops ++ [op])).history n c := by
  have hk : (after T policy table ops).router.Keyed := keyed_after ops
  rw [after_concat]
  by_cases hreconcile : ∃ visits, op = .reconcile visits
  · obtain ⟨visits, rfl⟩ := hreconcile
    rw [router_perform_reconcile, history_perform_reconcile]
    exact h.reconcileWith hk T visits _
  · rw [perform_of_ne (not_exists.1 hreconcile)]
    exact tracked_edit hk h hcalm

/-- An operation that forgets leaves the path untracked. -/
theorem not_tracked_of_forgets {s : Run σ} {op : Operation} (hk : s.router.Keyed)
    (h : s.Forgets n c op) :
    ¬ (s.perform T op).router.Tracked (s.perform T op).history n c := by
  intro htracked
  cases op with
  | addPeer name spec =>
    obtain ⟨rfl, rfl, husable, p, hp, hplaced, -, henabled, hsettled, hspec, hstale⟩ := h
    have hp' : (s.router.addPeer name spec).path? name spec.connection = some (p.update spec) := by
      rw [Router.path?_addPeer husable, if_pos ⟨rfl, rfl⟩, Router.requested, hp]
    have hwanted : (p.update spec).wanted = p.wanted := Path.wanted_eq hspec
    have hidle : (p.update spec).flags.pendingAdd = false :=
      (Path.pendingAdd_update_eq_false_iff (hk.connection hp)).2 ⟨hsettled, hplaced, hspec⟩
    have hwaits := htracked (p.update spec) hp' hplaced rfl henabled (hwanted ▸ hstale)
    rw [hidle] at hwaits
    cases hwaits
  | _ => exact h

/-- Over any table, whichever calls fail: a path in place that is out of date waits to be installed,
unless some operation forgot it and it was not tracked since. -/
theorem tracked_iff (T : RouteTable σ) (policy : Policy) (table : σ) (ops : List Operation)
    (n : GroupName) (c : ConnectionName) :
    (after T policy table ops).router.Tracked (after T policy table ops).history n c ↔
      ¬ LostSince
        (fun ops => (after T policy table ops).router.Tracked
          (after T policy table ops).history n c)
        (fun ops op => (after T policy table ops).Forgets n c op) ops := by
  rw [lostSince_iff, not_not]
  · intro p hp
    cases hp
  · intro ops op h hcalm
    exact tracked_after_concat h hcalm

/-- A path in place is asked for through another interface, then it is to be removed, then it is
asked for again. -/
def secondThoughts : List Operation :=
  [.addPeer ⟨"alpha"⟩ (.v4 "t1" "wg-a" 1), .reconcile fun _ => .inOrder,
    .addPeer ⟨"alpha"⟩ (.v4 "t1" "wg-b" 1), .deletePeer ⟨"alpha"⟩ ⟨"t1"⟩,
    .addPeer ⟨"alpha"⟩ (.v4 "t1" "wg-b" 1)]

/-- The run over them. -/
def forgetful : Run RouteTable.Memory := after RouteTable.memory .default .empty secondThoughts

/-- The path is in place and to stay, waits for nothing, and its route still goes through the first
interface. A reconciliation then calls for nothing. -/
theorem secondThoughts_forget :
    ¬ forgetful.router.Tracked forgetful.history ⟨"alpha"⟩ ⟨"t1"⟩ ∧
      (forgetful.perform RouteTable.memory (.reconcile fun _ => .inOrder)).history =
        forgetful.history := by
  have hpath : (forgetful.router.path? ⟨"alpha"⟩ ⟨"t1"⟩).map
      (fun p => (p.isInstalled, p.flags, p.wanted)) =
        some (true, .none, (.host (.v4 1), ⟨"wg-b", none⟩)) := by decide +kernel
  have hwritten : written? ⟨"alpha"⟩ ⟨"t1"⟩ forgetful.history =
      some (.host (.v4 1), ⟨"wg-a", none⟩) := by decide +kernel
  refine ⟨fun htracked => ?_, by decide +kernel⟩
  obtain ⟨p, hp, hmarks⟩ := Option.map_eq_some_iff.1 hpath
  obtain ⟨hplaced, hmarks⟩ := Prod.mk.inj hmarks
  obtain ⟨hflags, hwanted⟩ := Prod.mk.inj hmarks
  have hstale : written? ⟨"alpha"⟩ ⟨"t1"⟩ forgetful.history ≠ some p.wanted := by
    rw [hwritten, hwanted]
    decide
  have hwaits := htracked p hp hplaced (by rw [hflags]; rfl) (by rw [hflags]; rfl) hstale
  rw [hflags] at hwaits
  cases hwaits

end Run

end RouteKeeper
