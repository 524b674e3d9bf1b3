import RouteKeeper.Proofs.Averages
import RouteKeeper.Proofs.Comparable

/-!
# Selections by exact ratios

A router selects by exact ratios and exact averages, and always comes to an end. A selection by
doubles may be another one, and it fails where it needs an average that cannot be formed. In a run
that keeps to the bounds under which all averages can be formed, this makes no difference: the paths
of a router have windows of one size, which the doubles count. So at every moment of a
reconciliation a group, and each of its services, selects as it would by doubles, and no such
selection fails.

## Main definitions

* `Router.Sized` — the windows of all paths have one size.

## Main statements

* `Run.sized_after` — in a run, this is the size that the policy says.
* `Run.selects_throughout` — selections by exact ratios are those by doubles, at every moment of a
  run.
-/
namespace RouteKeeper

variable {σ : Type} {capacity : Nat}

/-! ## Windows of one size -/

/-- The windows of all paths have one size. -/
def Router.Sized (capacity : Nat) (r : Router) : Prop :=
  ∀ n c p, r.path? n c = some p → p.window.capacity = capacity

variable {r r' : Router}

theorem Router.Sized.remains (h : r.Sized capacity) (hremains : r.Remains r') :
    r'.Sized capacity := by
  intro n c p' hp'
  obtain ⟨p, hp, -, -, hwindow⟩ := hremains.origin hp'
  rw [hwindow]
  exact h n c p hp

/-- No operation changes the size of a window. -/
theorem Operation.sized_edit {op : Operation} (h : r.Sized capacity)
    (hsize : ∀ n, Max.max (r.group n).selector.policy.windowSize 1 = capacity) :
    (op.edit r).Sized capacity := by
  intro n c p' hp'
  rcases window_edit hp' with hnew | ⟨p, hp, hsame | hreset | ⟨s, -, hrecorded⟩⟩
  · rw [hnew, Window.capacity_new]
    exact hsize n
  · rw [hsame]
    exact h n c p hp
  · rw [hreset, Window.capacity_reset]
    exact h n c p hp
  · rw [hrecorded, Window.capacity_record]
    exact h n c p hp

namespace Run

variable {T : RouteTable σ} {policy : Policy} {table : σ}

theorem sized_after (ops : List Operation) :
    (after T policy table ops).router.Sized (Max.max policy.windowSize 1) := by
  induction ops using List.reverseRecOn with
  | nil => exact nofun
  | append_singleton ops op ih =>
    rw [after_concat]
    by_cases hop : ∃ visits, op = .reconcile visits
    · obtain ⟨visits, rfl⟩ := hop
      rw [router_perform_reconcile]
      exact ih.remains (Router.remains_reconcileWith (keyed_after ops) T visits _)
    · rw [perform_of_ne (not_exists.1 hop)]
      refine Operation.sized_edit ih fun n => ?_
      rw [(Router.uniform_iff.1 (uniform_after ops)).of_group n]

end Run

/-! ## Selections -/

section Group

variable {g : Group} (hsized : ∀ c p, g.paths.get? c = some p → p.window.capacity = capacity)
  (hcounts : Window.CountsHits Loss.lessShare capacity)
  (haverages : ∀ c p, g.paths.get? c = some p → p.window.Averages)

include hsized hcounts haverages

/-- A group selects what it would select by doubles. -/
theorem Group.select?_eq_reselect
    (hkeyed : ∀ c p, g.paths.get? c = some p → p.connection = c) :
    g.selector.select? g.paths = some (g.selector.select Loss.less g.paths) := by
  refine Selector.select?_eq_select hkeyed hsized hcounts (.inr fun p hp _ => ?_)
  obtain ⟨c, hget⟩ := OrderedMap.mem_values_iff.1 hp
  exact ⟨(haverages c p hget).sum, (haverages c p hget).count⟩

/-- A service would go through the same candidate. -/
theorem Group.best?_usable_eq (s : Service) :
    Path.best? ((g.usable s).filterMap g.paths.get?) =
      some (Path.best Loss.less ((g.usable s).filterMap g.paths.get?)) := by
  have hfound : ∀ p ∈ (g.usable s).filterMap g.paths.get?, ∃ c, g.paths.get? c = some p := by
    intro p hp
    obtain ⟨c, -, hget⟩ := List.mem_filterMap.1 hp
    exact ⟨c, hget⟩
  refine Path.best?_eq_best (fun p hp => ?_) hcounts (.inr fun p hp _ => ?_)
  · obtain ⟨c, hget⟩ := hfound p hp
    exact hsized c p hget
  · obtain ⟨c, hget⟩ := hfound p hp
    exact ⟨(haverages c p hget).sum, (haverages c p hget).count⟩

end Group

/-- While windows have a thousand million slots at most, and what is recorded comes from rounds
whose answers took no longer than the largest 64-bit number of nanoseconds: after the run, and at
every moment of a further reconciliation, in each of its passes, a selection by doubles would not
fail, and would be the one by exact ratios; and so would the search for the best candidate of a
service. -/
theorem Run.selects_throughout (T : RouteTable σ) (policy : Policy) (table : σ)
    (ops : List Operation) (hsize : policy.windowSize ≤ 1000000000)
    (hrounds : ∀ recorded, .recordRound recorded ∈ ops →
      ∃ results, Collected longestRtt results ∧ recorded = results.map ProbeStats.rtt) :
    let run := after T policy table ops
    ∀ visits k turns n g,
      let s := (Reconciled.step T visits)^[k] (run.router.unreconciled run.table)
      (s.midway T turns).router.groups.get? n = some g →
        g.selector.select? g.paths = some (g.selector.select Loss.less g.paths) ∧
        ∀ service, Path.best? ((g.usable service).filterMap g.paths.get?) =
          some (Path.best Loss.less ((g.usable service).filterMap g.paths.get?)) := by
  intro run visits k turns n g s hgroup
  have hmost : Max.max policy.windowSize 1 ≤ 1000000000 := Nat.max_le.2 ⟨hsize, by decide⟩
  have hcounts : Window.CountsHits Loss.lessShare (Max.max policy.windowSize 1) :=
    Window.countsHits_lessShare (hmost.trans (by decide))
  have hremains : run.router.Remains (s.midway T turns).router := remains_moment ops visits k turns
  have hsized := (sized_after ops).remains hremains
  have hbounded : run.router.Bounded 1000000000 longestRtt :=
    bounded_after hmost (by decide) (measures_of_collected hrounds)
  have hpath : ∀ {c p}, g.paths.get? c = some p → (s.midway T turns).router.path? n c = some p := by
    intro c p hget
    rw [Router.path?, hgroup]
    exact hget
  have hkeyed : (s.midway T turns).router.Keyed :=
    (((reachable_after ops).sound.steps T visits k).midway T turns).toKeyed
  have haverages : ∀ c p, g.paths.get? c = some p → p.window.Averages :=
    fun c p hget => (hbounded.remains hremains n c p (hpath hget)).averages (by decide) (by decide)
  have hcapacity : ∀ c p, g.paths.get? c = some p →
      p.window.capacity = Max.max policy.windowSize 1 := fun c p hget => hsized n c p (hpath hget)
  exact ⟨Group.select?_eq_reselect hcapacity hcounts haverages (hkeyed.paths hgroup),
    Group.best?_usable_eq hcapacity hcounts haverages⟩

end RouteKeeper
