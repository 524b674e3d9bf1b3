import RouteKeeper.Proofs.Accounting
import RouteKeeper.Proofs.Desired
import RouteKeeper.Proofs.Reasons
import RouteKeeper.Proofs.Schedule

/-!
# The reason that a group shows

Every pass of a reconciliation selects anew and puts its selection in the place of the one before.
So the reason that a group shows in the end is about the last pass alone: it compares with what the
pass before it selected. For a reconciliation of one pass this is what the group showed before; if a
conflict of other groups adds passes, or if a path is disabled between them, it is not.

## Main statements

* `Reconciled.exists_iterate` — the last of a series of passes follows on those before it.
* `Router.selection_step` — what a pass with its resolution selects.
* `Router.reason_unchanged_iff` — when the reason at the end of a reconciliation is no change.
-/
namespace RouteKeeper

variable {σ : Type}

/-! ## The last pass -/

/-- The last of a series of passes follows on the series of those before it. -/
theorem Reconciled.exists_iterate (T : RouteTable σ) (visits : Nat → Visit) (n : Nat)
    (s : Reconciled σ) : ∃ k, (iterate T visits (n + 1) s).passes = s.passes + k + 1 ∧
      iterate T visits (n + 1) s = (iterate T visits k s).step T visits := by
  induction n generalizing s with
  | zero =>
    refine ⟨0, ?_⟩
    simp [iterate, passes_step]
  | succ n ih =>
    by_cases hsettled : (s.step T visits).unsettled = 0
    · have hstop : iterate T visits (n + 1 + 1) s = s.step T visits := if_pos hsettled
      rw [hstop, passes_step]
      exact ⟨0, rfl, rfl⟩
    · have hmore (m : Nat) : iterate T visits (m + 1) s = iterate T visits m (s.step T visits) :=
        if_neg hsettled
      obtain ⟨k, hpasses, hlast⟩ := ih (s.step T visits)
      refine ⟨k + 1, ?_⟩
      rw [hmore, hmore, hpasses, passes_step]
      exact ⟨by omega, hlast⟩

namespace Router

variable {r : Router}

/-- A resolution selects nothing. -/
theorem selection_resolve (hk : r.Keyed) (T : RouteTable σ) (table : σ) (ledger : Ledger)
    (n : GroupName) :
    ((r.resolve T table ledger).2.router.groups.get? n).map Group.selection =
      (r.groups.get? n).map Group.selection := by
  have hput : ∀ {r : Router} {name : GroupName} {g g' : Group}, r.groups.get? name = some g →
      g'.selection = g.selection → ((r.putGroup name g').groups.get? n).map Group.selection =
        (r.groups.get? n).map Group.selection := by
    intro r name g g' hgroup hselection
    rw [get?_groups_putGroup]
    split
    case isTrue hn => rw [hn, hgroup, Option.map_some, Option.map_some, hselection]
    case isFalse => rfl
  refine resolve_induction T table ledger hk (Q := fun _ _ res =>
    (res.router.groups.get? n).map Group.selection =
      (r.groups.get? n).map Group.selection) rfl ?_ ?_
  · intro i is js res res' hres _ hdisabled
    rw [← hres]
    cases hdisabled with
    | path _ hgroup | service _ hgroup => exact hput hgroup rfl
  · intro j js res res' hres _ henabled
    rw [← hres]
    cases henabled with
    | path _ hgroup | service _ hgroup => exact hput hgroup rfl

/-- A pass with its resolution selects in each group what a selection before it would have. -/
theorem selection_step {T : RouteTable σ} {visits : Nat → Visit} {s : Reconciled σ}
    (hk : s.router.Keyed) {n : GroupName} {g' : Group}
    (h : (s.step T visits).router.groups.get? n = some g') :
    ∃ g, s.router.groups.get? n = some g ∧
      g'.selection = some (g.selector.select Loss.less g.paths).1 := by
  have hkeyed : (s.turned T visits).router.Keyed := keyed_passStage hk
  have hresolved := selection_resolve hkeyed T (s.turned T visits).pass.table
    (s.turned T visits).pass.ledger n
  rw [Reconciled.router_step, Reconciled.resolution] at h
  rw [h, Option.map_some, eq_comm, Option.map_eq_some_iff] at hresolved
  obtain ⟨stage, hstage, hselection⟩ := hresolved
  obtain ⟨g, hgroup, -, -, hafter⟩ := (standing_passStage hk T _ _ _).group hstage
  refine ⟨g, hgroup, ?_⟩
  rw [← hselection, (hafter List.not_mem_nil).1, Group.selection_reselect]

/-- The selectors of a reachable router remember what their groups selected. -/
theorem Reachable.remembers (hr : r.Reachable) : r.EachSelector fun selector selection =>
    selector.last = selection.bind Selection.connection :=
  hr.eachSelector (fun _ => rfl) fun s _ paths _ => s.last_select Loss.less paths

/-- After a reconciliation of a reachable router every group has selected. The reason is no change
exactly if the selected connection is the one that the group had selected before the last pass; if
there was one pass only, this is what it had selected before the reconciliation. -/
theorem reason_unchanged_iff (hr : r.Reachable) (T : RouteTable σ) (visits : Nat → Visit)
    (table : σ) :
    let s := r.reconcileWith T visits table
    let before := Reconciled.iterate T visits (s.passes - 1) (r.unreconciled table)
    (s.passes = 1 → before.router = r) ∧ s.router = (before.step T visits).router.pruned ∧
      ∀ n g', s.router.groups.get? n = some g' →
        ∃ g selection, before.router.groups.get? n = some g ∧ g'.selection = some selection ∧
          (selection.reason = .unchanged ↔ ∃ c, selection.connection = some c ∧
            g.selection.bind Selection.connection = some c) := by
  intro s before
  obtain ⟨k, hpasses, hlast⟩ :=
    Reconciled.exists_iterate T visits (maxPasses - 1) (r.unreconciled table)
  have hk : s.passes - 1 = k := by
    have hcount : s.passes = 0 + k + 1 := (passes_reconcileWith ..).trans hpasses
    omega
  have hrouter : s.router = (before.step T visits).router.pruned := by
    rw [router_reconcileWith]
    simp only [before, hk]
    exact congrArg (fun q => q.router.pruned) hlast
  have hkeyed : before.router.Keyed :=
    Reconciled.iterate_induction (P := fun s => s.router.Keyed) (fun _ => keyed_step) _ hr.keyed
  have hremembers : before.router.EachSelector fun selector selection =>
      selector.last = selection.bind Selection.connection :=
    EachSelector.iterate (fun s _ paths _ => s.last_select Loss.less paths) hr.remembers hr.keyed _
  refine ⟨fun hone => ?_, hrouter, fun n g' hgroup => ?_⟩
  · simp only [before, hone]
    rfl
  · rw [hrouter, get?_groups_pruned_eq_some_iff] at hgroup
    obtain ⟨g, hbefore, hselection⟩ := selection_step hkeyed hgroup.1
    refine ⟨g, _, hbefore, hselection, ?_⟩
    rw [Selector.reason_eq_unchanged_iff (hkeyed.paths hbefore), hremembers.group hbefore]

/-! ## Passes that others add -/

/-- What a group has selected, and whether the reason says that it is a change. -/
def shown (r : Router) (n : GroupName) : Option (Option ConnectionName × Bool) :=
  (r.groups.get? n).bind fun g => g.selection.map fun s => (s.connection, s.reason.isChange)

/-- A path was selected; then it loses a round, another one does not, and two further groups claim
one prefix. -/
def bystander : Run RouteTable.Memory :=
  Run.after RouteTable.memory { Policy.default with windowSize := 1 } .empty
    [.addPeer ⟨"alpha"⟩ (.v4 "t1" "wg-a" 1), .addPeer ⟨"alpha"⟩ (.v4 "t2" "wg-b" 2),
      .recordRound (.ofList [(.v4 1, some (.clamp 10000000)), (.v4 2, none)]),
      .reconcile fun _ => .inOrder,
      .addPeer ⟨"beta"⟩ (.v4 "t1" "wg-c" 3), .addPeer ⟨"gamma"⟩ (.v4 "t1" "wg-d" 3),
      .recordRound (.ofList [(.v4 1, none), (.v4 2, some (.clamp 20000000))])]

/-- A path was selected; then it loses a round, and another path does not, but its prefix belongs to
another group. -/
def trespasser : Run RouteTable.Memory :=
  Run.after RouteTable.memory { Policy.default with windowSize := 1 } .empty
    [.addPeer ⟨"beta"⟩ (.v4 "t1" "wg-c" 2), .addPeer ⟨"alpha"⟩ (.v4 "t1" "wg-a" 1),
      .recordRound (.ofList [(.v4 1, some (.clamp 10000000))]), .reconcile fun _ => .inOrder,
      .addPeer ⟨"alpha"⟩ (.v4 "t2" "wg-b" 2),
      .recordRound (.ofList [(.v4 1, none), (.v4 2, some (.clamp 20000000))])]

/-- The first pass selects the other path, and the second one, which the conflict of the others
adds, selects it again. -/
theorem reason_unchanged_iff_bystander :
    let s := bystander.router.reconcileWith RouteTable.memory (fun _ => .inOrder) bystander.table
    bystander.router.Reachable ∧ s.passes = 2 ∧
      ∃ g selection, s.router.groups.get? ⟨"alpha"⟩ = some g ∧ g.selection = some selection ∧
        selection.reason = .unchanged := by
  intro s
  have hr : bystander.router.Reachable := Run.reachable_after _
  obtain ⟨-, -, hgroups⟩ :=
    reason_unchanged_iff hr RouteTable.memory (fun _ => .inOrder) bystander.table
  have hafter : (s.router.groups.get? ⟨"alpha"⟩).bind
      (fun g => g.selection.bind Selection.connection) = some ⟨"t2"⟩ := by decide +kernel
  have hbefore : ((Reconciled.iterate RouteTable.memory (fun _ => .inOrder) (s.passes - 1)
      (bystander.router.unreconciled bystander.table)).router.groups.get? ⟨"alpha"⟩).bind
        (fun g => g.selection.bind Selection.connection) = some ⟨"t2"⟩ := by decide +kernel
  obtain ⟨g', hgroup, hconnection⟩ := Option.bind_eq_some_iff.1 hafter
  obtain ⟨g, selection, hgroup₀, hselection, hreason⟩ := hgroups _ g' hgroup
  rw [hgroup₀, Option.bind_some] at hbefore
  rw [hselection, Option.bind_some] at hconnection
  refine ⟨hr, by decide +kernel, g', selection, hgroup, hselection, ?_⟩
  exact hreason.2 ⟨_, hconnection, hbefore⟩

/-- The group of the first run shows another path than before, as no change. That of the second
shows the path from before, as a change: the first pass selected the other path, which then was
disabled. -/
theorem bystander_shown :
    let s := bystander.router.reconcileWith RouteTable.memory (fun _ => .inOrder) bystander.table
    let s' :=
      trespasser.router.reconcileWith RouteTable.memory (fun _ => .inOrder) trespasser.table
    bystander.router.Reachable ∧ trespasser.router.Reachable ∧
      shown bystander.router ⟨"alpha"⟩ = some (some ⟨"t1"⟩, true) ∧
      shown s.router ⟨"alpha"⟩ = some (some ⟨"t2"⟩, false) ∧
      shown trespasser.router ⟨"alpha"⟩ = some (some ⟨"t1"⟩, true) ∧
      shown s'.router ⟨"alpha"⟩ = some (some ⟨"t1"⟩, true) := by
  refine ⟨Run.reachable_after _, Run.reachable_after _, ?_⟩
  decide +kernel

end Router

end RouteKeeper
