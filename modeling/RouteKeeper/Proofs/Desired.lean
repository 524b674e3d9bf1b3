import RouteKeeper.Proofs.LeastLoss

/-!
# Services go through the paths that lose least

The group selects among all its paths, with a memory and thresholds. A service that does not list
what is selected goes through the best of its own candidates, without a memory. Both ways lead to a
path that loses as little as any that the service could go through.

## Main definitions

* `Group.Offers` — a candidate for a service whose path may be selected.

## Main statements

* `Group.desired_reselect` — what a service should go through right after a selection.
-/
namespace RouteKeeper

/-- Shares of two windows, compared by the rounds that were lost. -/
theorem Window.le_of_less_eq_false {v w : Window} (h : w.loss.less v.loss = false) :
    v.lossHits * w.capacity ≤ w.lossHits * v.capacity ∧
      (v.capacity = w.capacity → v.lossHits ≤ w.lossHits) := by
  simp only [Loss.less, decide_eq_false_iff_not, Nat.not_lt] at h
  refine ⟨h, fun hsame => Nat.le_of_mul_le_mul_right ?_ w.capacity_pos⟩
  calc v.lossHits * w.capacity
      ≤ w.lossHits * v.capacity := h
    _ = w.lossHits * w.capacity := by rw [hsame]

namespace Group

variable {g : Group} {s : Service} {c : ConnectionName} {p : Path}

/-- The connection is a candidate for the service that is to stay, and its path may be selected. -/
def Offers (g : Group) (s : Service) (c : ConnectionName) (p : Path) : Prop :=
  c ∈ s.liveCandidates ∧ g.paths.get? c = some p ∧ p.isValid = true

theorem mem_usable_iff : c ∈ g.usable s ↔ ∃ p, g.Offers s c p := by
  simp only [usable, Offers, List.mem_filter, Option.any_eq_true, exists_and_left]

/-- The paths that a service could go through. -/
theorem mem_paths_usable_iff :
    p ∈ (g.usable s).filterMap g.paths.get? ↔ ∃ c, g.Offers s c p := by
  simp only [List.mem_filterMap, mem_usable_iff]
  constructor
  · rintro ⟨c, ⟨q, hq⟩, hp⟩
    obtain rfl : q = p := Option.some.inj (hq.2.1.symm.trans hp)
    exact ⟨c, hq⟩
  · rintro ⟨c, hp⟩
    exact ⟨c, ⟨p, hp⟩, hp.2.1⟩

@[simp] theorem selection_reselect (g : Group) :
    g.reselect.selection = some (g.selector.select Loss.less g.paths).1 := rfl

/-! ## The three ways of choosing -/

section Desired

variable {selection : Selection} (hselection : g.selection = some selection)

include hselection

/-- The selected connection comes first. -/
theorem desired_of_selected (hc : selection.connection = some c) (hp : g.Offers s c p) :
    g.desired s = some c := by
  have hmem : (g.usable s).contains c = true := List.contains_iff_mem.2 (mem_usable_iff.2 ⟨p, hp⟩)
  simp only [desired, hselection, hc, Option.filter_some, hmem, if_true]

/-- If nothing is selected, the service goes nowhere. -/
theorem desired_of_isDelete (hdelete : selection.isDelete = true)
    (hnone : selection.connection = none) : g.desired s = none := by
  simp only [desired, hselection, hnone, Option.filter_none, hdelete, if_true]

/-- A service that does not list the selected connection goes through its best candidate. -/
theorem desired_of_unlisted (hkept : selection.isDelete = false)
    (hunlisted : ∀ c, selection.connection = some c → ∀ p, ¬ g.Offers s c p) :
    g.desired s =
      (Path.best Loss.less ((g.usable s).filterMap g.paths.get?)).map Path.connection := by
  have hfilter : selection.connection.filter (g.usable s).contains = none := by
    refine Option.filter_eq_none_iff.2 fun c hc hmem => ?_
    obtain ⟨p, hp⟩ := mem_usable_iff.1 (List.contains_iff_mem.1 hmem)
    exact hunlisted c hc p hp
  simp only [desired, hselection, hfilter, hkept, Bool.false_eq_true, if_false]

end Desired

/-! ## The best candidate -/

theorem best_usable_eq_none_iff :
    Path.best Loss.less ((g.usable s).filterMap g.paths.get?) = none ↔ ∀ c p, ¬ g.Offers s c p := by
  rw [Path.best_eq_none_iff]
  constructor
  · intro h c p hp
    have hvalid := h p (mem_paths_usable_iff.2 ⟨c, hp⟩)
    rw [hp.2.2] at hvalid
    cases hvalid
  · intro h p hp
    obtain ⟨c, hp⟩ := mem_paths_usable_iff.1 hp
    exact absurd hp (h c p)

/-- The best candidate loses no more than another one. -/
theorem best_usable_least {best : Path}
    (hbest : Path.best Loss.less ((g.usable s).filterMap g.paths.get?) = some best) {q : Path}
    (hq : g.Offers s c q) : q.window.loss.less best.window.loss = false :=
  Path.less_best Window.compares_less hbest (mem_paths_usable_iff.2 ⟨c, hq⟩) hq.2.2

/-! ## After a selection -/

/-- Nothing is selected, or one of the valid paths that lose the smallest share. -/
theorem selection_cases (hkeyed : ∀ c p, g.paths.get? c = some p → p.connection = c) :
    (∃ loss, g.reselect.selection = some (.deleted loss)) ∨
      ∃ chosen reason, g.reselect.selection =
          some ⟨some chosen.address, some chosen.connection, reason⟩ ∧
        g.paths.get? chosen.connection = some chosen ∧ chosen.isValid = true ∧
        ∀ q ∈ g.paths.values, q.isValid = true →
          q.window.loss.less chosen.window.loss = false := by
  rw [selection_reselect]
  cases g.selector.outcome Loss.less g.paths with
  | none hbest hselect => exact .inl ⟨_, by rw [hselect]⟩
  | tornDown best hbest htorn hselect => exact .inl ⟨_, by rw [hselect]⟩
  | selected best hbest hkept hselect =>
    obtain ⟨hget, hvalid⟩ := Selector.isValid_choose hkeyed hbest g.selector
    refine .inr ⟨_, _, by rw [hselect], hget, hvalid, fun q hq hqvalid => ?_⟩
    exact Selector.choose_least Window.compares_less hkeyed hbest hq hqvalid

/-- Right after a selection over paths that are found under their connections, as those of every
router in a run are: a service has nothing to go through exactly if none of its candidates is to
stay with a path that may be selected, or if nothing is selected. What it should go through is such
a candidate, and its path loses no larger share than that of another such candidate, so no more
rounds if their windows have one size. It is the selected connection whenever that is a candidate to
stay. -/
theorem desired_reselect (g : Group) (hkeyed : ∀ c p, g.paths.get? c = some p → p.connection = c)
    (s : Service) :
    ∃ selection, g.reselect.selection = some selection ∧
      (g.reselect.desired s = none ↔
        (∀ c p, ¬ g.reselect.Offers s c p) ∨ selection.isDelete = true) ∧
      (∀ c, g.reselect.desired s = some c → ∃ p, g.reselect.Offers s c p ∧
        ∀ c' q, g.reselect.Offers s c' q →
          p.window.lossHits * q.window.capacity ≤ q.window.lossHits * p.window.capacity ∧
            (p.window.capacity = q.window.capacity → p.window.lossHits ≤ q.window.lossHits)) ∧
      (∀ c ∈ s.liveCandidates, selection.connection = some c →
        g.reselect.desired s = some c) := by
  rcases selection_cases hkeyed with ⟨loss, hselection⟩ | ⟨chosen, reason, hselection, hget, hvalid,
    hleast⟩
  · rw [desired_of_isDelete hselection rfl rfl]
    exact ⟨_, hselection, ⟨fun _ => .inr rfl, fun _ => rfl⟩, nofun, nofun⟩
  refine ⟨_, hselection, ?_⟩
  -- Whether the service lists what is selected decides between the two ways of choosing.
  by_cases hlisted : chosen.connection ∈ s.liveCandidates
  · have hoffers : g.reselect.Offers s chosen.connection chosen := ⟨hlisted, hget, hvalid⟩
    rw [desired_of_selected hselection rfl hoffers]
    refine ⟨⟨nofun, ?_⟩, ?_, fun c _ hc => hc⟩
    · rintro (hnone | hno)
      · exact absurd hoffers (hnone _ _)
      · cases hno
    · rintro c ⟨⟩
      refine ⟨chosen, hoffers, fun c' q hq => Window.le_of_less_eq_false ?_⟩
      exact hleast q (OrderedMap.mem_values_iff.2 ⟨c', hq.2.1⟩) hq.2.2
  · rw [desired_of_unlisted hselection rfl (by rintro c ⟨⟩ p hp; exact hlisted hp.1),
      Option.map_eq_none_iff, best_usable_eq_none_iff]
    refine ⟨by simp [Selection.isDelete], fun c hc => ?_, ?_⟩
    · obtain ⟨p, hp, rfl⟩ := Option.map_eq_some_iff.1 hc
      obtain ⟨c, hoffers⟩ := mem_paths_usable_iff.1 (Path.isValid_of_best hp).1
      have hsame : p.connection = c := hkeyed c p hoffers.2.1
      rw [hsame]
      exact ⟨p, hoffers, fun c' q hq => Window.le_of_less_eq_false (best_usable_least hp hq)⟩
    · rintro c hlive ⟨⟩
      exact absurd hlive hlisted

/-- A group whose first path answers, the second lost all its rounds, and the third lost one. -/
def uneven : Group :=
  let lost : Sample := ⟨.zero, true⟩
  let answered : Sample := ⟨.millis 7, false⟩
  let path (c : String) (i : Nat) : Path := .new ⟨⟨c⟩, "wg-a", none, .v4 1⟩ ⟨"alpha"⟩ 2 i
  { new ⟨"alpha"⟩ .default with
    paths := .ofList
      [(⟨"t1"⟩, ((path "t1" 0).record answered).record answered),
        (⟨"t2"⟩, ((path "t2" 1).record lost).record lost),
        (⟨"t3"⟩, ((path "t3" 2).record lost).record answered)] }

/-- A service that lists the other two paths, and a connection without a path. -/
def branch : Service :=
  { Service.new (.host (.v4 9)) 3 with
    candidates := .ofList [(⟨"t2"⟩, .none), (⟨"t3"⟩, .none), (⟨"t9"⟩, .none)] }

/-- The first path is selected, the service goes through the third. -/
theorem desired_reselect_uneven :
    (∀ c p, uneven.paths.get? c = some p → p.connection = c) ∧
      (uneven.reselect.selection.bind Selection.connection = some ⟨"t1"⟩) ∧
      ∃ p, uneven.reselect.Offers branch ⟨"t3"⟩ p ∧
        ∀ c q, uneven.reselect.Offers branch c q →
          p.window.lossHits * q.window.capacity ≤ q.window.lossHits * p.window.capacity := by
  have hkeyed : ∀ c p, uneven.paths.get? c = some p → p.connection = c :=
    OrderedMap.forall_get?_iff.2 (by decide +kernel)
  obtain ⟨-, -, -, hdesired, -⟩ := desired_reselect uneven hkeyed branch
  obtain ⟨p, hp, hleast⟩ := hdesired ⟨"t3"⟩ (by decide +kernel)
  exact ⟨hkeyed, by decide +kernel, p, hp, fun c q hq => (hleast c q hq).1⟩

end Group

end RouteKeeper
