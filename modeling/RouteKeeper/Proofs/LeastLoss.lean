import RouteKeeper.Proofs.Comparable

/-!
# The path that is selected loses least

Loss comes first in every comparison: among the valid paths the best one loses least, and a
reference is kept only if the best one does not lose less. So whatever the strategy and the memory,
the path to select loses as little as any valid path, and whether nothing is selected depends on the
valid paths alone; provided that the selection comes out.

## Main definitions

* `Selector.Outcome` — the three ways in which a selection comes out.
* `Paths.leastHits` — the fewest rounds that a valid path loses.

## Main statements

* `Selector.choose_least` — no valid path loses less than the one to select.
* `Selector.select_of_leastHits` — the selection out of paths with windows of one size.
-/
namespace RouteKeeper

variable {less : Loss → Loss → Bool}

/-! ## Selections -/

namespace Selector

/-- The policy takes the route away from a path that loses so much. -/
def TearsDown (s : Selector) (p : Path) : Prop :=
  0 < s.policy.deleteThreshold ∧ p.window.lossReaches s.policy.deleteThreshold = true

/-- How a selection comes out: no path is valid, the path to select loses too much, or it is
selected. -/
inductive Outcome (less : Loss → Loss → Bool) (s : Selector) (paths : Paths) : Prop where
  | none (hbest : Path.best less paths.values = .none)
      (hselect : s.select less paths = (.deleted .none, s.reset))
  | tornDown (best : Path) (hbest : Path.best less paths.values = some best)
      (htorn : s.TearsDown (s.choose less paths best).1)
      (hselect : s.select less paths =
        (.deleted (some (s.choose less paths best).1.window.loss.share), s.reset))
  | selected (best : Path) (hbest : Path.best less paths.values = some best)
      (hkept : ¬ s.TearsDown (s.choose less paths best).1)
      (hselect : s.select less paths =
        (⟨some (s.choose less paths best).1.address, some (s.choose less paths best).1.connection,
          s.explain less paths (s.choose less paths best).1 (s.choose less paths best).2⟩,
          { s with last := some (s.choose less paths best).1.connection }))

section Outcome

variable {s : Selector} {paths : Paths}

theorem select_of_best_eq_none (hbest : Path.best less paths.values = none) :
    s.select less paths = (.deleted none, s.reset) := by
  simp only [select, conclude, hbest]

theorem tearsDown_iff_and {p : Path} : s.TearsDown p ↔
    (s.policy.deleteThreshold > 0 && p.window.lossReaches s.policy.deleteThreshold) = true := by
  simp only [TearsDown, Bool.and_eq_true, decide_eq_true_eq]

theorem select_of_tearsDown {best : Path} (hbest : Path.best less paths.values = some best)
    (htorn : s.TearsDown (s.choose less paths best).1) :
    s.select less paths =
      (.deleted (some (s.choose less paths best).1.window.loss.share), s.reset) := by
  simp only [select, conclude, hbest, if_pos (tearsDown_iff_and.1 htorn)]

theorem select_of_not_tearsDown {best : Path} (hbest : Path.best less paths.values = some best)
    (hkept : ¬ s.TearsDown (s.choose less paths best).1) :
    s.select less paths =
      (⟨some (s.choose less paths best).1.address, some (s.choose less paths best).1.connection,
        s.explain less paths (s.choose less paths best).1 (s.choose less paths best).2⟩,
        { s with last := some (s.choose less paths best).1.connection }) := by
  simp only [select, conclude, hbest, if_neg (mt tearsDown_iff_and.2 hkept)]

end Outcome

theorem outcome (less : Loss → Loss → Bool) (s : Selector) (paths : Paths) :
    s.Outcome less paths := by
  cases hbest : Path.best less paths.values with
  | none => exact .none hbest (select_of_best_eq_none hbest)
  | some best =>
    by_cases htorn : s.TearsDown (s.choose less paths best).1
    · exact .tornDown best hbest htorn (select_of_tearsDown hbest htorn)
    · exact .selected best hbest htorn (select_of_not_tearsDown hbest htorn)

/-- No valid path loses less than the one to select: neither the strategy nor the memory keeps a
path that loses more than another. -/
theorem choose_least (hless : Window.Compares less) {s : Selector} {paths : Paths} {best : Path}
    (hkeyed : ∀ c p, paths.get? c = some p → p.connection = c)
    (hbest : Path.best less paths.values = some best) {q : Path} (hq : q ∈ paths.values)
    (hvalid : q.isValid = true) :
    less q.window.loss (s.choose less paths best).1.window.loss = false := by
  have hleast := Path.less_best hless hbest hq hvalid
  rcases s.choose_cases paths best with hchosen | ⟨r, hreference, hchosen, hsame | hstays⟩
  · rw [hchosen]
    exact hleast
  · -- A reference of the best path's connection is the best path.
    obtain ⟨hr, -⟩ := isValid_of_reference hkeyed hreference
    rw [hsame, get?_best hkeyed hbest] at hr
    rw [hchosen, ← Option.some.inj hr]
    exact hleast
  · rw [hchosen]
    exact hless.chain (Policy.less_of_improvement_eq_none hstays) hleast

end Selector

/-! ## Windows of one size -/

/-- The fewest rounds that a valid path loses, if there is one. -/
def Paths.leastHits (paths : Paths) : Option Nat :=
  ((paths.values.filter Path.isValid).map (·.window.lossHits)).min?

namespace Paths

variable {paths : Paths}

theorem leastHits_eq_none_iff :
    paths.leastHits = none ↔ ∀ c p, paths.get? c = some p → p.isValid = false := by
  simp only [leastHits, List.min?_eq_none_iff, List.map_eq_nil_iff, List.filter_eq_nil_iff,
    OrderedMap.mem_values_iff, Bool.not_eq_true, forall_exists_index]
  exact forall_comm

theorem leastHits_eq_some_iff {h : Nat} :
    paths.leastHits = some h ↔
      (∃ p ∈ paths.values, p.isValid = true ∧ p.window.lossHits = h) ∧
        ∀ q ∈ paths.values, q.isValid = true → h ≤ q.window.lossHits := by
  simp only [leastHits, List.min?_eq_some_iff, List.mem_map, List.mem_filter, and_assoc]
  refine and_congr_right fun _ => ⟨fun h q hq hvalid => h _ ⟨q, hq, hvalid, rfl⟩, ?_⟩
  rintro h _ ⟨q, hq, hvalid, rfl⟩
  exact h q hq hvalid

end Paths

namespace Selector

/-- Out of paths with windows of one size, the path to select loses the fewest rounds. -/
theorem lossHits_choose {s : Selector} {paths : Paths} {best : Path} {capacity : Nat}
    (hless : Window.Compares less) (hcounts : Window.CountsHits less capacity)
    (hkeyed : ∀ c p, paths.get? c = some p → p.connection = c)
    (hcapacity : ∀ c p, paths.get? c = some p → p.window.capacity = capacity)
    (hbest : Path.best less paths.values = some best) :
    paths.leastHits = some (s.choose less paths best).1.window.lossHits := by
  obtain ⟨hget, hvalid⟩ := isValid_choose hkeyed hbest s
  have hmem := OrderedMap.mem_values_iff.2 ⟨_, hget⟩
  refine Paths.leastHits_eq_some_iff.2 ⟨⟨_, hmem, hvalid, rfl⟩, fun q hq hqvalid => ?_⟩
  obtain ⟨c, hc⟩ := OrderedMap.mem_values_iff.1 hq
  have hnot := choose_least hless (s := s) hkeyed hbest hq hqvalid
  rw [← Bool.not_eq_true, hcounts _ _ (hcapacity c q hc) (hcapacity _ _ hget)] at hnot
  exact Nat.le_of_not_lt hnot

theorem tearsDown_iff {s : Selector} {p : Path} :
    s.TearsDown p ↔ 0 < s.policy.deleteThreshold ∧
      s.policy.deleteThreshold * p.window.capacity ≤ p.window.lossHits * 100 := by
  simp only [TearsDown, Window.lossReaches, Loss.reaches, Window.loss, decide_eq_true_eq, ge_iff_le]

/-- A selection out of paths with windows of one size, whose rounds the doubles count. It comes out
exactly if the best path can be found. Then nothing is selected exactly if no path is valid or the
policy has a limit that every valid path reaches, and neither the strategy nor the memory has a say
in that; otherwise one of the valid paths that lose least is selected. -/
theorem select_of_leastHits (s : Selector) {paths : Paths} {capacity : Nat}
    (hkeyed : ∀ c p, paths.get? c = some p → p.connection = c)
    (hcapacity : ∀ c p, paths.get? c = some p → p.window.capacity = capacity)
    (hcounts : Window.CountsHits Loss.lessShare capacity) :
    (s.select? paths = none ↔ ¬ Path.Comparable paths.values) ∧
    ∀ outcome s', s.select? paths = some (outcome, s') →
      (outcome.isDelete = true ↔ paths.leastHits = none ∨
        ∃ h, paths.leastHits = some h ∧ 0 < s.policy.deleteThreshold ∧
          s.policy.deleteThreshold * capacity ≤ h * 100) ∧
      (paths.leastHits = none → outcome = .deleted none ∧ s'.last = none) ∧
      ∀ h, paths.leastHits = some h →
        if 0 < s.policy.deleteThreshold ∧ s.policy.deleteThreshold * capacity ≤ h * 100 then
          outcome = .deleted (some (Loss.mk h capacity).share) ∧ s'.last = none
        else
          ∃ p, paths.get? p.connection = some p ∧ p.isValid = true ∧ p.window.lossHits = h ∧
            outcome.address = some p.address ∧ outcome.connection = some p.connection := by
  refine ⟨select?_eq_none_iff, fun outcome s' hselected => ?_⟩
  obtain ⟨-, hselected⟩ := select?_eq_some_iff.1 hselected
  have hnone : Path.best Loss.lessShare paths.values = none → paths.leastHits = none := by
    intro hbest
    refine Paths.leastHits_eq_none_iff.2 fun c p hp => ?_
    exact Path.best_eq_none_iff.1 hbest p (OrderedMap.mem_values_iff.2 ⟨c, hp⟩)
  cases s.outcome Loss.lessShare paths with
  | none hbest hselect =>
    cases hselected.symm.trans hselect
    rw [hnone hbest]
    refine ⟨⟨fun _ => .inl rfl, fun _ => rfl⟩, fun _ => ⟨rfl, rfl⟩, fun h hh => ?_⟩
    cases hh
  | tornDown best hbest htorn hselect =>
    cases hselected.symm.trans hselect
    obtain ⟨hget, -⟩ := isValid_choose hkeyed hbest s
    have hleast := lossHits_choose (s := s) Window.compares_lessShare hcounts hkeyed hcapacity hbest
    rw [tearsDown_iff, hcapacity _ _ hget] at htorn
    have hloss : (s.choose Loss.lessShare paths best).1.window.loss =
        ⟨(s.choose Loss.lessShare paths best).1.window.lossHits, capacity⟩ := by
      rw [Window.loss, hcapacity _ _ hget]
    rw [hleast, hloss]
    refine ⟨⟨fun _ => .inr ⟨_, rfl, htorn⟩, fun _ => rfl⟩, fun hno => ?_, fun h hh => ?_⟩
    · cases hno
    · obtain rfl := Option.some.inj hh
      rw [if_pos htorn]
      exact ⟨rfl, rfl⟩
  | selected best hbest hkept hselect =>
    cases hselected.symm.trans hselect
    obtain ⟨hget, hvalid⟩ := isValid_choose hkeyed hbest s
    have hleast := lossHits_choose (s := s) Window.compares_lessShare hcounts hkeyed hcapacity hbest
    rw [tearsDown_iff, hcapacity _ _ hget] at hkept
    rw [hleast]
    refine ⟨⟨fun hdelete => ?_, ?_⟩, fun hno => ?_, fun h hh => ?_⟩
    · cases hdelete
    · rintro (hno | ⟨h, hh, hreaches⟩)
      · cases hno
      · obtain rfl := Option.some.inj hh
        exact absurd hreaches hkept
    · cases hno
    · obtain rfl := Option.some.inj hh
      rw [if_neg hkept]
      exact ⟨_, hget, hvalid, rfl, rfl, rfl⟩

/-- Two paths with windows of two rounds: the first lost both, the second lost one. -/
def lossyPair : Paths :=
  let lost : Sample := ⟨.zero, true⟩
  let answered : Sample := ⟨.millis 5, false⟩
  .ofList
    [(⟨"t1"⟩, ((Path.new ⟨⟨"t1"⟩, "wg-a", none, .v4 1⟩ ⟨"alpha"⟩ 2 0).record lost).record lost),
      (⟨"t2"⟩, ((Path.new ⟨⟨"t2"⟩, "wg-b", none, .v4 2⟩ ⟨"alpha"⟩ 2 1).record lost).record answered)]

/-- A selector that remembers the first path and has a limit of 60 percent. -/
def attached : Selector := ⟨{ Policy.default with deleteThreshold := 60 }, some ⟨"t1"⟩⟩

/-- The remembered path is over the limit, but a path under it is selected, so nothing is torn
down. -/
theorem select_of_leastHits_lossyPair :
    (∀ c p, lossyPair.get? c = some p → p.connection = c) ∧
      (∀ c p, lossyPair.get? c = some p → p.window.capacity = 2) ∧
      Window.CountsHits Loss.lessShare 2 ∧ lossyPair.leastHits = some 1 ∧
      ∃ outcome s', attached.select? lossyPair = some (outcome, s') ∧
        ∃ p, lossyPair.get? p.connection = some p ∧ p.isValid = true ∧ p.window.lossHits = 1 ∧
          outcome.address = some p.address ∧ outcome.connection = some p.connection := by
  have hkeyed : ∀ c p, lossyPair.get? c = some p → p.connection = c :=
    OrderedMap.forall_get?_iff.2 (by decide +kernel)
  have hcapacity : ∀ c p, lossyPair.get? c = some p → p.window.capacity = 2 :=
    OrderedMap.forall_get?_iff.2 (by decide +kernel)
  have hcounts : Window.CountsHits Loss.lessShare 2 := Window.countsHits_lessShare (by decide)
  have hleast : lossyPair.leastHits = some 1 := by decide +kernel
  have hcomparable : Path.Comparable lossyPair.values := by decide +kernel
  obtain ⟨outcome, s', hselect⟩ := exists_select?_eq (s := attached) hcomparable
  obtain ⟨-, hout⟩ := select_of_leastHits attached hkeyed hcapacity hcounts
  obtain ⟨-, -, hselected⟩ := hout outcome s' hselect
  have hkept := hselected 1 hleast
  rw [if_neg (by decide)] at hkept
  exact ⟨hkeyed, hcapacity, hcounts, hleast, outcome, s', hselect, hkept⟩

/-- Two paths that answered twice after the longest duration, so that their averages cannot be
formed. -/
def endlessPair : Paths :=
  let late : Sample := ⟨.longest, false⟩
  .ofList
    [(⟨"t1"⟩, ((Path.new ⟨⟨"t1"⟩, "wg-a", none, .v4 1⟩ ⟨"alpha"⟩ 2 0).record late).record late),
      (⟨"t2"⟩, ((Path.new ⟨⟨"t2"⟩, "wg-b", none, .v4 2⟩ ⟨"alpha"⟩ 2 1).record late).record late)]

/-- Both paths are valid, lose nothing and have windows of one size, but no selection comes out. -/
theorem select?_endlessPair :
    (∀ c p, endlessPair.get? c = some p → p.connection = c) ∧
      (∀ c p, endlessPair.get? c = some p → p.window.capacity = 2) ∧
      Window.CountsHits Loss.lessShare 2 ∧ endlessPair.leastHits = some 0 ∧
      attached.select? endlessPair = none := by
  refine ⟨OrderedMap.forall_get?_iff.2 (by decide +kernel),
    OrderedMap.forall_get?_iff.2 (by decide +kernel), Window.countsHits_lessShare (by decide),
    by decide +kernel, select?_eq_none_iff.2 (by decide +kernel)⟩

end Selector

end RouteKeeper
