import RouteKeeper.Proofs.LeastLoss

/-!
# The best of a list of paths

The best path is found by a walk over the valid ones that keeps a path until a better one comes. So
it is valid, no valid path precedes it, and it precedes every valid path that stands before it in
the list, whatever the windows of the paths, also of different sizes and without any answer. The
walk fails where it has to compare paths without an average.

## Main definitions

* `Path.Precedes` — the order of paths: by the share of lost rounds, then by the latency.

## Main statements

* `Path.isBetter_iff_precedes` — the comparison of the walk is that order.
* `Path.best?_of_precedes` — which path of a list is the best, and the list in another order.
-/
namespace RouteKeeper

namespace Path

/-! ## The order of paths -/

/-- The path loses a smaller share of its rounds or, losing the same share, answers sooner. A path
without an answer time answers after the longest duration. -/
def Precedes (p q : Path) : Prop :=
  p.window.loss.share.toFloat < q.window.loss.share.toFloat ∨
    p.window.loss.share = q.window.loss.share ∧ p.latencyRank < q.latencyRank

variable {p q : Path}

/-- A path is better than another exactly if it precedes the other. -/
theorem isBetter_iff_precedes : p.isBetter Loss.lessShare q = true ↔ p.Precedes q := by
  simp only [isBetter, Precedes, Bool.or_eq_true, Bool.and_eq_true, Bool.not_eq_true',
    decide_eq_true_eq, ← Window.lessShare_iff, ← Window.lessShare_eq_false_and_iff]
  cases p.window.loss.lessShare q.window.loss <;> simp

theorem isBetter_eq_false_iff_precedes : p.isBetter Loss.lessShare q = false ↔ ¬ p.Precedes q := by
  rw [← Bool.not_eq_true, isBetter_iff_precedes]

/-- Of two paths that lose different shares, or answer after different times, one precedes. -/
theorem eq_of_not_precedes (hpq : ¬ p.Precedes q) (hqp : ¬ q.Precedes p) :
    p.window.loss.share = q.window.loss.share ∧ p.latencyRank = q.latencyRank := by
  simp only [Precedes, ← Window.lessShare_iff, not_or, not_and, Bool.not_eq_true] at hpq hqp
  have hsame := Window.lessShare_eq_false_and_iff.1 ⟨hpq.1, hqp.1⟩
  have hsooner : ¬ p.latencyRank.nanos < q.latencyRank.nanos := hpq.2 hsame
  have hlater : ¬ q.latencyRank.nanos < p.latencyRank.nanos := hqp.2 hsame.symm
  exact ⟨hsame, Duration.ext (by omega)⟩

/-! ## The best path -/

/-- The best path is the valid one that no valid path of the list precedes and that precedes all
valid paths before it. -/
theorem best_eq_some_iff {l : List Path} :
    best Loss.lessShare l = some p ↔ ∃ before after, l = before ++ p :: after ∧ p.isValid = true ∧
      (∀ q ∈ l, q.isValid = true → ¬ q.Precedes p) ∧
      ∀ q ∈ before, q.isValid = true → p.Precedes q := by
  have horder := comparison_isBetter Window.compares_lessShare
  rw [best, horder.firstLeast_eq_some_iff]
  constructor
  · intro h
    have hleast : ∀ q ∈ l, q.isValid = true → ¬ q.Precedes p := fun q hq hvalid =>
      isBetter_eq_false_iff_precedes.1
        (horder.least_of_standsFirst h q (List.mem_filter.2 ⟨hq, hvalid⟩))
    obtain ⟨before, after, hsplit, hvalid, hbefore, -⟩ := standsFirst_filter_iff.1 h
    exact ⟨before, after, hsplit, hvalid, hleast, fun q hq hqvalid =>
      isBetter_iff_precedes.1 (hbefore q hq hqvalid)⟩
  · rintro ⟨before, after, rfl, hvalid, hleast, hbefore⟩
    refine standsFirst_filter_iff.2 ⟨before, after, rfl, hvalid, fun q hq hqvalid =>
      isBetter_iff_precedes.2 (hbefore q hq hqvalid), fun q hq hqvalid => ?_⟩
    exact isBetter_eq_false_iff_precedes.2 (hleast q (by simp [hq]) hqvalid)

/-- The best path can be found exactly if at most one path is valid or all valid ones have averages.
Then there is none exactly if no path is valid; and it is the valid path that no valid path of the
list precedes and that precedes all valid paths before it. If the list is in another order, the best
path may be another one, but it loses the same share and answers after the same time. -/
theorem best?_of_precedes (l : List Path) :
    (best? l = none ↔ ¬ Comparable l) ∧
    (best? l = some none ↔ ∀ p ∈ l, p.isValid = false) ∧
    (∀ p, best? l = some (some p) ↔ Comparable l ∧ ∃ before after, l = before ++ p :: after ∧
      p.isValid = true ∧ (∀ q ∈ l, q.isValid = true → ¬ q.Precedes p) ∧
      ∀ q ∈ before, q.isValid = true → p.Precedes q) ∧
    ∀ l', l'.Perm l → ∀ p, best? l = some (some p) → ∃ p', best? l' = some (some p') ∧
      p'.window.loss.share = p.window.loss.share ∧ p'.latencyRank = p.latencyRank := by
  refine ⟨best?_eq_none_iff, ?_, fun p => ?_, fun l' hperm p hp => ?_⟩
  · rw [best?_eq_some_iff, best_eq_none_iff]
    refine and_iff_right_of_imp fun hnone => .inl ?_
    rw [List.filter_eq_nil_iff.2 fun p hp => Bool.eq_false_iff.1 (hnone p hp)]
    exact Nat.zero_le 1
  · rw [best?_eq_some_iff, best_eq_some_iff]
  · obtain ⟨hcomparable, hp⟩ := best?_eq_some_iff.1 hp
    have horder := comparison_isBetter Window.compares_lessShare
    cases hp' : best Loss.lessShare l' with
    | none =>
      obtain ⟨hmem, hvalid⟩ := isValid_of_best hp
      rw [best_eq_none_iff.1 hp' p (hperm.mem_iff.2 hmem)] at hvalid
      cases hvalid
    | some p' =>
      obtain ⟨hnot, hnot'⟩ := horder.firstLeast_perm (hperm.filter isValid) hp hp'
      exact ⟨p', best?_eq_some_iff.2 ⟨hcomparable.of_perm hperm, hp'⟩,
        eq_of_not_precedes (isBetter_eq_false_iff_precedes.1 hnot')
          (isBetter_eq_false_iff_precedes.1 hnot)⟩

/-- Three paths, the first without an answer. The others have windows of different sizes, but lose
the same share and answer after the same time. -/
def halves : List Path :=
  let lost : Sample := ⟨.zero, true⟩
  let answered : Sample := ⟨.millis 8, false⟩
  [(Path.new ⟨⟨"t1"⟩, "wg-a", none, .v4 1⟩ ⟨"alpha"⟩ 2 0).record lost,
    ((Path.new ⟨⟨"t2"⟩, "wg-b", none, .v4 2⟩ ⟨"alpha"⟩ 2 1).record lost).record answered,
    (((Path.new ⟨⟨"t3"⟩, "wg-c", none, .v4 3⟩ ⟨"alpha"⟩ 4 2).record lost).record lost).record
      answered]

/-- Of the two that lose the same share, the first one in the list is the best. -/
theorem best?_of_precedes_halves :
    ∃ p p', best? halves = some (some p) ∧ p.connection = ⟨"t2"⟩ ∧
      best? halves.reverse = some (some p') ∧ p'.connection = ⟨"t3"⟩ ∧
      p'.window.loss.share = p.window.loss.share ∧ p'.latencyRank = p.latencyRank := by
  have hfirst : (best? halves).map (Option.map connection) = some (some ⟨"t2"⟩) := by
    decide +kernel
  have hlast : (best? halves.reverse).map (Option.map connection) = some (some ⟨"t3"⟩) := by
    decide +kernel
  obtain ⟨best, hbest, hmap⟩ := Option.map_eq_some_iff.1 hfirst
  obtain ⟨p, rfl, hname⟩ := Option.map_eq_some_iff.1 hmap
  obtain ⟨-, -, -, hperm⟩ := best?_of_precedes halves
  obtain ⟨p', hbest', hsame⟩ := hperm _ (List.reverse_perm halves) p hbest
  rw [hbest'] at hlast
  exact ⟨p, p', hbest, hname, hbest', Option.some.inj (Option.some.inj hlast), hsame⟩

/-- Both paths are valid, but none is found. -/
theorem best?_endlessPair :
    Selector.endlessPair.values.length = 2 ∧
      (∀ p ∈ Selector.endlessPair.values, p.isValid = true) ∧
      best? Selector.endlessPair.values = none :=
  ⟨rfl, by decide +kernel, best?_eq_none_iff.2 (by decide +kernel)⟩

end Path

end RouteKeeper
