import RouteKeeper.Proofs.Choices
import RouteKeeper.Proofs.Measures
import RouteKeeper.Proofs.Shares

/-!
# Selections that come out

Paths are compared by the averages of their windows, and an average may be one that cannot be
formed. The best path of a list is found exactly if there is at most one valid path, so that nothing
is compared, or all valid paths have averages; for on the way every valid path is compared. A
selection then comes out as well: all latencies that it looks at were formed before. It is the
selection that is made with exact latencies, and out of windows of one size with exact losses too.

## Main definitions

* `Path.Comparable` — the best path of a list can be found.

## Main statements

* `Path.comparison_isBetter` — comparing paths is a total preorder, whatever their windows.
* `Path.best?_eq_some_iff`, `Path.best?_eq_none_iff` — which path is found, and when none can be.
* `Selector.select?_eq_some_iff`, `Selector.select?_eq_none_iff` — which selections come out.
* `Selector.average?_of_comparable` — the latencies of a selection that comes out are formed.
* `Selector.select?_eq_select` — out of windows of one size, doubles and exact ratios select the
  same.
-/
namespace RouteKeeper

variable {less less' : Loss → Loss → Bool}

namespace Path

/-! ## Comparing paths -/

theorem isBetter_eq_false_iff {p q : Path} :
    p.isBetter less q = false ↔ less p.window.loss q.window.loss = false ∧
      (less q.window.loss p.window.loss = true ∨ q.latencyRank ≤ p.latencyRank) := by
  have hrank : ¬ p.latencyRank < q.latencyRank ↔ q.latencyRank ≤ p.latencyRank := Nat.not_lt
  simp only [isBetter, Bool.or_eq_false_iff, Bool.and_eq_false_iff, Bool.not_eq_false',
    decide_eq_false_iff_not, hrank]

/-- Comparing paths is a total preorder: loss first, then the latency. -/
theorem comparison_isBetter (h : Window.Compares less) : Comparison (isBetter less) where
  asymm {p q} hpq := by
    simp only [isBetter, Bool.or_eq_true, Bool.and_eq_true, Bool.not_eq_true',
      decide_eq_true_eq] at hpq
    rw [isBetter_eq_false_iff]
    rcases hpq with hless | ⟨hsame, hsooner⟩
    · exact ⟨h.asymm hless, .inl hless⟩
    · exact ⟨hsame, .inr (Nat.le_of_lt hsooner)⟩
  chain {p q r} hqp hrq := by
    rw [isBetter_eq_false_iff] at hqp hrq ⊢
    have hrp := h.chain hqp.1 hrq.1
    refine ⟨hrp, ?_⟩
    cases hpr : less p.window.loss r.window.loss with
    | true => exact .inl rfl
    | false =>
      -- All three lose the same share, so both comparisons were decided by the latency.
      have hpq := h.chain hrq.1 hpr
      have hqr := h.chain hpr hqp.1
      have hsooner := hqp.2.resolve_left (Bool.eq_false_iff.1 hpq)
      have hlater := hrq.2.resolve_left (Bool.eq_false_iff.1 hqr)
      exact .inr (Nat.le_trans hsooner hlater)

/-- The best path loses least. -/
theorem less_best (h : Window.Compares less) {l : List Path} {best : Path}
    (hbest : Path.best less l = some best) {q : Path} (hq : q ∈ l) (hvalid : q.isValid = true) :
    less q.window.loss best.window.loss = false :=
  (isBetter_eq_false_iff.1
    ((comparison_isBetter h).firstLeast_least hbest q (List.mem_filter.2 ⟨hq, hvalid⟩))).1

/-- The best path depends on the comparisons of the paths of the list only. -/
theorem best_congr {l : List Path}
    (h : ∀ p ∈ l, ∀ q ∈ l, less p.window.loss q.window.loss = less' p.window.loss q.window.loss) :
    best less l = best less' l := by
  refine firstLeast_congr fun p hp q hq => ?_
  have hp := (List.mem_filter.1 hp).1
  have hq := (List.mem_filter.1 hq).1
  rw [isBetter, isBetter, h p hp q hq, h q hq p hp]

theorem best_eq_none_iff {l : List Path} : best less l = none ↔ ∀ p ∈ l, p.isValid = false := by
  rw [best, firstLeast_eq_none_iff, List.filter_eq_nil_iff]
  simp only [Bool.not_eq_true]

/-! ## Searches that come to an end -/

/-- The best of the paths can be found: at most one may be selected, or every one that may has an
average. -/
def Comparable (l : List Path) : Prop :=
  (l.filter isValid).length ≤ 1 ∨ ∀ p ∈ l, p.isValid = true → p.window.HasAverage

instance (l : List Path) : Decidable (Comparable l) := inferInstanceAs (Decidable (_ ∨ _))

theorem comparable_iff {l : List Path} :
    Comparable l ↔
      (l.filter isValid).length ≤ 1 ∨ ∀ p ∈ l.filter isValid, p.window.HasAverage := by
  simp only [Comparable, List.mem_filter, and_imp]

theorem Comparable.of_perm {l l' : List Path} (h : Comparable l) (hperm : l'.Perm l) :
    Comparable l' := by
  rw [comparable_iff] at h ⊢
  have hvalid := hperm.filter isValid
  rw [hvalid.length_eq]
  exact h.imp_right fun hall p hp => hall p (hvalid.mem_iff.1 hp)

theorem isBetter?_eq_some (p q : Path) (hp : p.window.HasAverage) (hq : q.window.HasAverage) :
    p.isBetter? q = some (p.isBetter Loss.lessShare q) := by
  simp only [isBetter?, Window.average?_eq_some hp, Window.average?_eq_some hq]
  rfl

/-- A comparison forms both averages. -/
theorem hasAverage_of_isBetter? (p q : Path) (h : p.isBetter? q ≠ none) :
    p.window.HasAverage ∧ q.window.HasAverage := by
  constructor
  · by_contra hp
    exact h (by simp only [isBetter?, Window.average?_eq_none hp]; rfl)
  · by_contra hq
    refine h ?_
    simp only [isBetter?, Window.average?_eq_none hq]
    cases p.window.average? <;> rfl

theorem best?_eq_some {l : List Path} (h : Comparable l) :
    best? l = some (best Loss.lessShare l) :=
  firstLeast?_eq_some isBetter?_eq_some (comparable_iff.1 h)

theorem best?_eq_none_iff {l : List Path} : best? l = none ↔ ¬ Comparable l := by
  constructor
  · intro hnone h
    rw [best?_eq_some h] at hnone
    cases hnone
  · intro h
    exact firstLeast?_eq_none hasAverage_of_isBetter?
      (mt comparable_iff.2 h)

theorem best?_eq_some_iff {l : List Path} {best : Option Path} :
    best? l = some best ↔ Comparable l ∧ Path.best Loss.lessShare l = best := by
  by_cases h : Comparable l
  · rw [best?_eq_some h, Option.some.injEq]
    exact (and_iff_right h).symm
  · rw [best?_eq_none_iff.2 h]
    exact iff_of_false nofun fun hboth => h hboth.1

/-- Out of windows of one size whose rounds the doubles count, a best path that is found is the one
by exact ratios. -/
theorem best?_eq_best {l : List Path} {capacity : Nat}
    (hcapacity : ∀ p ∈ l, p.window.capacity = capacity)
    (hcounts : Window.CountsHits Loss.lessShare capacity) (hcomparable : Comparable l) :
    best? l = some (best Loss.less l) := by
  refine best?_eq_some_iff.2 ⟨hcomparable, best_congr fun p hp q hq => ?_⟩
  exact Window.lessShare_eq_less hcounts (hcapacity p hp) (hcapacity q hq)

end Path

/-! ## Selections that come out -/

namespace Selector

variable {s : Selector} {paths : Paths}

theorem select?_eq_none_iff : s.select? paths = none ↔ ¬ Path.Comparable paths.values := by
  rw [select?, Option.map_eq_none_iff, Path.best?_eq_none_iff]

theorem select?_eq_some_iff {selected : Selection × Selector} :
    s.select? paths = some selected ↔
      Path.Comparable paths.values ∧ s.select Loss.lessShare paths = selected := by
  rw [select?, Option.map_eq_some_iff]
  simp only [Path.best?_eq_some_iff, and_assoc, exists_and_left, exists_eq_left', select]

theorem exists_select?_eq (h : Path.Comparable paths.values) :
    ∃ outcome s', s.select? paths = some (outcome, s') :=
  ⟨_, _, select?_eq_some_iff.2 ⟨h, (Prod.eta _).symm⟩⟩

/-- Of two paths that are both valid the averages were formed, and are the exact ones, if the best
path was found. So the latencies that a selection measures, or tells, are the ones that are formed.
-/
theorem average?_of_comparable (hcomparable : Path.Comparable paths.values) {p q : Path}
    (hp : paths.get? p.connection = some p) (hpvalid : p.isValid = true)
    (hq : paths.get? q.connection = some q) (hqvalid : q.isValid = true)
    (hne : p.connection ≠ q.connection) :
    p.window.average? = some p.window.latency ∧ q.window.average? = some q.window.latency := by
  have hpmem := OrderedMap.mem_values_iff.2 ⟨_, hp⟩
  have hqmem := OrderedMap.mem_values_iff.2 ⟨_, hq⟩
  rcases hcomparable with hfew | hall
  · -- A list of one element does not hold both.
    have hboth : ∀ r ∈ [p, q], r ∈ paths.values.filter Path.isValid := by
      simp only [List.mem_cons, List.not_mem_nil, or_false, forall_eq_or_imp, forall_eq]
      exact ⟨List.mem_filter.2 ⟨hpmem, hpvalid⟩, List.mem_filter.2 ⟨hqmem, hqvalid⟩⟩
    have hdistinct : [p, q].Nodup := by
      rw [List.nodup_cons, List.mem_singleton]
      exact ⟨fun hsame => hne (congrArg Path.connection hsame), List.nodup_singleton q⟩
    have hlength := (hdistinct.subperm hboth).length_le
    exact absurd (Nat.le_trans hlength hfew) (Nat.not_succ_le_self 1)
  · exact ⟨Window.average?_eq_some (hall p hpmem hpvalid),
      Window.average?_eq_some (hall q hqmem hqvalid)⟩

/-! ## Doubles and exact ratios -/

/-- A selection depends on the comparisons of the paths of the map only. -/
theorem select_congr (hkeyed : ∀ c p, paths.get? c = some p → p.connection = c)
    (h : ∀ c p d q, paths.get? c = some p → paths.get? d = some q →
      less p.window.loss q.window.loss = less' p.window.loss q.window.loss) :
    s.select less paths = s.select less' paths := by
  have hbest : Path.best less paths.values = Path.best less' paths.values := by
    refine Path.best_congr fun p hp q hq => ?_
    obtain ⟨c, hc⟩ := OrderedMap.mem_values_iff.1 hp
    obtain ⟨d, hd⟩ := OrderedMap.mem_values_iff.1 hq
    exact h c p d q hc hd
  rw [select, select, hbest]
  cases hfound : Path.best less' paths.values with
  | none => rfl
  | some best =>
    have hget := get?_best hkeyed hfound
    have hchoose : s.choose less paths best = s.choose less' paths best := by
      unfold choose
      split
      case h_1 => rfl
      case h_2 r hreference =>
        obtain ⟨hr, -⟩ := isValid_of_reference hkeyed hreference
        have himprovement : s.policy.improvement less r best =
            s.policy.improvement less' r best := by
          rw [Policy.improvement, Policy.improvement, h _ best _ r hget hr, h _ r _ best hr hget]
        rw [himprovement]
    have hexplain : ∀ replacing, s.explain less paths (s.choose less' paths best).1 replacing =
        s.explain less' paths (s.choose less' paths best).1 replacing := by
      intro replacing
      obtain ⟨hchosen, -⟩ := isValid_choose hkeyed hfound s
      unfold explain
      split
      case h_1 => rfl
      case h_2 l hremembered =>
        obtain ⟨-, hl, -⟩ := (remembered_eq_some_iff hkeyed).1 hremembered
        rw [Reason.between, Reason.between, h _ _ _ l hchosen hl]
    simp only [conclude, hchoose, hexplain]

/-- Out of windows of one size whose rounds the doubles count, a selection that comes out is the one
by exact ratios. -/
theorem select?_eq_select {capacity : Nat}
    (hkeyed : ∀ c p, paths.get? c = some p → p.connection = c)
    (hcapacity : ∀ c p, paths.get? c = some p → p.window.capacity = capacity)
    (hcounts : Window.CountsHits Loss.lessShare capacity)
    (hcomparable : Path.Comparable paths.values) :
    s.select? paths = some (s.select Loss.less paths) := by
  refine select?_eq_some_iff.2 ⟨hcomparable, select_congr hkeyed fun c p d q hp hq => ?_⟩
  exact Window.lessShare_eq_less hcounts (hcapacity c p hp) (hcapacity d q hq)

end Selector

end RouteKeeper
