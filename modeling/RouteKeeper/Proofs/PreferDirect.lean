import RouteKeeper.Proofs.Hysteresis

/-!
# Preferring the direct path

A selector that prefers the direct path measures the best path against it. While the direct path may
be selected, what was selected before has no say in what is selected, and in what is remembered; it
only shows in the reason. Without a direct path such a selector goes for the lowest latency. Whether
a selection comes out depends on the paths alone.

## Main statements

* `Selector.reference_preferDirect` — the direct path is the reference, if it may be selected.
* `Selector.select_eq_of_choose_eq` — selectors with the same path to select differ in the reason
  alone.
* `Selector.select_preferDirect` — both halves together.
-/
namespace RouteKeeper

/-- The path is the one that is selected. -/
def Selection.Selects (s : Selection) (p : Path) : Prop :=
  s.address = some p.address ∧ s.connection = some p.connection

/-- The direct path, if it may be selected. -/
def Paths.direct? (paths : Paths) : Option Path := (paths.get? .direct).filter Path.isValid

namespace Paths

variable {paths : Paths}

theorem direct?_eq_some_iff {d : Path} :
    paths.direct? = some d ↔ paths.get? .direct = some d ∧ d.isValid = true :=
  Option.filter_eq_some_iff

/-- The first path that is direct and valid is the direct one. -/
theorem find?_direct (hkeyed : ∀ c p, paths.get? c = some p → p.connection = c) :
    paths.values.find? (fun p => p.connection.isDirect && p.isValid) = paths.direct? := by
  have hdirect : ∀ d, (d ∈ paths.values ∧ d.connection.isDirect = true ∧ d.isValid = true) ↔
      paths.direct? = some d := by
    intro d
    rw [direct?_eq_some_iff, OrderedMap.mem_values_iff, ConnectionName.isDirect, decide_eq_true_eq]
    constructor
    · rintro ⟨⟨c, hget⟩, hname, hvalid⟩
      obtain rfl := hkeyed c d hget
      exact ⟨hname ▸ hget, hvalid⟩
    · rintro ⟨hget, hvalid⟩
      exact ⟨⟨_, hget⟩, hkeyed _ d hget, hvalid⟩
  cases hfind : paths.values.find? fun p => p.connection.isDirect && p.isValid with
  | some d =>
    have hmarks := List.find?_some hfind
    rw [Bool.and_eq_true] at hmarks
    exact ((hdirect d).1 ⟨List.mem_of_find?_eq_some hfind, hmarks⟩).symm
  | none =>
    cases hd : paths.direct? with
    | none => rfl
    | some d =>
      obtain ⟨hmem, hmarks⟩ := (hdirect d).2 hd
      exact absurd (Bool.and_eq_true_iff.2 hmarks) (List.find?_eq_none.1 hfind d hmem)

end Paths

namespace Selector

variable {less : Loss → Loss → Bool} {paths : Paths}

/-! ## The reference -/

theorem reference_preferDirect {s : Selector} (hstrategy : s.policy.strategy = .preferDirect)
    (hkeyed : ∀ c p, paths.get? c = some p → p.connection = c) :
    s.reference paths = paths.direct?.or (s.remembered paths) := by
  rw [reference, hstrategy, ← Paths.find?_direct hkeyed]

/-- The reference is left for a reason of the policy only. -/
theorem choose_of_reference {s : Selector} {d best : Path}
    (hkeyed : ∀ c p, paths.get? c = some p → p.connection = c)
    (hbest : Path.best less paths.values = some best) (hreference : s.reference paths = some d) :
    (s.choose less paths best).1 =
      if (s.policy.improvement less d best).isSome then best else d := by
  by_cases hsame : d.connection = best.connection
  · -- The reference is the best path itself, which is no improvement over itself.
    obtain ⟨hget, -⟩ := isValid_of_reference hkeyed hreference
    rw [hsame, get?_best hkeyed hbest] at hget
    obtain rfl := Option.some.inj hget
    simp only [choose, hreference, if_true, ite_self]
  · simp only [choose, hreference, if_neg hsame]
    cases s.policy.improvement less d best <;> rfl

/-! ## Two selectors -/

/-- Selectors of one policy that would select the same path select the same, and remember the same.
They delete alike; otherwise they may tell the reason differently, for each tells it against its own
memory. -/
theorem select_eq_of_choose_eq {s s' : Selector} (hpolicy : s'.policy = s.policy)
    (hchoose : ∀ best, Path.best less paths.values = some best →
      (s'.choose less paths best).1 = (s.choose less paths best).1) :
    (s'.select less paths).1.address = (s.select less paths).1.address ∧
      (s'.select less paths).1.connection = (s.select less paths).1.connection ∧
      ((s.select less paths).1.isDelete = true →
        (s'.select less paths).1 = (s.select less paths).1) ∧
      (s'.select less paths).2 = (s.select less paths).2 := by
  have hlast : ∀ last, ({ s' with last } : Selector) = { s with last } := by
    intro last
    rw [hpolicy]
  cases s.outcome less paths with
  | none hbest hselect =>
    rw [hselect, select_of_best_eq_none hbest]
    exact ⟨rfl, rfl, fun _ => rfl, hlast none⟩
  | tornDown best hbest htorn hselect =>
    rw [TearsDown, ← hpolicy, ← hchoose best hbest] at htorn
    rw [hselect, select_of_tearsDown hbest htorn, hchoose best hbest]
    exact ⟨rfl, rfl, fun _ => rfl, hlast none⟩
  | selected best hbest hkept hselect =>
    rw [TearsDown, ← hpolicy, ← hchoose best hbest] at hkept
    rw [hselect, select_of_not_tearsDown hbest hkept, hchoose best hbest]
    refine ⟨rfl, rfl, fun hdelete => ?_, hlast _⟩
    cases hdelete

variable (less) in
/-- Without a direct path that may be selected, a selector that prefers it goes for the lowest
latency. -/
theorem select_of_direct?_eq_none {policy : Policy} (hstrategy : policy.strategy = .preferDirect)
    (hkeyed : ∀ c p, paths.get? c = some p → p.connection = c) (hdirect : paths.direct? = none)
    (last : Option ConnectionName) :
    let selected := (Selector.mk policy last).select less paths
    let sooner := (Selector.mk { policy with strategy := .lowestLatency } last).select less paths
    selected.1 = sooner.1 ∧ selected.2.last = sooner.2.last := by
  have hreference : (Selector.mk policy last).reference paths =
      (Selector.mk { policy with strategy := .lowestLatency } last).reference paths := by
    rw [reference_preferDirect hstrategy hkeyed, hdirect, Option.none_or]
    rfl
  have hchoose : ∀ best, (Selector.mk policy last).choose less paths best =
      (Selector.mk { policy with strategy := .lowestLatency } last).choose less paths best := by
    intro best
    rw [choose, hreference]
    rfl
  have hexplain : ∀ chosen replacing,
      (Selector.mk policy last).explain less paths chosen replacing =
        (Selector.mk { policy with strategy := .lowestLatency } last).explain less paths chosen
          replacing := by
    intro chosen replacing
    rw [explain, hreference]
    rfl
  rw [select, select]
  cases Path.best less paths.values with
  | none => exact ⟨rfl, rfl⟩
  | some best =>
    simp only [conclude, hchoose, hexplain]
    split <;> exact ⟨rfl, rfl⟩

/-- A selector that prefers the direct path. Whatever is remembered, and with either strategy, a
selection comes out exactly if the best path can be found. While the direct path may be selected,
two selectors that prefer it select the same, or delete alike, and remember the same, whatever they
remember before; and it is the direct path that is selected, or the best one if the policy has a
reason to leave the direct path for it, by latencies that are formed. Otherwise the selector is one
that goes for the lowest latency. -/
theorem select_preferDirect {policy : Policy} (hstrategy : policy.strategy = .preferDirect)
    (hkeyed : ∀ c p, paths.get? c = some p → p.connection = c) :
    (∀ s : Selector, s.select? paths = none ↔ ¬ Path.Comparable paths.values) ∧
    ∀ last outcome s', (Selector.mk policy last).select? paths = some (outcome, s') →
      (∀ d, paths.get? .direct = some d → d.isValid = true →
        (∀ last', ∃ outcome', (Selector.mk policy last').select? paths = some (outcome', s') ∧
          outcome'.address = outcome.address ∧ outcome'.connection = outcome.connection ∧
          (outcome.isDelete = true → outcome' = outcome)) ∧
        (outcome.isDelete = false → ∃ best, Path.best? paths.values = some (some best) ∧
          (best.connection ≠ d.connection → d.window.average? = some d.window.latency ∧
            best.window.average? = some best.window.latency) ∧
          outcome.Selects
            (if (policy.improvement Loss.lessShare d best).isSome then best else d))) ∧
      ((∀ d, paths.get? .direct = some d → d.isValid = false) →
        ∃ sooner, (Selector.mk { policy with strategy := .lowestLatency } last).select? paths =
          some (outcome, sooner) ∧ sooner.last = s'.last) := by
  refine ⟨fun s => select?_eq_none_iff, fun last outcome s' hselected => ?_⟩
  obtain ⟨hcomparable, hselected⟩ := select?_eq_some_iff.1 hselected
  constructor
  · intro d hget hvalid
    have hreference : ∀ last, (Selector.mk policy last).reference paths = some d := by
      intro last
      rw [reference_preferDirect hstrategy hkeyed, Paths.direct?_eq_some_iff.2 ⟨hget, hvalid⟩,
        Option.some_or]
    have hchoose : ∀ last best, Path.best Loss.lessShare paths.values = some best →
        ((Selector.mk policy last).choose Loss.lessShare paths best).1 =
          if (policy.improvement Loss.lessShare d best).isSome then best else d :=
      fun last best hbest => choose_of_reference hkeyed hbest (hreference last)
    refine ⟨fun last' => ?_, fun hkept => ?_⟩
    · have hpolicy : (Selector.mk policy last').policy = (Selector.mk policy last).policy := rfl
      have hsame := select_eq_of_choose_eq hpolicy fun best hbest =>
        (hchoose last' best hbest).trans (hchoose last best hbest).symm
      rw [hselected] at hsame
      obtain ⟨haddress, hconnection, hdelete, hmemory⟩ := hsame
      exact ⟨_, select?_eq_some_iff.2 ⟨hcomparable, Prod.ext rfl hmemory⟩, haddress, hconnection,
        hdelete⟩
    · have hkept' : ((Selector.mk policy last).select Loss.lessShare paths).1.isDelete = false := by
        rw [hselected]
        exact hkept
      obtain ⟨best, hbest, houtcome⟩ := select_eq_of_not_isDelete hkept'
      rw [hselected, hchoose last best hbest] at houtcome
      have hname := hkeyed .direct d hget
      have hformed := average?_of_comparable hcomparable (hname ▸ hget) hvalid
        (get?_best hkeyed hbest) (Path.isValid_of_best hbest).2
      exact ⟨best, Path.best?_eq_some_iff.2 ⟨hcomparable, hbest⟩, fun hne => hformed hne.symm,
        congrArg Selection.address houtcome, congrArg Selection.connection houtcome⟩
  · intro hnone
    have hdirect : paths.direct? = none := by
      cases hd : paths.direct? with
      | none => rfl
      | some d =>
        obtain ⟨hget, hvalid⟩ := Paths.direct?_eq_some_iff.1 hd
        rw [hnone d hget] at hvalid
        cases hvalid
    obtain ⟨hsame, hlast⟩ :=
      select_of_direct?_eq_none Loss.lessShare hstrategy hkeyed hdirect last
    rw [hselected] at hsame hlast
    refine ⟨_, select?_eq_some_iff.2 ⟨hcomparable, ?_⟩, hlast.symm⟩
    exact Prod.ext hsame.symm rfl

/-- The direct path, and a sooner one that was not probed often enough yet. -/
def directFirst : Paths :=
  let late : Sample := ⟨.millis 50, false⟩
  .ofList
    [(.direct, ((Path.new ⟨.direct, "eth0", none, .v4 1⟩ ⟨"alpha"⟩ 2 0).record late).record late),
      (⟨"t1"⟩, (Path.new ⟨⟨"t1"⟩, "wg-a", none, .v4 2⟩ ⟨"alpha"⟩ 2 1).record ⟨.millis 20, false⟩)]

/-- The direct path is selected, even by a selector that selected the sooner one before. -/
theorem select_preferDirect_directFirst :
    let policy : Policy := { Policy.default with strategy := .preferDirect }
    (∀ c p, directFirst.get? c = some p → p.connection = c) ∧
      ∃ d, directFirst.get? .direct = some d ∧ d.isValid = true ∧
        ∃ outcome outcome' s', (Selector.mk policy none).select? directFirst = some (outcome, s') ∧
          (Selector.mk policy (some ⟨"t1"⟩)).select? directFirst = some (outcome', s') ∧
          outcome.Selects d ∧ outcome'.Selects d := by
  intro policy
  have hkeyed : ∀ c p, directFirst.get? c = some p → p.connection = c :=
    OrderedMap.forall_get?_iff.2 (by decide +kernel)
  have hstrategy : policy.strategy = .preferDirect := rfl
  have hdirect : (directFirst.get? .direct).map Path.isValid = some true := by decide +kernel
  have hselect : ((Selector.mk policy none).select? directFirst).map
      (fun selected => selected.1.isDelete) = some false := by decide +kernel
  have hstays : (directFirst.get? .direct).all (fun d =>
      (Path.best? directFirst.values).all fun best =>
        best.all fun best => (policy.improvement Loss.lessShare d best).isNone) = true := by
    decide +kernel
  obtain ⟨d, hget, hvalid⟩ := Option.map_eq_some_iff.1 hdirect
  obtain ⟨⟨outcome, s'⟩, hselect, hkept⟩ := Option.map_eq_some_iff.1 hselect
  obtain ⟨-, hout⟩ := select_preferDirect hstrategy hkeyed
  obtain ⟨hdirect, -⟩ := hout none outcome s' hselect
  obtain ⟨hsame, hselected⟩ := hdirect d hget hvalid
  obtain ⟨best, hbest, -, hselects⟩ := hselected hkept
  obtain ⟨outcome', hselect', haddress, hconnection, -⟩ := hsame (some ⟨"t1"⟩)
  simp only [hget, hbest, Option.all_some, Option.isNone_iff_eq_none] at hstays
  rw [hstays] at hselects
  exact ⟨hkeyed, d, hget, hvalid, outcome, outcome', s', hselect, hselect', hselects,
    haddress.trans hselects.1, hconnection.trans hselects.2⟩

/-- The direct path, and a tunnel, which answered twice after the longest duration. -/
def endlessDirect : Paths :=
  let late : Sample := ⟨.longest, false⟩
  .ofList
    [(.direct, ((Path.new ⟨.direct, "eth0", none, .v4 1⟩ ⟨"alpha"⟩ 2 0).record late).record late),
      (⟨"t1"⟩, ((Path.new ⟨⟨"t1"⟩, "wg-a", none, .v4 2⟩ ⟨"alpha"⟩ 2 1).record late).record late)]

/-- The direct path may be selected, but no selection comes out. -/
theorem select?_endlessDirect :
    (∀ c p, endlessDirect.get? c = some p → p.connection = c) ∧
      (endlessDirect.get? .direct).any Path.isValid = true ∧
      ∀ last, (Selector.mk { Policy.default with strategy := .preferDirect } last).select?
        endlessDirect = none :=
  ⟨OrderedMap.forall_get?_iff.2 (by decide +kernel), by decide +kernel,
    fun _ => select?_eq_none_iff.2 (by decide +kernel)⟩

end Selector

end RouteKeeper
