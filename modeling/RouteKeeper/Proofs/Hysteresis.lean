import RouteKeeper.Proofs.LeastLoss

/-!
# Leaving the path selected last

A selector that goes for the lowest latency is asked again and again, over maps of paths that may
change in any way in between. Its memory is always the connection of the selection before. From a
path that it selected last, and that may still be selected, it moves on to the best one only for a
reason of the policy; without such a path it takes the best one. The run goes on as long as the best
path of each map can be found.

## Main definitions

* `Policy.Leaves` — the reasons to leave a path for another.
* `Selector.follow?` — a run of selections and the selector after it.

## Main statements

* `Policy.improvement_eq_some_iff` — a candidate replaces a reference exactly for such a reason.
* `Selector.follow?_eq_none_iff` — which runs come to an end.
* `Selector.last_of_follow?` — the memory after a run is the connection of its last selection.
* `Selector.select_follow` — how the next selection of a run comes out.
-/
namespace RouteKeeper

/-! ## Reasons to leave a path -/

/-- Why a path is left for another one: the other loses less; or it loses as much, every slot of its
window has an answer time, and its latency is lower by the policy's ratio and difference. -/
inductive Policy.Leaves (policy : Policy) (l c : Path) : Reason → Prop where
  | loss (hless : c.window.loss.share.toFloat < l.window.loss.share.toFloat) :
      Leaves policy l c (.lossImproved l.window.loss.share c.window.loss.share)
  | latency (hloss : c.window.loss.share = l.window.loss.share)
      (hcomplete : c.window.incomplete = false)
      (hold : l.window.latency.isZero = false) (hnew : c.window.latency.isZero = false)
      (hsooner : c.window.latency < l.window.latency)
      (hratio : l.window.latency.inSeconds / c.window.latency.inSeconds ≥ policy.rerouteRatio)
      (hdiff : l.window.latency.minus c.window.latency ≥ policy.rerouteDiff) :
      Leaves policy l c (.latencyImproved l.window.latency c.window.latency)

namespace Policy

variable {policy : Policy} {l c : Path} {reason : Reason}

theorem isMuchSooner_iff {old new : Duration} :
    policy.isMuchSooner old new = true ↔
      old.inSeconds / new.inSeconds ≥ policy.rerouteRatio ∧ old.minus new ≥ policy.rerouteDiff := by
  simp only [isMuchSooner, Bool.and_eq_true, decide_eq_true_eq]

/-- A candidate replaces a reference exactly if there is a reason to leave the reference for it. -/
theorem improvement_eq_some_iff :
    policy.improvement Loss.lessShare l c = some reason ↔ policy.Leaves l c reason := by
  have hlatency : ¬ ((l.window.latency.isZero || c.window.latency.isZero ||
      c.window.latency ≥ l.window.latency) = true) ↔
        (l.window.latency.isZero = false ∧ c.window.latency.isZero = false) ∧
          c.window.latency < l.window.latency := by
    simp only [Bool.or_eq_true, decide_eq_true_eq, not_or, Bool.not_eq_true]
    exact and_congr_right fun _ => Nat.not_le
  constructor
  · intro h
    unfold improvement at h
    split at h
    case isTrue hless =>
      cases h
      exact .loss (Window.lessShare_iff.1 hless)
    case isFalse hmore =>
      rw [Bool.not_eq_true] at hmore
      split at h
      case isTrue => cases h
      case isFalse hready =>
        rw [Bool.not_eq_true, Bool.or_eq_false_iff] at hready
        simp only at h
        split at h
        case isTrue => cases h
        case isFalse hknown =>
          obtain ⟨⟨hold, hnew⟩, hsooner⟩ := hlatency.1 hknown
          split at h
          case isFalse => cases h
          case isTrue hmuch =>
            cases h
            obtain ⟨hratio, hdiff⟩ := isMuchSooner_iff.1 hmuch
            exact .latency (Window.lessShare_eq_false_and_iff.1 ⟨hmore, hready.1⟩) hready.2 hold
              hnew hsooner hratio hdiff
  · intro h
    cases h with
    | loss hless => rw [improvement, if_pos (Window.lessShare_iff.2 hless)]
    | latency hloss hcomplete hold hnew hsooner hratio hdiff =>
      obtain ⟨hmore, hless⟩ := Window.lessShare_eq_false_and_iff.2 hloss
      rw [improvement, if_neg (by simp [hmore]), if_neg (by simp [hless, hcomplete])]
      exact (if_neg (hlatency.2 ⟨⟨hold, hnew⟩, hsooner⟩)).trans
        (if_pos (isMuchSooner_iff.2 ⟨hratio, hdiff⟩))

/-- There is no reason to leave a path for itself. -/
theorem not_leaves_self : ¬ policy.Leaves l l reason := by
  rintro (hless | ⟨-, -, -, -, hsooner, -, -⟩)
  · exact Window.lessShare_eq_false_iff.1 (Window.compares_lessShare.irrefl l.window) hless
  · exact Nat.lt_irrefl _ hsooner

end Policy

/-! ## Selections -/

namespace Selector

variable {less : Loss → Loss → Bool} {s : Selector} {paths : Paths}

/-- The memory after a selection is the connection that was selected. -/
theorem last_select (less : Loss → Loss → Bool) (s : Selector) (paths : Paths) :
    (s.select less paths).2.last = (s.select less paths).1.connection := by
  cases s.outcome less paths with
  | none _ hselect => rw [hselect]; rfl
  | tornDown _ _ _ hselect => rw [hselect]; rfl
  | selected _ _ _ hselect => rw [hselect]

theorem connection_of_isDelete (h : (s.select less paths).1.isDelete = true) :
    (s.select less paths).1.connection = none := by
  cases s.outcome less paths with
  | none _ hselect => rw [hselect]; rfl
  | tornDown _ _ _ hselect => rw [hselect]; rfl
  | selected _ _ _ hselect =>
    rw [hselect] at h
    cases h

/-- What is selected, told by the path to select. -/
theorem select_eq_of_not_isDelete (h : (s.select less paths).1.isDelete = false) :
    ∃ best, Path.best less paths.values = some best ∧
      (s.select less paths).1 = ⟨some (s.choose less paths best).1.address,
        some (s.choose less paths best).1.connection,
        s.explain less paths (s.choose less paths best).1 (s.choose less paths best).2⟩ := by
  cases s.outcome less paths with
  | none _ hselect =>
    rw [hselect] at h
    cases h
  | tornDown _ _ _ hselect =>
    rw [hselect] at h
    cases h
  | selected best hbest _ hselect => exact ⟨best, hbest, by rw [hselect]⟩

section LowestLatency

variable (hstrategy : s.policy.strategy = .lowestLatency) {best l : Path}

include hstrategy

theorem reference_of_lowestLatency : s.reference paths = s.remembered paths := by
  rw [reference, hstrategy]

/-- The remembered path is left for a reason of the policy. -/
theorem choose_of_leaves (hl : s.remembered paths = some l) {reason : Reason}
    (hleaves : s.policy.Leaves l best reason) (hne : best.connection ≠ l.connection) :
    (s.choose Loss.lessShare paths best) = (best, some reason) ∧
      s.explain Loss.lessShare paths best (some reason) = reason := by
  have hreference := (reference_of_lowestLatency hstrategy).trans hl
  have himprovement := Policy.improvement_eq_some_iff.2 hleaves
  constructor
  · simp only [choose, hreference, if_neg hne.symm, himprovement]
  · simp only [explain, hl, hreference, if_neg hne.symm, if_true]

/-- Without such a reason it stays. -/
theorem choose_of_not_leaves (hl : s.remembered paths = some l)
    (hstays : ∀ reason, ¬ s.policy.Leaves l best reason) :
    (s.choose Loss.lessShare paths best).1 = l ∧
      s.explain Loss.lessShare paths l (s.choose Loss.lessShare paths best).2 = .unchanged := by
  have hreference := (reference_of_lowestLatency hstrategy).trans hl
  have himprovement : s.policy.improvement Loss.lessShare l best = none := by
    cases h : s.policy.improvement Loss.lessShare l best with
    | none => rfl
    | some reason => exact absurd (Policy.improvement_eq_some_iff.1 h) (hstays reason)
  constructor
  · simp only [choose, hreference, himprovement, ite_self]
  · simp only [explain, hl, if_true]

/-- Without a remembered path the best one is taken. -/
theorem choose_of_forgotten (hl : s.remembered paths = none) (best : Path) :
    (s.choose Loss.lessShare paths best).1 = best ∧
      s.explain Loss.lessShare paths best (s.choose Loss.lessShare paths best).2 = .newRoute := by
  have hreference := (reference_of_lowestLatency hstrategy).trans hl
  constructor
  · simp only [choose, hreference]
  · simp only [explain, hl]

end LowestLatency

/-! ## Runs of selections -/

/-- What is selected over the maps, the oldest first, and the selector after them, if all selections
come out. -/
def follow? (s : Selector) : List Paths → Option (List Selection × Selector)
  | [] => some ([], s)
  | paths :: calls => do
    let (outcome, s) ← s.select? paths
    let (outcomes, s) ← s.follow? calls
    return (outcome :: outcomes, s)

/-- The connection that the last of the selections selected; if there was none, the one that the
selector began with. -/
def selectedLast (s : Selector) (outcomes : List Selection) : Option ConnectionName :=
  match outcomes.getLast? with
  | some outcome => outcome.connection
  | none => s.last

/-- One step of a run. -/
theorem follow?_cons_eq_some_iff {calls : List Paths} {outcomes : List Selection} {s' : Selector} :
    s.follow? (paths :: calls) = some (outcomes, s') ↔
      ∃ outcome now rest, s.select? paths = some (outcome, now) ∧
        now.follow? calls = some (rest, s') ∧ outcomes = outcome :: rest := by
  rw [follow?]
  simp only [Option.bind_eq_bind, Option.bind_eq_some_iff, Prod.exists, Option.pure_def,
    Option.some.injEq, Prod.mk.injEq]
  constructor
  · rintro ⟨outcome, now, hselect, rest, _, hfollow, rfl, rfl⟩
    exact ⟨outcome, now, rest, hselect, hfollow, rfl⟩
  · rintro ⟨outcome, now, rest, hselect, hfollow, rfl⟩
    exact ⟨outcome, now, hselect, rest, s', hfollow, rfl, rfl⟩

/-- A run ends early exactly if the best path of some map cannot be found, whatever the selector. -/
theorem follow?_eq_none_iff {calls : List Paths} :
    s.follow? calls = none ↔ ∃ paths ∈ calls, ¬ Path.Comparable paths.values := by
  induction calls generalizing s with
  | nil => simp [follow?]
  | cons paths calls ih =>
    rw [List.exists_mem_cons_iff, follow?]
    by_cases hcomparable : Path.Comparable paths.values
    · have hselect := select?_eq_some_iff.2 ⟨hcomparable, Eq.refl (s.select Loss.lessShare paths)⟩
      rw [hselect, ← ih (s := (s.select Loss.lessShare paths).2)]
      cases hrest : (s.select Loss.lessShare paths).2.follow? calls <;> simp [hrest, hcomparable]
    · simp [select?_eq_none_iff.2 hcomparable, hcomparable]

/-- The memory after a run is the connection that its last selection selected. The policy stays. -/
theorem last_of_follow? {calls : List Paths} {outcomes : List Selection} {s' : Selector}
    (h : s.follow? calls = some (outcomes, s')) :
    s'.last = s.selectedLast outcomes ∧ s'.policy = s.policy := by
  induction calls generalizing s outcomes with
  | nil =>
    cases h
    exact ⟨rfl, rfl⟩
  | cons paths calls ih =>
    obtain ⟨outcome, now, rest, hselect, hfollow, rfl⟩ := follow?_cons_eq_some_iff.1 h
    obtain ⟨-, hselect⟩ := select?_eq_some_iff.1 hselect
    obtain ⟨hlast, hpolicy⟩ := ih hfollow
    have hnow : now.last = outcome.connection ∧ now.policy = s.policy := by
      have hlast := s.last_select Loss.lessShare paths
      have hpolicy := s.policy_select Loss.lessShare paths
      rw [hselect] at hlast hpolicy
      exact ⟨hlast, hpolicy⟩
    refine ⟨hlast.trans ?_, hpolicy.trans hnow.2⟩
    rw [selectedLast, selectedLast, List.getLast?_cons]
    cases rest.getLast? with
    | none => exact hnow.1
    | some selection => rfl

/-- A run that came out, with a selection after it, found by what it selected. -/
theorem exists_of_follow? {α : Type} (s : Selector) (calls : List Paths) (paths : Paths)
    (f : Selection → α) (last : Option ConnectionName) (a : α)
    (h : (s.follow? calls).map (fun run => (s.selectedLast run.1,
      (run.2.select? paths).map fun selected => f selected.1)) = some (last, some a)) :
    ∃ outcomes now, s.follow? calls = some (outcomes, now) ∧ s.selectedLast outcomes = last ∧
      ∃ outcome s', now.select? paths = some (outcome, s') ∧ f outcome = a := by
  obtain ⟨⟨outcomes, now⟩, hfollow, hmarks⟩ := Option.map_eq_some_iff.1 h
  obtain ⟨hlast, hselect⟩ := Prod.mk.inj hmarks
  obtain ⟨⟨outcome, s'⟩, hselect, ha⟩ := Option.map_eq_some_iff.1 hselect
  exact ⟨outcomes, now, hfollow, hlast, outcome, s', hselect, ha⟩

/-- The next selection of a run. The run, and the selection after it, come out exactly if the best
path of each map can be found. Afterwards the connection is remembered, or none if nothing is
selected. If something is selected, it is the path selected last as long as that may be selected and
the policy has no reason to leave it for the best one; it is the best one, with the reason, if there
is one; and it is the best one as a new route if the path selected last may not be selected. The
latencies of two different paths that are measured are the averages that are formed. -/
theorem select_follow (hstrategy : s.policy.strategy = .lowestLatency) (earlier : List Paths)
    (hkeyed : ∀ c p, paths.get? c = some p → p.connection = c) :
    (s.follow? earlier = none ↔ ∃ paths ∈ earlier, ¬ Path.Comparable paths.values) ∧
    ∀ outcomes now, s.follow? earlier = some (outcomes, now) →
      (now.select? paths = none ↔ ¬ Path.Comparable paths.values) ∧
      ∀ outcome s', now.select? paths = some (outcome, s') →
        s'.last = outcome.connection ∧ (outcome.isDelete = true → outcome.connection = none) ∧
        (outcome.isDelete = false → ∃ best, Path.best? paths.values = some (some best) ∧
          (∀ l, s.selectedLast outcomes = some l.connection → paths.get? l.connection = some l →
            l.isValid = true →
              (best.connection ≠ l.connection → l.window.average? = some l.window.latency ∧
                best.window.average? = some best.window.latency) ∧
              (∀ reason, s.policy.Leaves l best reason → best.connection ≠ l.connection ∧
                outcome = ⟨some best.address, some best.connection, reason⟩) ∧
              ((∀ reason, ¬ s.policy.Leaves l best reason) →
                outcome = ⟨some l.address, some l.connection, .unchanged⟩)) ∧
          ((∀ l, s.selectedLast outcomes = some l.connection → paths.get? l.connection = some l →
            l.isValid = false) →
              outcome = ⟨some best.address, some best.connection, .newRoute⟩)) := by
  refine ⟨follow?_eq_none_iff, fun outcomes now hfollow => ⟨select?_eq_none_iff, ?_⟩⟩
  intro outcome s' hselected
  obtain ⟨hlast, hpolicy⟩ := last_of_follow? hfollow
  rw [← hlast, ← hpolicy]
  rw [← hpolicy] at hstrategy
  obtain ⟨hcomparable, hselected⟩ := select?_eq_some_iff.1 hselected
  obtain rfl : (now.select Loss.lessShare paths).1 = outcome := congrArg Prod.fst hselected
  obtain rfl : (now.select Loss.lessShare paths).2 = s' := congrArg Prod.snd hselected
  refine ⟨last_select Loss.lessShare now paths, connection_of_isDelete, fun hkept => ?_⟩
  obtain ⟨best, hbest, houtcome⟩ := select_eq_of_not_isDelete hkept
  rw [houtcome]
  refine ⟨best, Path.best?_eq_some_iff.2 ⟨hcomparable, hbest⟩, fun l hlast hget hvalid => ?_,
    fun hgone => ?_⟩
  · have hl := (remembered_eq_some_iff hkeyed).2 ⟨hlast, hget, hvalid⟩
    have hformed := average?_of_comparable hcomparable hget hvalid (get?_best hkeyed hbest)
      (Path.isValid_of_best hbest).2
    refine ⟨fun hne => hformed hne.symm, fun reason hleaves => ?_, fun hstays => ?_⟩
    · have hne : best.connection ≠ l.connection := by
        intro hsame
        rw [← hsame, get?_best hkeyed hbest] at hget
        rw [Option.some.inj hget] at hleaves
        exact Policy.not_leaves_self hleaves
      obtain ⟨hchosen, hreason⟩ := choose_of_leaves hstrategy hl hleaves hne
      rw [hchosen]
      exact ⟨hne, by rw [hreason]⟩
    · obtain ⟨hchosen, hreason⟩ := choose_of_not_leaves hstrategy hl hstays
      rw [hchosen, hreason]
  · have hl := remembered_eq_none hkeyed hgone
    obtain ⟨hchosen, hreason⟩ := choose_of_forgotten hstrategy hl best
    rw [hchosen, hreason]

/-- The first path is the only one, then the second comes, which loses less: the selector moves on
to it and says so. -/
theorem select_follow_lossyPair :
    ∃ outcomes now, (new .default).follow? [lossyPair.erase ⟨"t2"⟩] = some (outcomes, now) ∧
      (new .default).selectedLast outcomes = some ⟨"t1"⟩ ∧
      ∃ outcome s' l best, now.select? lossyPair = some (outcome, s') ∧
        lossyPair.get? ⟨"t1"⟩ = some l ∧ Path.best? lossyPair.values = some (some best) ∧
        best.connection = ⟨"t2"⟩ ∧ outcome = ⟨some best.address, some best.connection,
          .lossImproved l.window.loss.share best.window.loss.share⟩ := by
  have hkeyed : ∀ c p, lossyPair.get? c = some p → p.connection = c :=
    OrderedMap.forall_get?_iff.2 (by decide +kernel)
  obtain ⟨outcomes, now, hfollow, hlast, outcome, s', hselect, hkept⟩ :=
    exists_of_follow? (new .default) [lossyPair.erase ⟨"t2"⟩] lossyPair Selection.isDelete
      (some ⟨"t1"⟩) false (by decide +kernel)
  obtain ⟨-, hnext⟩ := select_follow (s := new .default) rfl [lossyPair.erase ⟨"t2"⟩] hkeyed
  obtain ⟨-, -, hselected⟩ := (hnext outcomes now hfollow).2 outcome s' hselect
  obtain ⟨best, hbest, hstays, -⟩ := hselected hkept
  have hbest₂ : (Path.best? lossyPair.values).map (Option.map fun p =>
      (p.connection, p.window.loss)) = some (some (⟨"t2"⟩, ⟨1, 2⟩)) := by decide +kernel
  have hfirst : (lossyPair.get? ⟨"t1"⟩).map (fun p => (p.isValid, p.window.loss)) =
      some (true, ⟨2, 2⟩) := by decide +kernel
  simp only [hbest, Option.map_some, Option.some.injEq, Prod.mk.injEq] at hbest₂
  obtain ⟨l, hl, hmarks⟩ := Option.map_eq_some_iff.1 hfirst
  obtain ⟨hvalid, hloss⟩ := Prod.mk.inj hmarks
  have hless : best.window.loss.lessShare l.window.loss = true := by
    rw [hbest₂.2, hloss]
    decide +kernel
  have hleft := hstays l
  rw [hkeyed _ l hl] at hleft
  exact ⟨outcomes, now, hfollow, hlast, outcome, s', l, best, hselect, hl, hbest, hbest₂.1,
    ((hleft hlast hl hvalid).2.1 _ (.loss (Window.lessShare_iff.1 hless))).2⟩

/-- The first path is the only one and is selected, then the second comes, and no selection comes
out, although the first one stays valid. -/
theorem follow?_endlessPair :
    (∀ c p, endlessPair.get? c = some p → p.connection = c) ∧
      ((new .default).follow? [endlessPair.erase ⟨"t2"⟩]).map
        (fun run => (run.1.map Selection.connection, run.2.last)) =
          some ([some ⟨"t1"⟩], some ⟨"t1"⟩) ∧
      (endlessPair.get? ⟨"t1"⟩).any Path.isValid = true ∧
      ((new .default).follow? [endlessPair.erase ⟨"t2"⟩, endlessPair]).isNone = true := by
  refine ⟨OrderedMap.forall_get?_iff.2 (by decide +kernel), ?_, ?_, ?_⟩ <;> decide +kernel

end Selector

end RouteKeeper
