import RouteKeeper.Proofs.PreferDirect

/-!
# What the reason of a selection says

The reason of a selection is about the path that was selected before, but the selection itself may
be decided against another one: a selector that prefers the direct path measures the best path
against that. So a reason comes from the policy where the path selected before is the one that was
measured against, and else from a plain comparison of the two paths. Both tell the same for the same
paths, and only the first promises that the thresholds of the policy are met.

## Main definitions

* `Path.AnswersSooner` — both paths answer, and the first is sooner.

## Main statements

* `Policy.eq_between_of_improvement` — a reason of the policy is what the plain comparison says.
* `Selector.explain_choose` — the reason is the plain comparison, whatever the strategy.
* `Selector.improvement_or_direct` — for which changes the thresholds are met.
* `Selector.reason_follow` — each reason, in a run over maps that change in any way.
-/
namespace RouteKeeper

variable {less : Loss → Loss → Bool}

/-- Both paths answer, and the first is sooner. -/
def Path.AnswersSooner (c l : Path) : Prop :=
  l.window.latency.isZero = false ∧ c.window.latency.isZero = false ∧
    c.window.latency < l.window.latency

theorem Path.not_answersSooner_self (l : Path) : ¬ l.AnswersSooner l :=
  fun h => Nat.lt_irrefl _ h.2.2

/-! ## The plain comparison -/

namespace Reason

variable {l c : Path}

theorem between_of_less (h : less c.window.loss l.window.loss = true) :
    between less l c = .lossImproved l.window.loss.share c.window.loss.share := if_pos h

theorem between_of_sooner (h : less c.window.loss l.window.loss = false)
    (hsooner : c.AnswersSooner l) :
    between less l c = .latencyImproved l.window.latency c.window.latency := by
  obtain ⟨hold, hnew, hlt⟩ := hsooner
  simp [between, h, hold, hnew, hlt]

theorem between_of_not_sooner (h : less c.window.loss l.window.loss = false)
    (hsooner : ¬ c.AnswersSooner l) : between less l c = .newRoute := by
  rw [between, if_neg (by simp [h])]
  refine if_neg fun hboth => hsooner ?_
  simpa [Path.AnswersSooner, and_assoc] using hboth

/-- What the comparison of two paths says, case by case. -/
theorem between_iff (less : Loss → Loss → Bool) (l c : Path) :
    between less l c ≠ .unchanged ∧ (∀ loss, between less l c ≠ .deleted loss) ∧
    (between less l c = .newRoute ↔
      less c.window.loss l.window.loss = false ∧ ¬ c.AnswersSooner l) ∧
    (∀ old new, between less l c = .lossImproved old new ↔
      less c.window.loss l.window.loss = true ∧
        old = l.window.loss.share ∧ new = c.window.loss.share) ∧
    ∀ old new, between less l c = .latencyImproved old new ↔
      less c.window.loss l.window.loss = false ∧ c.AnswersSooner l ∧
        old = l.window.latency ∧ new = c.window.latency := by
  cases hless : less c.window.loss l.window.loss with
  | true =>
    rw [between_of_less hless]
    simp [eq_comm]
  | false =>
    by_cases hsooner : c.AnswersSooner l
    · rw [between_of_sooner hless hsooner]
      simp [hsooner, eq_comm]
    · rw [between_of_not_sooner hless hsooner]
      simp [hsooner]

end Reason

/-- Why a candidate replaces a reference is what the comparison of the two says. -/
theorem Policy.eq_between_of_improvement {policy : Policy} {l c : Path} {reason : Reason}
    (h : policy.improvement less l c = some reason) : reason = .between less l c := by
  unfold improvement at h
  split at h
  case isTrue hless =>
    cases h
    exact (Reason.between_of_less hless).symm
  case isFalse hmore =>
    split at h
    case isTrue => cases h
    case isFalse =>
      simp only at h
      split at h
      case isTrue => cases h
      case isFalse hknown =>
        split at h
        case isFalse => cases h
        case isTrue =>
          cases h
          simp only [Bool.or_eq_true, decide_eq_true_eq, not_or, Bool.not_eq_true] at hmore hknown
          obtain ⟨⟨hold, hnew⟩, hsooner⟩ := hknown
          exact (Reason.between_of_sooner hmore ⟨hold, hnew, Nat.lt_of_not_le hsooner⟩).symm

/-! ## Selections -/

namespace Selector

variable {s : Selector} {paths : Paths} {best l : Path}

/-- A reference that is not selected is left for the best path, for a reason of the policy. -/
theorem improvement_of_reference {r : Path} (hreference : s.reference paths = some r)
    (hleft : (s.choose less paths best).1.connection ≠ r.connection) :
    ∃ reason, s.choose less paths best = (best, some reason) ∧
      s.policy.improvement less r best = some reason := by
  simp only [choose, hreference] at hleft ⊢
  split at hleft
  case isTrue => exact absurd rfl hleft
  case isFalse hne =>
    rw [if_neg hne]
    cases himprovement : s.policy.improvement less r best with
    | none =>
      rw [himprovement] at hleft
      exact absurd rfl hleft
    | some reason => exact ⟨reason, rfl, rfl⟩

section Remembered

variable (hkeyed : ∀ c p, paths.get? c = some p → p.connection = c)
  (hl : s.remembered paths = some l)

include hkeyed hl

/-- The reason is no change for the connection of the remembered path, and else what the comparison
with that path says, whatever the best path was measured against. -/
theorem explain_choose (best : Path) :
    s.explain less paths (s.choose less paths best).1 (s.choose less paths best).2 =
      if l.connection = (s.choose less paths best).1.connection then .unchanged
      else .between less l (s.choose less paths best).1 := by
  simp only [explain, hl]
  split
  case isTrue => rfl
  case isFalse hne =>
    split
    case h_2 => rfl
    case h_1 r reason hreference hreplacing =>
      split
      case isFalse => rfl
      case isTrue hr =>
        -- The remembered path is the one that was measured against.
        obtain ⟨hget, -⟩ := isValid_of_reference hkeyed hreference
        obtain ⟨-, hlast, -⟩ := (remembered_eq_some_iff hkeyed).1 hl
        rw [hr, hlast] at hget
        obtain rfl := Option.some.inj hget
        obtain ⟨reason', hchoose, himprovement⟩ :=
          improvement_of_reference hreference (Ne.symm hne)
        rw [hchoose] at hreplacing ⊢
        obtain rfl := Option.some.inj hreplacing
        exact Policy.eq_between_of_improvement himprovement

variable (hbest : Path.best less paths.values = some best)

include hbest

/-- The path to select is the remembered one if it has its connection. -/
theorem choose_eq_iff :
    (s.choose less paths best).1 = l ↔
      l.connection = (s.choose less paths best).1.connection := by
  constructor
  · intro hsame
    rw [hsame]
  · intro hsame
    obtain ⟨hget, -⟩ := isValid_choose hkeyed hbest s
    obtain ⟨-, hlast, -⟩ := (remembered_eq_some_iff hkeyed).1 hl
    rw [← hsame, hlast] at hget
    exact (Option.some.inj hget).symm

/-- Where the remembered path is left, it is for a reason of the policy; unless the best path was
measured against the direct one, and that, or the path that replaces it, is selected. -/
theorem improvement_or_direct (hleft : (s.choose less paths best).1 ≠ l) :
    s.policy.improvement less l (s.choose less paths best).1 =
        some (.between less l (s.choose less paths best).1) ∨
      ∃ d, s.policy.strategy = .preferDirect ∧ paths.direct? = some d ∧ d ≠ l ∧
        ((s.choose less paths best).1 = d ∨
          ∃ reason, s.policy.improvement less d (s.choose less paths best).1 = some reason) := by
  have hmeasured : s.reference paths = some l →
      s.policy.improvement less l (s.choose less paths best).1 =
        some (.between less l (s.choose less paths best).1) := by
    intro hreference
    have hne := mt (choose_eq_iff hkeyed hl hbest).2 hleft
    obtain ⟨reason, hchoose, himprovement⟩ := improvement_of_reference hreference (Ne.symm hne)
    rw [hchoose, himprovement, Policy.eq_between_of_improvement himprovement]
  cases hstrategy : s.policy.strategy with
  | lowestLatency => exact .inl (hmeasured ((reference_of_lowestLatency hstrategy).trans hl))
  | preferDirect =>
    have hreference := reference_preferDirect hstrategy hkeyed
    cases hdirect : paths.direct? with
    | none =>
      rw [hdirect, Option.none_or, hl] at hreference
      exact .inl (hmeasured hreference)
    | some d =>
      rw [hdirect, Option.some_or] at hreference
      by_cases hd : d = l
      · exact .inl (hmeasured (hd ▸ hreference))
      · refine .inr ⟨d, rfl, rfl, hd, ?_⟩
        by_cases hkept : (s.choose less paths best).1.connection = d.connection
        · obtain ⟨hget, -⟩ := isValid_choose hkeyed hbest s
          obtain ⟨hgetd, -⟩ := isValid_of_reference hkeyed hreference
          rw [hkept, hgetd] at hget
          exact .inl (Option.some.inj hget).symm
        · obtain ⟨reason, hchoose, himprovement⟩ := improvement_of_reference hreference hkept
          exact .inr ⟨reason, by rw [hchoose]; exact himprovement⟩

end Remembered

/-- What the reason of a selection by doubles says, case by case. -/
theorem explain_choose_iff (hkeyed : ∀ c p, paths.get? c = some p → p.connection = c)
    (hl : s.remembered paths = some l)
    (hbest : Path.best Loss.lessShare paths.values = some best) {c : Path} {reason : Reason}
    (hc : (s.choose Loss.lessShare paths best).1 = c)
    (hreason : s.explain Loss.lessShare paths (s.choose Loss.lessShare paths best).1
      (s.choose Loss.lessShare paths best).2 = reason) :
    (reason = .unchanged ↔ c = l) ∧
    (reason = .newRoute ↔ c ≠ l ∧ ¬ c.window.loss.share.toFloat < l.window.loss.share.toFloat ∧
      ¬ c.AnswersSooner l) ∧
    (∀ old new, reason = .lossImproved old new ↔
      c.window.loss.share.toFloat < l.window.loss.share.toFloat ∧
        old = l.window.loss.share ∧ new = c.window.loss.share) ∧
    (∀ old new, reason = .latencyImproved old new ↔
      ¬ c.window.loss.share.toFloat < l.window.loss.share.toFloat ∧ c.AnswersSooner l ∧
        old = l.window.latency ∧ new = c.window.latency) ∧
    (c ≠ l → s.policy.Leaves l c reason ∨
      ∃ d, s.policy.strategy = .preferDirect ∧ paths.direct? = some d ∧ d ≠ l ∧
        (c = d ∨ ∃ reason, s.policy.Leaves d c reason)) := by
  have hsame := choose_eq_iff hkeyed hl hbest
  have hleft := improvement_or_direct hkeyed hl hbest
  rw [explain_choose hkeyed hl] at hreason
  rw [hc] at hsame hleft hreason
  simp only [← Window.lessShare_iff, Bool.not_eq_true, ← Policy.improvement_eq_some_iff]
  by_cases hcl : c = l
  · rw [if_pos (hsame.1 hcl)] at hreason
    have hself := Window.compares_lessShare.irrefl l.window
    simp [← hreason, hcl, Path.not_answersSooner_self, hself]
  · rw [if_neg (mt hsame.2 hcl)] at hreason
    obtain ⟨hunchanged, -, hnew, hloss, hlatency⟩ := Reason.between_iff Loss.lessShare l c
    rw [← hreason]
    exact ⟨iff_of_false hunchanged hcl, hnew.trans (by simp [hcl]), hloss, hlatency,
      fun _ => hleft hcl⟩

/-- Whatever the reason of the path to select, it is not that nothing is selected. -/
theorem explain_choose_ne_deleted (hkeyed : ∀ c p, paths.get? c = some p → p.connection = c)
    (best : Path) (loss : Option Double) :
    s.explain less paths (s.choose less paths best).1 (s.choose less paths best).2 ≠
      .deleted loss := by
  cases hl : s.remembered paths with
  | none => simp [explain, hl]
  | some l =>
    rw [explain_choose hkeyed hl]
    split
    case isTrue => simp
    case isFalse => exact (Reason.between_iff less l _).2.1 loss

theorem isDelete_iff (hkeyed : ∀ c p, paths.get? c = some p → p.connection = c) :
    (s.select less paths).1.isDelete = true ↔
      ∃ loss, (s.select less paths).1.reason = .deleted loss := by
  cases s.outcome less paths with
  | none _ hselect =>
    rw [hselect]
    exact iff_of_true rfl ⟨_, rfl⟩
  | tornDown _ _ _ hselect =>
    rw [hselect]
    exact iff_of_true rfl ⟨_, rfl⟩
  | selected best _ _ hselect =>
    rw [hselect]
    refine iff_of_false (fun hdelete => ?_) fun ⟨loss, hreason⟩ => ?_
    · cases hdelete
    · exact explain_choose_ne_deleted hkeyed best loss hreason

/-- The reason is no change exactly if the connection that is selected is the remembered one. -/
theorem reason_eq_unchanged_iff (hkeyed : ∀ c p, paths.get? c = some p → p.connection = c) :
    (s.select less paths).1.reason = .unchanged ↔
      ∃ c, (s.select less paths).1.connection = some c ∧ s.last = some c := by
  cases s.outcome less paths with
  | none _ hselect =>
    rw [hselect]
    simp [Selection.deleted]
  | tornDown _ _ _ hselect =>
    rw [hselect]
    simp [Selection.deleted]
  | selected best hbest _ hselect =>
    rw [hselect]
    simp only [Option.some.injEq, exists_eq_left']
    obtain ⟨hget, hvalid⟩ := isValid_choose hkeyed hbest s
    cases hl : s.remembered paths with
    | none =>
      -- The path to select may be selected, so it would be remembered.
      have hlast : s.last ≠ some (s.choose less paths best).1.connection := by
        intro hlast
        rw [(remembered_eq_some_iff hkeyed).2 ⟨hlast, hget, hvalid⟩] at hl
        cases hl
      simp [explain, hl, hlast]
    | some l =>
      obtain ⟨hlast, -, -⟩ := (remembered_eq_some_iff hkeyed).1 hl
      rw [explain_choose hkeyed hl, hlast]
      split
      case isTrue hsame => simp [hsame]
      case isFalse hne => simp [hne, (Reason.between_iff less l _).1]

/-! ## Runs of selections -/

/-- The reason of the next selection of a run, where the run and the selection come out. It says
that nothing is selected exactly if that is so. Otherwise, a selected path without one to compare it
with is a new route; and against the path selected last that may still be selected, it is no change
exactly if it is that path, an improved loss exactly if it loses less, an improved latency exactly
if it loses no less and answers sooner, and a new route if neither speaks for it. The values told
are those of the two paths. What is left is left for a reason of the policy, with its thresholds
met, unless the policy prefers the direct path, this is another path that may be selected, and it
was decided against that one. -/
theorem reason_follow (s : Selector) (earlier : List Paths)
    (hkeyed : ∀ c p, paths.get? c = some p → p.connection = c) :
    (s.follow? earlier = none ↔ ∃ paths ∈ earlier, ¬ Path.Comparable paths.values) ∧
    ∀ outcomes now, s.follow? earlier = some (outcomes, now) →
      (now.select? paths = none ↔ ¬ Path.Comparable paths.values) ∧
      ∀ outcome s', now.select? paths = some (outcome, s') →
        (outcome.isDelete = true ↔ ∃ loss, outcome.reason = .deleted loss) ∧
        (outcome.isDelete = false → ∃ c, paths.get? c.connection = some c ∧ c.isValid = true ∧
          outcome.Selects c ∧
          ((∀ l, s.selectedLast outcomes = some l.connection → paths.get? l.connection = some l →
            l.isValid = false) → outcome.reason = .newRoute) ∧
          ∀ l, s.selectedLast outcomes = some l.connection → paths.get? l.connection = some l →
            l.isValid = true →
            (outcome.reason = .unchanged ↔ c = l) ∧
            (outcome.reason = .newRoute ↔ c ≠ l ∧
              ¬ c.window.loss.share.toFloat < l.window.loss.share.toFloat ∧ ¬ c.AnswersSooner l) ∧
            (∀ old new, outcome.reason = .lossImproved old new ↔
              c.window.loss.share.toFloat < l.window.loss.share.toFloat ∧
                old = l.window.loss.share ∧ new = c.window.loss.share) ∧
            (∀ old new, outcome.reason = .latencyImproved old new ↔
              ¬ c.window.loss.share.toFloat < l.window.loss.share.toFloat ∧ c.AnswersSooner l ∧
                old = l.window.latency ∧ new = c.window.latency) ∧
            (c ≠ l → s.policy.Leaves l c outcome.reason ∨
              ∃ d, s.policy.strategy = .preferDirect ∧ paths.direct? = some d ∧ d ≠ l ∧
                (c = d ∨ ∃ reason, s.policy.Leaves d c reason)) ∧
            (c ≠ l → l.window.average? = some l.window.latency ∧
              c.window.average? = some c.window.latency)) := by
  refine ⟨follow?_eq_none_iff, fun outcomes now hfollow => ⟨select?_eq_none_iff, ?_⟩⟩
  intro outcome s' hselected
  obtain ⟨hlast, hpolicy⟩ := last_of_follow? hfollow
  rw [← hlast, ← hpolicy]
  obtain ⟨hcomparable, hselected⟩ := select?_eq_some_iff.1 hselected
  obtain rfl : (now.select Loss.lessShare paths).1 = outcome := congrArg Prod.fst hselected
  refine ⟨isDelete_iff hkeyed, fun hkept => ?_⟩
  obtain ⟨best, hbest, houtcome⟩ := select_eq_of_not_isDelete hkept
  have hreason : (now.select Loss.lessShare paths).1.reason = now.explain Loss.lessShare paths
      (now.choose Loss.lessShare paths best).1 (now.choose Loss.lessShare paths best).2 :=
    congrArg Selection.reason houtcome
  obtain ⟨hget, hvalid⟩ := isValid_choose hkeyed hbest now
  refine ⟨_, hget, hvalid, ⟨congrArg Selection.address houtcome,
    congrArg Selection.connection houtcome⟩, fun hgone => ?_, fun l hlast hgetl hvalidl => ?_⟩
  · rw [hreason]
    simp only [explain, remembered_eq_none hkeyed hgone]
  · have hl := (remembered_eq_some_iff hkeyed).2 ⟨hlast, hgetl, hvalidl⟩
    obtain ⟨hsame, hnew, hloss, hlatency, hleft⟩ :=
      explain_choose_iff hkeyed hl hbest rfl hreason.symm
    refine ⟨hsame, hnew, hloss, hlatency, hleft, fun hne => ?_⟩
    exact average?_of_comparable hcomparable hgetl hvalidl hget hvalid
      fun hconnection => hne ((choose_eq_iff hkeyed hl hbest).2 hconnection)

/-- A tunnel, and the direct path, which answers in the given time. -/
def backAgain (direct : Duration) : Paths :=
  .ofList
    [(.direct, (Path.new ⟨.direct, "eth0", none, .v4 1⟩ ⟨"alpha"⟩ 1 1).record ⟨direct, false⟩),
      (⟨"t1"⟩, (Path.new ⟨⟨"t1"⟩, "wg-a", none, .v4 2⟩ ⟨"alpha"⟩ 1 0).record
        ⟨.clamp 30000000, false⟩)]

/-- A selector that prefers the direct path, and leaves it for any that answers sooner. -/
def eager : Selector := .new ⟨.preferDirect, 1, 1.0, .zero, 0⟩

/-- A selector that prefers the direct path, and leaves it for one that is sooner by ten
milliseconds. -/
def patient : Selector := .new ⟨.preferDirect, 1, 1.2, .clamp 10000000, 0⟩

/-- The direct path is back and answers as late as the tunnel: of the two, nothing speaks for it. -/
theorem reason_follow_backAgain :
    let paths := backAgain (.millis 30)
    (∀ c p, paths.get? c = some p → p.connection = c) ∧
      ∃ outcomes now outcome s', eager.follow? [paths.erase .direct] = some (outcomes, now) ∧
        now.select? paths = some (outcome, s') ∧
        ∃ l c, paths.get? ⟨"t1"⟩ = some l ∧ paths.get? .direct = some c ∧ outcome.Selects c ∧
          outcome.reason = .newRoute ∧
          ∃ d, paths.direct? = some d ∧ d ≠ l ∧
            (c = d ∨ ∃ reason, eager.policy.Leaves d c reason) := by
  intro paths
  have hkeyed : ∀ c p, paths.get? c = some p → p.connection = c :=
    OrderedMap.forall_get?_iff.2 (by decide +kernel)
  have htunnel : (paths.get? ⟨"t1"⟩).map (fun p => (p.isValid, p.window.loss, p.window.latency)) =
      some (true, ⟨0, 1⟩, .millis 30) := by decide +kernel
  have hdirect : (paths.get? .direct).map (fun p => (p.window.loss, p.window.latency)) =
      some (⟨0, 1⟩, .millis 30) := by decide +kernel
  obtain ⟨outcomes, now, hfollow, hlast, outcome, s', hselect, hmarks⟩ :=
    exists_of_follow? eager [paths.erase .direct] paths
      (fun outcome => (outcome.isDelete, outcome.connection)) (some ⟨"t1"⟩) (false, some .direct)
      (by decide +kernel)
  obtain ⟨hkept, hchosen⟩ := Prod.mk.inj hmarks
  obtain ⟨l, hl, hmarks⟩ := Option.map_eq_some_iff.1 htunnel
  simp only [Prod.mk.injEq] at hmarks
  obtain ⟨hvalid, hloss, hlatency⟩ := hmarks
  have hname := hkeyed _ l hl
  obtain ⟨-, hnext⟩ := reason_follow eager [paths.erase .direct] hkeyed
  obtain ⟨-, hselected⟩ := (hnext outcomes now hfollow).2 outcome s' hselect
  obtain ⟨c, hc, -, hselects, -, htells⟩ := hselected hkept
  have hcname : c.connection = .direct := Option.some.inj (hselects.2.symm.trans hchosen)
  rw [hcname] at hc
  rw [hc, Option.map_some, Option.some.injEq, Prod.mk.injEq] at hdirect
  obtain ⟨-, hnew, -, -, hleft, -⟩ := htells l (hname ▸ hlast) (hname ▸ hl) hvalid
  have hne : c ≠ l := by
    intro hsame
    rw [hsame, hname] at hcname
    exact absurd hcname (by decide)
  have hless : ¬ c.window.loss.share.toFloat < l.window.loss.share.toFloat := by
    rw [hdirect.1, hloss]
    decide +kernel
  have hlate : ¬ c.AnswersSooner l := by
    intro hsooner
    have hlt := hsooner.2.2
    rw [hdirect.2, hlatency] at hlt
    exact Nat.lt_irrefl _ hlt
  have hreason := hnew.2 ⟨hne, hless, hlate⟩
  refine ⟨hkeyed, outcomes, now, outcome, s', hfollow, hselect, l, c, hl, hc, hselects, hreason, ?_⟩
  rcases hleft hne with hleaves | ⟨d, -, hd⟩
  · rw [hreason] at hleaves
    cases hleaves
  · exact ⟨d, hd⟩

/-- The tunnel is selected while it is alone, and stays valid. The direct path is selected when it
is back: as a new route if it answers as late, and as an improved latency if it answers a
millisecond sooner, where the policy asks for ten. -/
theorem backAgain_tells :
    let late := backAgain (.millis 30)
    let sooner := backAgain (.millis 29)
    (late.get? ⟨"t1"⟩).any Path.isValid = true ∧ (sooner.get? ⟨"t1"⟩).any Path.isValid = true ∧
    (∃ outcomes now s', eager.follow? [late.erase .direct] = some (outcomes, now) ∧
      eager.selectedLast outcomes = some ⟨"t1"⟩ ∧
      now.select? late = some (⟨some (.v4 1), some .direct, .newRoute⟩, s')) ∧
    (∃ outcomes now s', patient.follow? [sooner.erase .direct] = some (outcomes, now) ∧
      patient.selectedLast outcomes = some ⟨"t1"⟩ ∧
      now.select? sooner =
        some (⟨some (.v4 1), some .direct, .latencyImproved (.millis 30) (.millis 29)⟩, s')) ∧
    ¬ (Duration.millis 30).minus (.millis 29) ≥ patient.policy.rerouteDiff := by
  intro late sooner
  obtain ⟨outcomes, now, hfollow, hlast, _, s', hselect, rfl⟩ :=
    exists_of_follow? eager [late.erase .direct] late id (some ⟨"t1"⟩)
      ⟨some (.v4 1), some .direct, .newRoute⟩ (by decide +kernel)
  obtain ⟨outcomes₂, now₂, hfollow₂, hlast₂, _, s₂, hselect₂, rfl⟩ :=
    exists_of_follow? patient [sooner.erase .direct] sooner id (some ⟨"t1"⟩)
      ⟨some (.v4 1), some .direct, .latencyImproved (.millis 30) (.millis 29)⟩ (by decide +kernel)
  exact ⟨by decide +kernel, by decide +kernel, ⟨outcomes, now, s', hfollow, hlast, hselect⟩,
    ⟨outcomes₂, now₂, s₂, hfollow₂, hlast₂, hselect₂⟩, by decide +kernel⟩

end Selector

end RouteKeeper
