import RouteKeeper.Proofs.Hysteresis

/-!
# Selections that are repeated

The first of several selections out of the same paths may move the memory, forget it, or lose it to
the limit of the policy, so that the second one takes another way than the first. It still comes out
the same: whichever path is selected then, the second selection finds it remembered; and where
nothing is selected, the loss that decided about it is the least one, whatever is remembered.

## Main definitions

* `Selection.again` — a selection as it comes out when it is made again.

## Main statements

* `Selector.loss_choose_eq` — the loss of the path to select depends on the paths alone.
* `Selector.select_again` — the second of two selections.
* `Selector.select_repeated` — any number of selections.
-/
namespace RouteKeeper

/-- The selection as it comes out when it is made again: nothing, for the same reason, or the same
path, which then is no change. -/
def Selection.again (s : Selection) : Selection :=
  if s.isDelete then s else { s with reason := .unchanged }

namespace Selection

theorem again_of_address {s : Selection} {a : Address} (h : s.address = some a) :
    s.again = { s with reason := .unchanged } := by
  rw [again, isDelete, h]
  rfl

@[simp] theorem again_again (s : Selection) : s.again.again = s.again := by
  cases h : s.address with
  | none =>
    have hdelete : s.again = s := by
      rw [again, isDelete, h]
      rfl
    rw [hdelete, hdelete]
  | some a =>
    rw [again_of_address h]
    exact again_of_address h

end Selection

namespace Selector

variable {less : Loss → Loss → Bool} {paths : Paths} {capacity : Nat}

section Repeated

variable (hless : Window.Compares less) (hcounts : Window.CountsHits less capacity)
  (hkeyed : ∀ c p, paths.get? c = some p → p.connection = c)
  (hcapacity : ∀ c p, paths.get? c = some p → p.window.capacity = capacity)

include hless hcounts hkeyed hcapacity

/-- Out of paths with windows of one size, all selectors would select a path of the same loss. -/
theorem loss_choose_eq {best : Path} (hbest : Path.best less paths.values = some best)
    (s s' : Selector) :
    (s'.choose less paths best).1.window.loss = (s.choose less paths best).1.window.loss := by
  have hloss : ∀ s : Selector, (s.choose less paths best).1.window.loss =
      ⟨(s.choose less paths best).1.window.lossHits, capacity⟩ := by
    intro s
    obtain ⟨hget, -⟩ := isValid_choose hkeyed hbest s
    rw [Window.loss, hcapacity _ _ hget]
  have hleast := lossHits_choose (s := s) hless hcounts hkeyed hcapacity hbest
  rw [lossHits_choose (s := s') hless hcounts hkeyed hcapacity hbest] at hleast
  rw [hloss s, hloss s', Option.some.inj hleast]

/-- A selection that is made again. -/
theorem select_again (s : Selector) :
    (s.select less paths).2.select less paths =
      ((s.select less paths).1.again, (s.select less paths).2) := by
  cases s.outcome less paths with
  | none hbest hselect =>
    rw [hselect]
    exact select_of_best_eq_none hbest
  | tornDown best hbest htorn hselect =>
    -- Without a memory another path may be the one to select, but it loses as much.
    have hloss := loss_choose_eq hless hcounts hkeyed hcapacity hbest s s.reset
    have htorn' : s.reset.TearsDown (s.reset.choose less paths best).1 := by
      rw [TearsDown, Window.lossReaches, hloss]
      exact htorn
    rw [hselect, select_of_tearsDown hbest htorn', hloss]
    rfl
  | selected best hbest hkept hselect =>
    have hchosen := choose_of_last hkeyed hbest s
    obtain ⟨hget, hvalid⟩ := isValid_choose hkeyed hbest s
    rw [hselect]
    generalize (s.choose less paths best).1 = chosen at hkept hchosen hget hvalid ⊢
    have hremembered : ({ s with last := some chosen.connection } : Selector).remembered paths =
        some chosen := (remembered_eq_some_iff hkeyed).2 ⟨rfl, hget, hvalid⟩
    have hkept' : ¬ ({ s with last := some chosen.connection } : Selector).TearsDown
        (({ s with last := some chosen.connection } : Selector).choose less paths best).1 := by
      rw [hchosen]
      exact hkept
    rw [select_of_not_tearsDown hbest hkept', hchosen, Selection.again_of_address rfl]
    simp only [explain, hremembered, if_true]

end Repeated

/-- Selections out of the same paths, any number of them, with windows of one size, whose rounds the
doubles count. All come out exactly if the best path can be found. All after the first select what
the first one selected, without a change, or nothing for the same loss; and the selector stays as
the first one left it. -/
theorem select_repeated (hkeyed : ∀ c p, paths.get? c = some p → p.connection = c)
    (hcapacity : ∀ c p, paths.get? c = some p → p.window.capacity = capacity)
    (hcounts : Window.CountsHits Loss.lessShare capacity) (s : Selector) (n : Nat) :
    (s.select? paths = none ↔ ¬ Path.Comparable paths.values) ∧
      (s.follow? (List.replicate (n + 1) paths) = none ↔ ¬ Path.Comparable paths.values) ∧
      ∀ outcome s', s.select? paths = some (outcome, s') →
        s.follow? (List.replicate (n + 1) paths) =
          some (outcome :: List.replicate n outcome.again, s') := by
  refine ⟨select?_eq_none_iff, ?_, ?_⟩
  · simp [follow?_eq_none_iff]
  · induction n generalizing s with
    | zero =>
      intro outcome s' hselect
      exact follow?_cons_eq_some_iff.2 ⟨outcome, s', [], hselect, rfl, rfl⟩
    | succ n ih =>
      intro outcome s' hselect
      obtain ⟨hcomparable, hselected⟩ := select?_eq_some_iff.1 hselect
      have hagain := select_again Window.compares_lessShare hcounts hkeyed hcapacity s
      rw [hselected] at hagain
      have hfollow := ih s' outcome.again s' (select?_eq_some_iff.2 ⟨hcomparable, hagain⟩)
      rw [Selection.again_again] at hfollow
      rw [List.replicate_succ, List.replicate_succ]
      exact follow?_cons_eq_some_iff.2 ⟨outcome, s', _, hselect, hfollow, rfl⟩

/-- A limit of half of the rounds, which both paths lose; the first path is remembered. -/
def strict : Selector := ⟨{ Policy.default with deleteThreshold := 50 }, some ⟨"t1"⟩⟩

/-- The first selection forgets the path; the ones after it select nothing for the same loss. -/
theorem select_repeated_lossyPair :
    (∀ c p, lossyPair.get? c = some p → p.connection = c) ∧
      (∀ c p, lossyPair.get? c = some p → p.window.capacity = 2) ∧
      Window.CountsHits Loss.lessShare 2 ∧
      ∃ s', strict.follow? (List.replicate 3 lossyPair) =
        some (List.replicate 3 (.deleted (some (Loss.mk 1 2).share)), s') ∧ s'.last = none := by
  have hkeyed : ∀ c p, lossyPair.get? c = some p → p.connection = c :=
    OrderedMap.forall_get?_iff.2 (by decide +kernel)
  have hcapacity : ∀ c p, lossyPair.get? c = some p → p.window.capacity = 2 :=
    OrderedMap.forall_get?_iff.2 (by decide +kernel)
  have hcounts : Window.CountsHits Loss.lessShare 2 := Window.countsHits_lessShare (by decide)
  have hcomparable : Path.Comparable lossyPair.values := by decide +kernel
  have hleast : lossyPair.leastHits = some 1 := by decide +kernel
  obtain ⟨outcome, s', hselect⟩ := exists_select?_eq (s := strict) hcomparable
  obtain ⟨-, -, hselected⟩ :=
    (select_of_leastHits strict hkeyed hcapacity hcounts).2 outcome s' hselect
  have htorn := hselected 1 hleast
  rw [if_pos (by decide)] at htorn
  obtain ⟨rfl, hlast⟩ := htorn
  obtain ⟨-, -, hrepeated⟩ := select_repeated hkeyed hcapacity hcounts strict 2
  exact ⟨hkeyed, hcapacity, hcounts, s', hrepeated _ s' hselect, hlast⟩

/-! ### More slots than doubles count -/

/-- A window of `2 ^ 54 + 2` slots whose first rounds were lost, and the others not made. -/
def vastWindow (lost : Nat) (h : lost < 2 ^ 54 + 2) : Window where
  capacity := 2 ^ 54 + 2
  slots := Array.replicate lost ⟨.zero, true⟩
  next := lost
  recorded := lost
  next_lt := h
  size_le := by
    rw [Array.size_replicate]
    exact Nat.le_of_lt h
  next_eq := fun _ => Array.size_replicate.symm
  recorded_lt := Nat.lt_trans h (by decide)

/-- A path with such a window. -/
def vastPath (name : String) (lost : Nat) (h : lost < 2 ^ 54 + 2) : Path :=
  { Path.new ⟨⟨name⟩, "wg-a", none, .v4 1⟩ ⟨"alpha"⟩ 1 0 with window := vastWindow lost h }

section

variable {lost : Nat} (h : lost < 2 ^ 54 + 2)

theorem loss_vastWindow : (vastWindow lost h).loss = ⟨lost, 2 ^ 54 + 2⟩ := by
  have hhits : (vastWindow lost h).lossHits = lost := by
    simp [vastWindow, Window.lossHits, List.countP_replicate]
  rw [Window.loss, hhits]
  rfl

theorem answered_vastWindow : (vastWindow lost h).answered = [] := by
  simp [vastWindow, Window.answered, Duration.isZero, Duration.zero]

theorem incomplete_vastWindow : (vastWindow lost h).incomplete = true := by
  simp only [vastWindow, Window.incomplete, Array.size_replicate, h, decide_true, Bool.true_or]

theorem latency_vastWindow : (vastWindow lost h).latency = .zero := by
  rw [Window.latency, answered_vastWindow]
  rfl

theorem hasAverage_vastWindow : (vastWindow lost h).HasAverage := by
  rw [Window.HasAverage, answered_vastWindow]
  decide

end

/-- The first path lost a round less than the half, the second one just the half. -/
def underHalf : Path := vastPath "t1" (2 ^ 53) (by decide)

/-- The path that lost half of its rounds. -/
def half : Path := vastPath "t2" (2 ^ 53 + 1) (by decide)

/-- Both of them. -/
def vastPair : Paths := .ofList [(⟨"t1"⟩, underHalf), (⟨"t2"⟩, half)]

theorem share_underHalf : underHalf.window.loss.share = half.window.loss.share := by
  simp only [underHalf, half, vastPath, loss_vastWindow]
  decide +kernel

theorem best_vastPair : Path.best Loss.lessShare vastPair.values = some underHalf := by
  have hvalid : vastPair.values.filter Path.isValid = [underHalf, half] := rfl
  have hrank : half.latencyRank = underHalf.latencyRank := by
    simp only [Path.latencyRank, underHalf, half, vastPath, latency_vastWindow]
  have hnot : half.isBetter Loss.lessShare underHalf = false := by
    obtain ⟨-, hnot⟩ := Window.lessShare_eq_false_and_iff.2 share_underHalf
    have hlater : underHalf.latencyRank ≤ half.latencyRank :=
      (Duration.le_iff _ _).2 (Nat.le_of_eq (congrArg Duration.nanos hrank.symm))
    exact Path.isBetter_eq_false_iff.2 ⟨hnot, .inr hlater⟩
  rw [Path.best, hvalid, firstLeast, List.foldl_cons, List.foldl_nil, keepLess, hnot,
    if_neg Bool.false_ne_true]

theorem keyed_vastPair : ∀ c p, vastPair.get? c = some p →
    p.connection = c ∧ p.window.capacity = 2 ^ 54 + 2 := by
  refine OrderedMap.forall_get?_iff.2 ?_
  have hentries : vastPair.entries = [(⟨"t1"⟩, underHalf), (⟨"t2"⟩, half)] := rfl
  rw [hentries]
  intro e he
  rcases List.mem_cons.1 he with rfl | he
  · exact ⟨rfl, rfl⟩
  · rw [List.mem_singleton.1 he]
    exact ⟨rfl, rfl⟩

/-- Half of the rounds is the limit of the policy. The two paths lose the same double, but only the
remembered one reaches the limit, so nothing is selected at first; then the other one is. -/
theorem follow?_vastPair :
    ∃ first second s',
      ({ strict with last := some ⟨"t2"⟩ } : Selector).follow? [vastPair, vastPair] =
        some ([first, second], s') ∧ first.isDelete = true ∧ second.isDelete = false := by
  have hcomparable : Path.Comparable vastPair.values := by
    refine .inr fun p hp _ => ?_
    have hvalues : vastPair.values = [underHalf, half] := rfl
    rw [hvalues, List.mem_cons, List.mem_singleton] at hp
    rcases hp with rfl | rfl <;> exact hasAverage_vastWindow _
  generalize hs : ({ strict with last := some ⟨"t2"⟩ } : Selector) = s
  have hstrategy : s.policy.strategy = .lowestLatency := hs ▸ rfl
  have hthreshold : s.policy.deleteThreshold = 50 := hs ▸ rfl
  have hremembered : s.remembered vastPair = some half := hs ▸ rfl
  have hhalf : half.window.loss = ⟨2 ^ 53 + 1, 2 ^ 54 + 2⟩ := loss_vastWindow _
  have hunder : underHalf.window.loss = ⟨2 ^ 53, 2 ^ 54 + 2⟩ := loss_vastWindow _
  have htorn : s.TearsDown half := by
    rw [TearsDown, Window.lossReaches, hhalf, hthreshold]
    decide
  have hkept : ¬ s.reset.TearsDown underHalf := by
    have hreset : s.reset.policy = s.policy := rfl
    rw [TearsDown, Window.lossReaches, hunder, hreset, hthreshold]
    decide
  have hchosen : (s.choose Loss.lessShare vastPair underHalf).1 = half := by
    refine (choose_of_not_leaves hstrategy hremembered ?_).1
    rintro reason (hless | ⟨-, hcomplete, -⟩)
    · exact Window.lessShare_eq_false_iff.1
        (Window.lessShare_eq_false_and_iff.2 share_underHalf).1 hless
    · rw [underHalf, vastPath, incomplete_vastWindow] at hcomplete
      cases hcomplete
  have hchosen' : (s.reset.choose Loss.lessShare vastPair underHalf).1 = underHalf :=
    (choose_of_forgotten (s := s.reset) hstrategy rfl underHalf).1
  have hfirst := select_of_tearsDown best_vastPair (hchosen.symm ▸ htorn)
  have hsecond := select_of_not_tearsDown best_vastPair (hchosen'.symm ▸ hkept)
  have hlater : s.reset.follow? [vastPair] = some _ := follow?_cons_eq_some_iff.2
    ⟨_, _, _, select?_eq_some_iff.2 ⟨hcomparable, hsecond⟩, rfl, rfl⟩
  exact ⟨_, _, _, follow?_cons_eq_some_iff.2
    ⟨_, _, _, select?_eq_some_iff.2 ⟨hcomparable, hfirst⟩, hlater, rfl⟩, rfl, rfl⟩

/-- Out of one map two selections need not come out alike, and need not come out at all. Where the
averages of two paths cannot be formed, none comes out; and where there are more slots than doubles
count, only the first one may find the limit reached. -/
theorem not_select_repeated :
    ((∀ c p, endlessPair.get? c = some p → p.connection = c ∧ p.window.capacity = 2) ∧
      strict.follow? [endlessPair, endlessPair] = none) ∧
    (∀ c p, vastPair.get? c = some p → p.connection = c ∧ p.window.capacity = 2 ^ 54 + 2) ∧
      ∃ first second s',
        ({ strict with last := some ⟨"t2"⟩ } : Selector).follow? [vastPair, vastPair] =
          some ([first, second], s') ∧ first.isDelete = true ∧ second.isDelete = false := by
  refine ⟨⟨OrderedMap.forall_get?_iff.2 (by decide +kernel), ?_⟩, keyed_vastPair, follow?_vastPair⟩
  exact follow?_eq_none_iff.2 ⟨endlessPair, by simp, by decide +kernel⟩

end Selector

end RouteKeeper
