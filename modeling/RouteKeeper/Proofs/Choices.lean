import RouteKeeper.Proofs.FirstLeast
import RouteKeeper.Proofs.Turns

/-!
# What a choice depends on

A selection, and the connection that a service should go through, depend on the candidates only: the
paths that may be selected, without their routes. A selection that is made again from the same
candidates comes out the same.

## Main definitions

* `Paths.candidates` — the paths that may be selected, without their routes.

## Main statements

* `select_candidates`, `desired_candidates` — choices depend on the candidates only.
* `select_select` — a selection made again comes out the same.
-/
namespace RouteKeeper

variable {less : Loss → Loss → Bool}

/-! ## Candidates -/

/-- The paths that may be selected, without their routes. -/
def Paths.candidates (paths : Paths) : Paths :=
  (paths.filter fun _ p => p.isValid).map Path.bare

namespace Path

@[simp] theorem window_bare (p : Path) : p.bare.window = p.window := rfl

@[simp] theorem address_bare (p : Path) : p.bare.address = p.address := rfl

@[simp] theorem isValid_bare (p : Path) : p.bare.isValid = p.isValid := rfl

@[simp] theorem isBetter_bare (p q : Path) :
    p.bare.isBetter less q.bare = p.isBetter less q := rfl

@[simp] theorem bare_bare (p : Path) : p.bare.bare = p.bare := rfl

/-- The best path is the best of those that may be selected. -/
theorem best_candidates (l : List Path) :
    best less ((l.filter isValid).map bare) = (best less l).map bare := by
  have hfilter : ((l.filter isValid).map bare).filter isValid = (l.filter isValid).map bare := by
    rw [List.filter_map, List.filter_filter]
    congr 1
    refine List.filter_congr fun p _ => ?_
    simp
  rw [best, hfilter, firstLeast_map isBetter_bare, best]

theorem isValid_of_best {l : List Path} {p : Path} (h : best less l = some p) :
    p ∈ l ∧ p.isValid = true := by
  have hp := mem_of_firstLeast_eq_some _ h
  rw [List.mem_filter] at hp
  exact hp

end Path

namespace Paths

variable (paths : Paths)

theorem get?_candidates (c : ConnectionName) :
    paths.candidates.get? c = ((paths.get? c).filter Path.isValid).map Path.bare := by
  rw [candidates, OrderedMap.get?_map, OrderedMap.get?_filter]

theorem values_candidates :
    paths.candidates.values = (paths.values.filter Path.isValid).map Path.bare := by
  simp only [candidates, OrderedMap.values, OrderedMap.map, OrderedMap.mapWithKey,
    OrderedMap.filter, List.map_map, List.filter_map]
  rfl

theorem best_values_candidates :
    Path.best less paths.candidates.values = (Path.best less paths.values).map Path.bare := by
  rw [values_candidates, Path.best_candidates]

end Paths

/-! ## Selections -/

theorem Loss.reaches_of_less_eq_false {a b : Loss} (h : b.less a = false) (ha : 0 < a.slots)
    {percent : Nat} (hreaches : a.reaches percent = true) : b.reaches percent = true := by
  simp only [less, decide_eq_false_iff_not, Nat.not_lt] at h
  simp only [reaches, decide_eq_true_eq] at hreaches ⊢
  refine Nat.le_of_mul_le_mul_right ?_ ha
  calc percent * b.slots * a.slots
      = percent * a.slots * b.slots := Nat.mul_right_comm ..
    _ ≤ a.hits * 100 * b.slots := Nat.mul_le_mul_right _ hreaches
    _ = a.hits * b.slots * 100 := Nat.mul_right_comm ..
    _ ≤ b.hits * a.slots * 100 := Nat.mul_le_mul_right _ h
    _ = b.hits * 100 * a.slots := Nat.mul_right_comm ..

/-- A path that should not replace another loses no fewer rounds. -/
theorem Policy.less_of_improvement_eq_none {policy : Policy} {reference candidate : Path}
    (h : policy.improvement less reference candidate = none) :
    less candidate.window.loss reference.window.loss = false := by
  rw [← Bool.not_eq_true]
  intro hless
  simp [improvement, hless] at h

namespace Selector

variable (s : Selector) (paths : Paths)

theorem remembered_candidates :
    s.remembered paths.candidates = (s.remembered paths).map Path.bare := by
  rw [remembered, remembered]
  cases s.last with
  | none => rfl
  | some c =>
    simp only [Option.bind_some, Paths.get?_candidates]
    cases paths.get? c with
    | none => rfl
    | some p => cases hvalid : p.isValid <;> simp [Option.filter, hvalid]

theorem reference_candidates :
    s.reference paths.candidates = (s.reference paths).map Path.bare := by
  have hdirect : paths.candidates.values.find? (fun p => p.connection.isDirect && p.isValid) =
      (paths.values.find? fun p => p.connection.isDirect && p.isValid).map Path.bare := by
    rw [Paths.values_candidates, List.find?_map, List.find?_filter]
    congr 2
    funext p
    cases hvalid : p.isValid <;> simp [hvalid]
  simp only [reference]
  cases s.policy.strategy with
  | lowestLatency => exact s.remembered_candidates paths
  | preferDirect =>
    simp only [hdirect, remembered_candidates]
    cases paths.values.find? fun p => p.connection.isDirect && p.isValid <;> rfl

theorem choose_candidates (best : Path) :
    s.choose less paths.candidates best.bare =
      ((s.choose less paths best).1.bare, (s.choose less paths best).2) := by
  rw [choose, choose, reference_candidates]
  cases s.reference paths with
  | none => rfl
  | some r =>
    have himprovement : s.policy.improvement less r.bare best.bare =
        s.policy.improvement less r best := rfl
    by_cases hsame : r.connection = best.connection
    · simp [hsame]
    · simp only [Option.map_some, Path.connection_bare, himprovement, hsame, if_false]
      cases s.policy.improvement less r best <;> rfl

theorem explain_candidates (chosen : Path) (replacing : Option Reason) :
    s.explain less paths.candidates chosen.bare replacing =
      s.explain less paths chosen replacing := by
  rw [explain, explain, remembered_candidates, reference_candidates]
  cases s.remembered paths with
  | none => rfl
  | some l =>
    by_cases hsame : l.connection = chosen.connection
    · simp [hsame]
    · simp only [Option.map_some, Path.connection_bare, hsame, if_false]
      cases s.reference paths <;> cases replacing <;> rfl

/-- A selection looks at the candidates only. -/
theorem select_candidates : s.select less paths.candidates = s.select less paths := by
  rw [select, select, Paths.best_values_candidates]
  cases Path.best less paths.values with
  | none => rfl
  | some best =>
    simp only [Option.map_some, conclude, choose_candidates, explain_candidates, Path.window_bare,
      Path.address_bare, Path.connection_bare]

/-! ### Selections made again -/

variable {s paths} {best : Path}

theorem remembered_eq_some_iff (hkeyed : ∀ c p, paths.get? c = some p → p.connection = c)
    {l : Path} : s.remembered paths = some l ↔
      s.last = some l.connection ∧ paths.get? l.connection = some l ∧ l.isValid = true := by
  simp only [remembered, Option.filter_eq_some_iff, Option.bind_eq_some_iff]
  constructor
  · rintro ⟨⟨c, hlast, hget⟩, hvalid⟩
    rw [hkeyed c l hget]
    exact ⟨hlast, hget, hvalid⟩
  · rintro ⟨hlast, hget, hvalid⟩
    exact ⟨⟨_, hlast, hget⟩, hvalid⟩

theorem remembered_eq_none (hkeyed : ∀ c p, paths.get? c = some p → p.connection = c)
    (hgone : ∀ l, s.last = some l.connection → paths.get? l.connection = some l →
      l.isValid = false) : s.remembered paths = none := by
  cases hl : s.remembered paths with
  | none => rfl
  | some l =>
    obtain ⟨hlast, hget, hvalid⟩ := (remembered_eq_some_iff hkeyed).1 hl
    rw [hgone l hlast hget] at hvalid
    cases hvalid

/-- A path that is referred to is one of those that may be selected. -/
theorem isValid_of_reference (hkeyed : ∀ c p, paths.get? c = some p → p.connection = c) {r : Path}
    (h : s.reference paths = some r) : paths.get? r.connection = some r ∧ r.isValid = true := by
  have hremembered : s.remembered paths = some r →
      paths.get? r.connection = some r ∧ r.isValid = true :=
    fun h => ((remembered_eq_some_iff hkeyed).1 h).2
  unfold reference at h
  split at h
  case h_1 => exact hremembered h
  case h_2 =>
    rcases Option.or_eq_some_iff.1 h with hdirect | ⟨-, h⟩
    · have hvalid := List.find?_some hdirect
      obtain ⟨c, hget⟩ := OrderedMap.mem_values_iff.1 (List.mem_of_find?_eq_some hdirect)
      rw [hkeyed c r hget]
      exact ⟨hget, (Bool.and_eq_true_iff.1 hvalid).2⟩
    · exact hremembered h

/-- The path to select is the best one, or a reference that the best one should not replace. -/
theorem choose_cases (s : Selector) (paths : Paths) (best : Path) :
    (s.choose less paths best).1 = best ∨
      ∃ r, s.reference paths = some r ∧ (s.choose less paths best).1 = r ∧
        (r.connection = best.connection ∨ s.policy.improvement less r best = none) := by
  unfold choose
  split
  case h_1 => exact .inl rfl
  case h_2 r hreference =>
    split
    case isTrue hsame => exact .inr ⟨r, hreference, rfl, .inl hsame⟩
    case isFalse =>
      split
      case h_1 => exact .inl rfl
      case h_2 hnone => exact .inr ⟨r, hreference, rfl, .inr hnone⟩

theorem choose_congr {s' : Selector} (hpolicy : s'.policy = s.policy)
    (hreference : s'.reference paths = s.reference paths) :
    s'.choose less paths best = s.choose less paths best := by
  unfold choose
  rw [hpolicy, hreference]

/-- A memory of a path that may be selected is referred to, unless the memory is not asked. -/
theorem reference_of_last {c : Path} (hget : paths.get? c.connection = some c)
    (hvalid : c.isValid = true) :
    ({ s with last := some c.connection } : Selector).reference paths = s.reference paths ∨
      ({ s with last := some c.connection } : Selector).reference paths = some c := by
  have hremembered : ({ s with last := some c.connection } : Selector).remembered paths = some c :=
    Option.filter_eq_some_iff.2 ⟨hget, hvalid⟩
  simp only [reference, hremembered]
  cases s.policy.strategy with
  | lowestLatency => exact .inr rfl
  | preferDirect =>
    cases paths.values.find? fun p => p.connection.isDirect && p.isValid with
    | none => exact .inr rfl
    | some d => exact .inl rfl

/-- Without a memory there is no reference, unless the memory is not asked. -/
theorem reference_reset (s : Selector) (paths : Paths) :
    s.reset.reference paths = s.reference paths ∨ s.reset.reference paths = none := by
  have hremembered : s.reset.remembered paths = none := rfl
  have hpolicy : s.reset.policy = s.policy := rfl
  simp only [reference, hremembered, hpolicy]
  cases s.policy.strategy with
  | lowestLatency => exact .inr rfl
  | preferDirect =>
    cases paths.values.find? fun p => p.connection.isDirect && p.isValid with
    | none => exact .inr rfl
    | some d => exact .inl rfl

section Choose

variable (hkeyed : ∀ c p, paths.get? c = some p → p.connection = c)
  (hbest : Path.best less paths.values = some best)

include hkeyed hbest

/-- The best path is found under its connection. -/
theorem get?_best : paths.get? best.connection = some best := by
  obtain ⟨c, hget⟩ := OrderedMap.mem_values_iff.1 (Path.isValid_of_best hbest).1
  rwa [hkeyed c best hget]

theorem isValid_choose (s : Selector) :
    paths.get? (s.choose less paths best).1.connection = some (s.choose less paths best).1 ∧
      (s.choose less paths best).1.isValid = true := by
  rcases s.choose_cases paths best with hchosen | ⟨r, hreference, hchosen, -⟩
  · rw [hchosen]
    exact ⟨get?_best hkeyed hbest, (Path.isValid_of_best hbest).2⟩
  · rw [hchosen]
    exact isValid_of_reference hkeyed hreference

/-- The path that was selected is selected again. -/
theorem choose_of_last (s : Selector) :
    (({ s with last := some (s.choose less paths best).1.connection } : Selector).choose less paths
      best).1 = (s.choose less paths best).1 := by
  obtain ⟨hget, hvalid⟩ := isValid_choose hkeyed hbest s
  rcases reference_of_last (s := s) hget hvalid with hsame | hchosen
  · exact congrArg Prod.fst (choose_congr rfl hsame)
  · have hstays : (s.choose less paths best).1.connection = best.connection ∨
        s.policy.improvement less (s.choose less paths best).1 best = none := by
      rcases s.choose_cases paths best with h | ⟨r, -, h, hstays⟩
      · exact .inl (congrArg Path.connection h)
      · rwa [h]
    generalize (s.choose less paths best).1 = chosen at hchosen hstays
    rw [choose, hchosen]
    by_cases hsame : chosen.connection = best.connection
    · simp only [if_pos hsame]
    · have hnone := hstays.resolve_left hsame
      simp only [if_neg hsame, hnone]

end Choose

/-- If the path to select loses too much, so does the one to select without a memory. -/
theorem lossReaches_choose_reset (hkeyed : ∀ c p, paths.get? c = some p → p.connection = c)
    (hbest : Path.best Loss.less paths.values = some best) {percent : Nat}
    (h : (s.choose Loss.less paths best).1.window.lossReaches percent = true) :
    (s.reset.choose Loss.less paths best).1.window.lossReaches percent = true := by
  rcases s.reference_reset paths with hsame | hnone
  · have hpolicy : s.reset.policy = s.policy := rfl
    rwa [choose_congr hpolicy hsame]
  have hreset : (s.reset.choose Loss.less paths best).1 = best := by
    rw [choose, hnone]
  rw [hreset]
  obtain ⟨hget, -⟩ := isValid_choose hkeyed hbest s
  rcases s.choose_cases paths best with hchosen | ⟨r, hreference, hchosen, hsame | hstays⟩
  · rwa [hchosen] at h
  · rw [hchosen, hsame, get?_best hkeyed hbest] at hget
    rw [hchosen] at h
    rwa [Option.some.inj hget]
  · rw [hchosen] at h
    exact Loss.reaches_of_less_eq_false (Policy.less_of_improvement_eq_none hstays)
      r.window.capacity_pos h

/-- A selection made again comes out the same. -/
theorem select_select (hkeyed : ∀ c p, paths.get? c = some p → p.connection = c) (s : Selector) :
    ((s.select Loss.less paths).2.select Loss.less paths).1.address =
        (s.select Loss.less paths).1.address ∧
      ((s.select Loss.less paths).2.select Loss.less paths).1.connection =
        (s.select Loss.less paths).1.connection ∧
      ((s.select Loss.less paths).2.select Loss.less paths).2 = (s.select Loss.less paths).2 := by
  cases hbest : Path.best Loss.less paths.values with
  | none =>
    have hnone : ∀ s : Selector, s.select Loss.less paths = (.deleted none, s.reset) := by
      intro s
      simp only [select, conclude, hbest]
    rw [hnone, hnone]
    exact ⟨rfl, rfl, rfl⟩
  | some best =>
    cases hdeleted : (s.policy.deleteThreshold > 0 &&
      (s.choose Loss.less paths best).1.window.lossReaches s.policy.deleteThreshold : Bool) with
    | true =>
      have hselect : s.select Loss.less paths =
          (.deleted (some (s.choose Loss.less paths best).1.window.loss.share), s.reset) := by
        simp only [select, conclude, hbest, hdeleted, if_true]
      rw [Bool.and_eq_true] at hdeleted
      have hreaches := lossReaches_choose_reset hkeyed hbest hdeleted.2
      have hagain : s.reset.select Loss.less paths =
          (.deleted (some (s.reset.choose Loss.less paths best).1.window.loss.share), s.reset) := by
        have hpolicy : s.reset.policy = s.policy := rfl
        simp only [select, conclude, hbest, hpolicy, hdeleted.1, hreaches, Bool.and_self, if_true]
        rfl
      simp only [hselect, hagain, Selection.deleted, and_self]
    | false =>
      have hchosen := choose_of_last hkeyed hbest s
      simp only [select, conclude, hbest, hdeleted, Bool.false_eq_true, if_false, hchosen, and_self]

end Selector

namespace Group

variable {g g' : Group}

theorem usable_candidates (g : Group) (s : Service) :
    ({ g with paths := g.paths.candidates } : Group).usable s = g.usable s := by
  refine List.filter_congr fun c _ => ?_
  rw [Paths.get?_candidates]
  cases g.paths.get? c with
  | none => rfl
  | some p => cases hvalid : p.isValid <;> simp [Option.filter, hvalid]

/-- The connection that a service should go through depends on the candidates only. -/
theorem desired_candidates (g : Group) (s : Service) :
    ({ g with paths := g.paths.candidates } : Group).desired s = g.desired s := by
  have hbest : Path.best Loss.less ((g.usable s).filterMap g.paths.candidates.get?) =
      (Path.best Loss.less ((g.usable s).filterMap g.paths.get?)).map Path.bare := by
    rw [← Path.best_candidates]
    congr 1
    simp only [List.filter_filterMap, List.map_filterMap]
    refine List.filterMap_congr fun c _ => ?_
    rw [Paths.get?_candidates]
  simp only [desired, usable_candidates]
  rw [hbest]
  cases g.selection with
  | none => rfl
  | some selection =>
    simp only
    cases selection.connection.filter (g.usable s).contains with
    | some c => rfl
    | none =>
      simp only [Option.map_map]
      rfl

/-- Of a selection only the address and the connection count, of a service its candidates. -/
theorem desired_congr {s s' : Service} (hpaths : g'.paths.candidates = g.paths.candidates)
    (haddress : g'.selection.map Selection.address = g.selection.map Selection.address)
    (hconnection : g'.selection.map Selection.connection = g.selection.map Selection.connection)
    (hlive : s'.liveCandidates = s.liveCandidates) : g'.desired s' = g.desired s := by
  rw [← desired_candidates g', ← desired_candidates g]
  have husable : ({ g' with paths := g'.paths.candidates } : Group).usable s' =
      ({ g with paths := g.paths.candidates } : Group).usable s := by
    rw [usable, usable, hlive, hpaths]
  unfold desired
  rw [husable, hpaths]
  cases h : g.selection <;> cases h' : g'.selection <;> rw [h, h'] at haddress hconnection
  case none.some => cases haddress
  case some.none => cases haddress
  case some.some =>
    simp only [Option.map_some, Option.some.injEq] at haddress hconnection
    simp only [Selection.isDelete, haddress, hconnection]

/-- The connection that a service should go through has a path. -/
theorem exists_routeThrough (hkeyed : ∀ c p, g.paths.get? c = some p → p.connection = c)
    {s : Service} {c : ConnectionName} (h : g.desired s = some c) :
    ∃ route, g.routeThrough c = some route := by
  have hpath : ∃ p, g.paths.get? c = some p := by
    unfold desired at h
    split at h
    case h_1 => cases h
    case h_2 selection _ =>
      split at h
      case h_1 c' hc' =>
        cases h
        obtain ⟨-, husable⟩ := Option.filter_eq_some_iff.1 hc'
        have hmem : c ∈ g.usable s := by simpa using husable
        have hvalid := (List.mem_filter.1 hmem).2
        exact Option.isSome_iff_exists.1 (Option.isSome_of_any hvalid)
      case h_2 =>
        split at h
        case isTrue => cases h
        case isFalse =>
          obtain ⟨p, hbest, rfl⟩ := Option.map_eq_some_iff.1 h
          obtain ⟨c', -, hp⟩ := List.mem_filterMap.1 (Path.isValid_of_best hbest).1
          rw [hkeyed c' p hp]
          exact ⟨p, hp⟩
  obtain ⟨p, hp⟩ := hpath
  exact ⟨_, by rw [routeThrough, hp, Option.map_some]⟩

end Group

end RouteKeeper
