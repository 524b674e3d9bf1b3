import RouteKeeper.Proofs.History
import RouteKeeper.RouteTable.Memory

/-!
# Reconciliation settles all conflicts

Turns never change which claims there are nor which of them are disabled; only resolutions do. A
first resolution leaves, for each prefix, enabled claims of at most one group. A second one enables
what this group still has disabled. A third one finds nothing to do, whatever the table answers.

## Main definitions

* `Router.favourite` — the group that is to keep a prefix.
* `Router.Leans` — one group alone has enabled claims to a prefix, though perhaps not all of its.

## Main statements

* `holds_reconcileWith` — the group that is to keep a prefix after the first turns of all entries
  keeps it.
* `count_resolve_eq_zero` — nothing is resolved where every claimed prefix is held.
* `reconcileWith_settles` — a reconciliation ends settled.
-/
namespace RouteKeeper

variable {σ : Type}

namespace Router

/-- The group that is to keep a prefix. -/
def favourite (r : Router) (d : Prefix) : Option GroupName :=
  ((r.contests.get? d).bind winner).map Claim.group

/-- The group has enabled claims to the prefix, and no other group has any. -/
def Leans (r : Router) (n : GroupName) (d : Prefix) : Prop :=
  (∃ k c, r.claim? n k d = some c ∧ c.disabled = false) ∧
    ∀ m k c, r.claim? m k d = some c → c.disabled = false → m = n

/-! ## Claims and their holders -/

variable {r r' : Router} {n : GroupName} {d : Prefix}

theorem claimed_of_claim? (hk : r.Keyed) {k : Claimant} {c : Claim}
    (h : r.claim? n k d = some c) : r.Claimed d c := by
  obtain ⟨rfl, rfl⟩ := eq_of_claim?_eq_some hk h
  exact (claimed_iff hk).2 h

theorem exists_claimed_iff (hk : r.Keyed) :
    (∃ c, r.Claimed d c) ↔ ∃ n k, r.claim? n k d ≠ none := by
  constructor
  · rintro ⟨c, hc⟩
    refine ⟨c.group, c.claimant, ?_⟩
    rw [(claimed_iff hk).1 hc]
    exact Option.some_ne_none c
  · rintro ⟨n, k, h⟩
    obtain ⟨c, hc⟩ := Option.ne_none_iff_exists'.1 h
    exact ⟨c, claimed_of_claim? hk hc⟩

theorem holds_iff (hk : r.Keyed) :
    r.Holds n d ↔ (∃ k, r.claim? n k d ≠ none) ∧
      ∀ m k c, r.claim? m k d = some c → (c.disabled = false ↔ m = n) := by
  constructor
  · rintro ⟨⟨c, hc, rfl⟩, hall⟩
    refine ⟨⟨c.claimant, ?_⟩, ?_⟩
    · rw [(claimed_iff hk).1 hc]
      exact Option.some_ne_none c
    · intro m k c' hc'
      have hgroup := (eq_of_claim?_eq_some hk hc').1
      rw [← hgroup]
      exact hall c' (claimed_of_claim? hk hc')
  · rintro ⟨⟨k, h⟩, hall⟩
    obtain ⟨c, hc⟩ := Option.ne_none_iff_exists'.1 h
    refine ⟨⟨c, claimed_of_claim? hk hc, (eq_of_claim?_eq_some hk hc).1⟩, ?_⟩
    intro c' hc'
    exact hall c'.group c'.claimant c' ((claimed_iff hk).1 hc')

/-- At most one group holds a prefix. -/
theorem Holds.unique {m : GroupName} (hn : r.Holds n d) (hm : r.Holds m d) : m = n := by
  obtain ⟨c, hc, rfl⟩ := hm.1
  exact (hn.2 c hc).1 ((hm.2 c hc).2 rfl)

theorem Holds.leans (hk : r.Keyed) (h : r.Holds n d) : r.Leans n d := by
  obtain ⟨⟨k, hne⟩, hall⟩ := (holds_iff hk).1 h
  obtain ⟨c, hc⟩ := Option.ne_none_iff_exists'.1 hne
  refine ⟨⟨k, c, hc, (hall n k c hc).2 rfl⟩, ?_⟩
  intro m k' c' hc' henabled
  exact (hall m k' c' hc').1 henabled

/-! ### The same claims -/

theorem SameClaims.leans (h : SameClaims r r') (hl : r.Leans n d) : r'.Leans n d := by
  obtain ⟨⟨k, c, hc, henabled⟩, hall⟩ := hl
  obtain ⟨c', hc', hbare⟩ := h.exists_claim hc
  refine ⟨⟨k, c', hc', (Claim.disabled_eq_of_bare_eq hbare).trans henabled⟩, ?_⟩
  intro m j e he henabled
  obtain ⟨e', he', hbare⟩ := h.symm.exists_claim he
  exact hall m j e' he' ((Claim.disabled_eq_of_bare_eq hbare).trans henabled)

theorem SameClaims.holds (h : SameClaims r r') (hk : r.Keyed) (hk' : r'.Keyed)
    (hl : r.Holds n d) : r'.Holds n d := by
  obtain ⟨⟨k, hne⟩, hall⟩ := (holds_iff hk).1 hl
  obtain ⟨c, hc⟩ := Option.ne_none_iff_exists'.1 hne
  obtain ⟨c', hc', -⟩ := h.exists_claim hc
  refine (holds_iff hk').2 ⟨⟨k, by simp [hc']⟩, ?_⟩
  intro m j e he
  obtain ⟨e', he', hbare⟩ := h.symm.exists_claim he
  rw [← Claim.disabled_eq_of_bare_eq hbare]
  exact hall m j e' he'

/-- Turns change no claim but for whether it has a route. -/
theorem sameClaims_passStage (T : RouteTable σ) (visit : Visit) (r : Router) (table : σ)
    (ledger : Ledger) : SameClaims r (r.passStage T visit table ledger).router := by
  refine passStage_induction (P := fun _ s => SameClaims r s.router) (fun _ _ _ => rfl) ?_
  intro turn rest s s' h hturn n k d
  exact (hturn.claim?_bare n k d).trans (h n k d)

theorem sameClaims_pruned (r : Router) : SameClaims r r.pruned := by
  intro n k d
  rw [claim?_pruned]

/-! ### The group that is to keep a prefix -/

theorem favourite_eq_some_iff :
    r.favourite d = some n ↔
      ∃ cs w, r.contests.get? d = some cs ∧ winner cs = some w ∧ w.group = n := by
  simp only [favourite, Option.map_eq_some_iff, Option.bind_eq_some_iff]
  constructor
  · rintro ⟨w, ⟨cs, hcs, hw⟩, rfl⟩
    exact ⟨cs, w, hcs, hw, rfl⟩
  · rintro ⟨cs, w, hcs, hw, rfl⟩
    exact ⟨w, ⟨cs, hcs, hw⟩, rfl⟩

/-- Some group is to keep every prefix that is claimed. -/
theorem exists_favourite (h : ∃ c, r.Claimed d c) : ∃ n, r.favourite d = some n := by
  obtain ⟨c, hc⟩ := h
  obtain ⟨cs, hcs, hmem⟩ := mem_contest_iff.2 hc
  have hne : winner cs ≠ none := by
    rw [Ne, winner_eq_none_iff]
    exact contest_ne_nil hcs
  obtain ⟨w, hw⟩ := Option.ne_none_iff_exists'.1 hne
  exact ⟨w.group, favourite_eq_some_iff.2 ⟨cs, w, hcs, hw, rfl⟩⟩

/-- A group that alone has enabled claims is to keep the prefix, and has no rivals. -/
theorem Leans.winner (hk : r.Keyed) (h : r.Leans n d) :
    ∃ cs w, r.contests.get? d = some cs ∧ winner cs = some w ∧ w.group = n ∧
      rivals cs n = [] := by
  obtain ⟨⟨k, c, hc, henabled⟩, hall⟩ := h
  obtain ⟨cs, hcs, hmem⟩ := mem_contest_iff.2 (claimed_of_claim? hk hc)
  have hne : RouteKeeper.winner cs ≠ none := by
    rw [Ne, winner_eq_none_iff]
    rintro rfl
    exact absurd hmem List.not_mem_nil
  obtain ⟨w, hw⟩ := Option.ne_none_iff_exists'.1 hne
  have hgroup : ∀ e ∈ cs, e.disabled = false → e.group = n := by
    intro e he hdisabled
    exact hall _ _ e ((claimed_iff hk).1 (mem_contest_iff.1 ⟨cs, hcs, he⟩)) hdisabled
  refine ⟨cs, w, hcs, hw, ?_, ?_⟩
  · exact hgroup w (mem_of_winner hw) (winner_enabled hw ⟨c, hmem, henabled⟩)
  · refine List.eq_nil_iff_forall_not_mem.2 fun e he => ?_
    obtain ⟨he, hdisabled, hne⟩ := mem_rivals_iff.1 he
    exact hne (hgroup e he hdisabled)

/-! ## Resolutions -/

section Resolution

variable (T : RouteTable σ) (table : σ) (ledger : Ledger)

/-- Which claims to a prefix are enabled after a resolution. -/
theorem disabled_of_claim?_resolve (hk : r.Keyed) {cs : List Claim} {w : Claim}
    (hcs : r.contests.get? d = some cs) (hw : winner cs = some w) {m : GroupName} {k : Claimant}
    {c' : Claim} (hc' : (r.resolve T table ledger).2.router.claim? m k d = some c') :
    ∃ c ∈ cs, r.claim? m k d = some c ∧
      c'.disabled = if rivals cs w.group = [] then c.disabled && m ≠ w.group
        else c.disabled || m ≠ w.group := by
  have hne : r.claim? m k d ≠ none := by
    rw [Ne, ← claim?_resolve_eq_none_iff T table ledger hk, hc']
    exact Option.some_ne_none c'
  obtain ⟨c, hc⟩ := Option.ne_none_iff_exists'.1 hne
  obtain ⟨cs', hcs', hmem⟩ := mem_contest_iff.2 (claimed_of_claim? hk hc)
  rw [hcs] at hcs'
  cases hcs'
  have h := claim?_resolve_of_winner T table ledger hk hcs hw hc
  rw [hc', Option.map_some] at h
  exact ⟨c, hmem, hc, congrArg Claim.disabled (Option.some.inj h)⟩

/-- A claim outlasts a resolution. -/
theorem exists_claim?_resolve (hk : r.Keyed) {k : Claimant} (h : r.claim? n k d ≠ none) :
    ∃ c, (r.resolve T table ledger).2.router.claim? n k d = some c := by
  rw [Ne, ← claim?_resolve_eq_none_iff T table ledger hk] at h
  exact Option.ne_none_iff_exists'.1 h

/-- Without rivals, the group that is to keep a prefix holds it after a resolution. -/
theorem holds_resolve (hk : r.Keyed) {cs : List Claim} {w : Claim}
    (hcs : r.contests.get? d = some cs) (hw : winner cs = some w)
    (hrivals : rivals cs w.group = []) :
    (r.resolve T table ledger).2.router.Holds w.group d := by
  have hclaimed := (claimed_iff hk).1 (mem_contest_iff.1 ⟨cs, hcs, mem_of_winner hw⟩)
  refine (holds_iff (keyed_resolve hk)).2 ⟨⟨w.claimant, ?_⟩, ?_⟩
  · rw [Ne, claim?_resolve_eq_none_iff T table ledger hk, hclaimed]
    exact Option.some_ne_none w
  · intro m k c' hc'
    obtain ⟨c, hmem, hc, hdisabled⟩ := disabled_of_claim?_resolve T table ledger hk hcs hw hc'
    rw [if_pos hrivals] at hdisabled
    rw [hdisabled]
    by_cases hm : m = w.group
    · simp [hm]
    · have henabled : c.disabled = true := by
        by_contra hc'
        rw [Bool.not_eq_true] at hc'
        have hgroup := (eq_of_claim?_eq_some hk hc).1
        have := mem_rivals_iff.2 ⟨hmem, hc', fun h => hm (hgroup.symm.trans h)⟩
        rw [hrivals] at this
        exact absurd this List.not_mem_nil
      simp [hm, henabled]

/-- After a resolution the group that is to keep a prefix alone has enabled claims to it. -/
theorem leans_resolve (hk : r.Keyed) (h : r.favourite d = some n) :
    (r.resolve T table ledger).2.router.Leans n d := by
  obtain ⟨cs, w, hcs, hw, rfl⟩ := favourite_eq_some_iff.1 h
  by_cases hrivals : rivals cs w.group = []
  · exact (holds_resolve T table ledger hk hcs hw hrivals).leans (keyed_resolve hk)
  · have hclaimed := (claimed_iff hk).1 (mem_contest_iff.1 ⟨cs, hcs, mem_of_winner hw⟩)
    obtain ⟨e, he⟩ := List.exists_mem_of_ne_nil _ hrivals
    obtain ⟨he, hdisabled, -⟩ := mem_rivals_iff.1 he
    have henabled := winner_enabled hw ⟨e, he, hdisabled⟩
    obtain ⟨c', hc'⟩ := exists_claim?_resolve T table ledger hk
      (n := w.group) (k := w.claimant) (d := d) (by simp [hclaimed])
    refine ⟨⟨w.claimant, c', hc', ?_⟩, ?_⟩
    · obtain ⟨c, -, hc, hd⟩ := disabled_of_claim?_resolve T table ledger hk hcs hw hc'
      rw [hclaimed] at hc
      cases hc
      simp [hd, hrivals, henabled]
    · intro m k c hc hd
      obtain ⟨c₀, -, -, hd'⟩ := disabled_of_claim?_resolve T table ledger hk hcs hw hc
      rw [hd, if_neg hrivals] at hd'
      by_contra hm
      simp [hm] at hd'

/-- A group that alone has enabled claims to a prefix holds it after a resolution. -/
theorem Leans.holds_resolve (hk : r.Keyed) (h : r.Leans n d) :
    (r.resolve T table ledger).2.router.Holds n d := by
  obtain ⟨cs, w, hcs, hw, rfl, hrivals⟩ := h.winner hk
  exact Router.holds_resolve T table ledger hk hcs hw hrivals

variable {T table ledger}

theorem resolve_of_count_eq_zero (h : (r.resolve T table ledger).1 = 0) :
    (r.resolve T table ledger).2 = ⟨r, table, ledger⟩ ∧ r.toDisable = [] ∧ r.toEnable = [] := by
  rw [resolve_eq] at h ⊢
  have hdisable : r.toDisable = [] := List.length_eq_zero_iff.1 (by simp only at h; omega)
  have henable : r.toEnable = [] := List.length_eq_zero_iff.1 (by simp only at h; omega)
  simp [hdisable, henable]

/-- Where nothing was resolved, the group that is to keep a prefix held it already. -/
theorem holds_of_count_eq_zero (hk : r.Keyed) (h : (r.resolve T table ledger).1 = 0)
    (hfavourite : r.favourite d = some n) : r.Holds n d := by
  obtain ⟨hres, hdisable, -⟩ := resolve_of_count_eq_zero h
  obtain ⟨cs, w, hcs, hw, rfl⟩ := favourite_eq_some_iff.1 hfavourite
  have hrivals : rivals cs w.group = [] := by
    refine List.eq_nil_iff_forall_not_mem.2 fun c hc => ?_
    have := mem_toDisable_iff.2 ⟨cs, w, hcs, hw, hc, rfl⟩
    rw [hdisable] at this
    exact absurd this List.not_mem_nil
  have := holds_resolve T table ledger hk hcs hw hrivals
  rwa [hres] at this

/-- Nothing is resolved where every claimed prefix is held. -/
theorem count_resolve_eq_zero (hk : r.Keyed) (h : ∀ d, (∃ c, r.Claimed d c) → ∃ n, r.Holds n d) :
    (r.resolve T table ledger).1 = 0 := by
  have hheld : ∀ d cs w, r.contests.get? d = some cs → winner cs = some w →
      rivals cs w.group = [] ∧ ∀ c ∈ cs, c.group = w.group → c.disabled = false := by
    intro d cs w hcs hw
    have hclaimed : ∀ c ∈ cs, r.Claimed d c := fun c hc => mem_contest_iff.1 ⟨cs, hcs, hc⟩
    obtain ⟨n, hn⟩ := h d ⟨w, hclaimed w (mem_of_winner hw)⟩
    obtain ⟨cs', w', hcs', hw', hgroup, hrivals⟩ := (hn.leans hk).winner hk
    rw [hcs] at hcs'
    cases hcs'
    rw [hw] at hw'
    cases hw'
    subst hgroup
    exact ⟨hrivals, fun c hc hgroup => (hn.2 c (hclaimed c hc)).2 hgroup⟩
  have hdisable : r.toDisable = [] := by
    refine List.eq_nil_iff_forall_not_mem.2 ?_
    rintro ⟨d, c, n⟩ hi
    obtain ⟨cs, w, hcs, hw, hc, -⟩ := mem_toDisable_iff.1 hi
    rw [(hheld d cs w hcs hw).1] at hc
    exact absurd hc List.not_mem_nil
  have henable : r.toEnable = [] := by
    refine List.eq_nil_iff_forall_not_mem.2 ?_
    rintro ⟨d, c⟩ hj
    obtain ⟨cs, w, hcs, hw, -, hc, hdisabled, hgroup⟩ := mem_toEnable_iff.1 hj
    rw [(hheld d cs w hcs hw).2 c hc hgroup] at hdisabled
    cases hdisabled
  rw [resolve_eq]
  simp [hdisable, henable]

end Resolution

end Router

/-! ## Passes -/

namespace Reconciled

variable {T : RouteTable σ} {visits : Nat → Visit} {s : Reconciled σ} {n : GroupName} {d : Prefix}

theorem keyed_turned (hk : s.router.Keyed) : (s.turned T visits).router.Keyed :=
  Router.keyed_passStage hk

theorem sameClaims_turned (T : RouteTable σ) (visits : Nat → Visit) (s : Reconciled σ) :
    Router.SameClaims s.router (s.turned T visits).router :=
  fun n k d => Router.sameClaims_passStage T (visits s.passes) s.router s.table s.ledger n k d

theorem leans_step (hk : s.router.Keyed) (h : (s.turned T visits).router.favourite d = some n) :
    (s.step T visits).router.Leans n d := by
  rw [router_step]
  exact Router.leans_resolve _ _ _ (keyed_turned hk) h

theorem holds_step (hk : s.router.Keyed) (h : s.router.Leans n d) :
    (s.step T visits).router.Holds n d := by
  rw [router_step]
  exact ((sameClaims_turned T visits s).leans h).holds_resolve _ _ _ (keyed_turned hk)

/-- A pass that leaves nothing to resolve leaves each prefix to the group that is to keep it. -/
theorem holds_step_of_unsettled_eq_zero (hk : s.router.Keyed)
    (hzero : (s.step T visits).unsettled = 0)
    (h : (s.turned T visits).router.favourite d = some n) : (s.step T visits).router.Holds n d := by
  rw [unsettled_step] at hzero
  have hres := (Router.resolve_of_count_eq_zero hzero).1
  rw [router_step, resolution, hres]
  exact Router.holds_of_count_eq_zero (keyed_turned hk) hzero h

/-- Claims outlast a pass and its resolution. -/
theorem claim?_step_eq_none_iff (hk : s.router.Keyed) {k : Claimant} :
    (s.step T visits).router.claim? n k d = none ↔ s.router.claim? n k d = none := by
  have hsame := sameClaims_turned T visits s n k d
  rw [router_step, resolution, Router.claim?_resolve_eq_none_iff _ _ _ (keyed_turned hk),
    ← Option.map_eq_none_iff (f := Claim.bare), hsame, Option.map_eq_none_iff]

theorem exists_claimed_step_iff (hk : s.router.Keyed) :
    (∃ c, (s.step T visits).router.Claimed d c) ↔ ∃ c, s.router.Claimed d c := by
  rw [Router.exists_claimed_iff (Router.keyed_step hk), Router.exists_claimed_iff hk]
  simp only [Ne, claim?_step_eq_none_iff hk]

/-- Once every claimed prefix is held, the next pass leaves nothing to resolve. -/
theorem unsettled_step_eq_zero (T : RouteTable σ) (visits : Nat → Visit) (hk : s.router.Keyed)
    (h : ∀ d, (∃ c, s.router.Claimed d c) → ∃ n, s.router.Holds n d) :
    (s.step T visits).unsettled = 0 := by
  rw [unsettled_step]
  refine Router.count_resolve_eq_zero (keyed_turned hk) fun d hclaimed => ?_
  have hsame := sameClaims_turned T visits s
  rw [Router.exists_claimed_iff (keyed_turned hk)] at hclaimed
  obtain ⟨m, k, hne⟩ := hclaimed
  obtain ⟨c, hc⟩ := Option.ne_none_iff_exists'.1 hne
  obtain ⟨c', hc', -⟩ := hsame.symm.exists_claim hc
  obtain ⟨n, hn⟩ := h d ⟨c', Router.claimed_of_claim? hk hc'⟩
  exact ⟨n, hsame.holds hk (keyed_turned hk) hn⟩

/-- At the latest the third pass leaves nothing to resolve; then each prefix is held by the group
that was to keep it after the turns of the first pass. -/
theorem settled_iterate (T : RouteTable σ) (visits : Nat → Visit) (hk : s.router.Keyed) :
    (iterate T visits maxPasses s).unsettled = 0 ∧
      ∀ d n, (s.turned T visits).router.favourite d = some n →
        (iterate T visits maxPasses s).router.Holds n d := by
  simp only [maxPasses, iterate]
  have hk₁ : (s.step T visits).router.Keyed := Router.keyed_step hk
  have hk₂ : ((s.step T visits).step T visits).router.Keyed := Router.keyed_step hk₁
  by_cases h₁ : (s.step T visits).unsettled = 0
  · rw [if_pos h₁]
    exact ⟨h₁, fun d n h => holds_step_of_unsettled_eq_zero hk h₁ h⟩
  have hheld : ∀ d n, (s.turned T visits).router.favourite d = some n →
      ((s.step T visits).step T visits).router.Holds n d :=
    fun d n h => holds_step hk₁ (leans_step hk h)
  rw [if_neg h₁]
  by_cases h₂ : ((s.step T visits).step T visits).unsettled = 0
  · rw [if_pos h₂]
    exact ⟨h₂, hheld⟩
  rw [if_neg h₂]
  have hall : ∀ d, (∃ c, ((s.step T visits).step T visits).router.Claimed d c) →
      ∃ n, ((s.step T visits).step T visits).router.Holds n d := by
    intro d hd
    rw [exists_claimed_step_iff hk₁, exists_claimed_step_iff hk, Router.exists_claimed_iff hk] at hd
    obtain ⟨m, k, hne⟩ := hd
    obtain ⟨c, hc⟩ := Option.ne_none_iff_exists'.1 hne
    obtain ⟨c', hc', -⟩ := (sameClaims_turned T visits s).exists_claim hc
    obtain ⟨n, hn⟩ := Router.exists_favourite ⟨c', Router.claimed_of_claim? (keyed_turned hk) hc'⟩
    exact ⟨n, hheld d n hn⟩
  have h₃ := unsettled_step_eq_zero T visits hk₂ hall
  rw [if_pos h₃]
  exact ⟨h₃, fun d n h => holds_step hk₂ ((hheld d n h).leans hk₂)⟩

/-- A reconciliation makes at least one pass, and no more than it may. -/
theorem passes_iterate (T : RouteTable σ) (visits : Nat → Visit) (s : Reconciled σ) :
    s.passes + 1 ≤ (iterate T visits maxPasses s).passes ∧
    (iterate T visits maxPasses s).passes ≤ s.passes + maxPasses := by
  simp only [maxPasses, iterate]
  split
  · simp only [passes_step]
    omega
  · split
    · simp only [passes_step]
      omega
    · split <;> simp only [passes_step] <;> omega

end Reconciled

/-! ## Reconciliations -/

namespace Router

variable {r : Router}

/-- The group that is to keep a prefix after the turns of the first pass holds it in the end. -/
theorem holds_reconcileWith (hk : r.Keyed) (T : RouteTable σ) (visits : Nat → Visit) (table : σ)
    {d : Prefix} {n : GroupName}
    (h : ((r.unreconciled table).turned T visits).router.favourite d = some n) :
    (r.reconcileWith T visits table).router.Holds n d := by
  have hkeyed : (Reconciled.iterate T visits maxPasses (r.unreconciled table)).router.Keyed :=
    Reconciled.iterate_induction (P := fun s => s.router.Keyed) (fun _ => keyed_step) maxPasses hk
  rw [router_reconcileWith]
  exact (sameClaims_pruned _).holds hkeyed hkeyed.pruned
    ((Reconciled.settled_iterate T visits (s := r.unreconciled table) hk).2 d n h)

/-- A prefix that is claimed after a reconciliation was claimed before it. -/
theorem exists_claimed_of_reconcileWith (hk : r.Keyed) {T : RouteTable σ} {visits : Nat → Visit}
    {table : σ} {d : Prefix} (h : ∃ c, (r.reconcileWith T visits table).router.Claimed d c) :
    ∃ c, r.Claimed d c := by
  have hiterate : (Reconciled.iterate T visits maxPasses (r.unreconciled table)).router.Keyed ∧
      ((∃ c, (Reconciled.iterate T visits maxPasses
        (r.unreconciled table)).router.Claimed d c) → ∃ c, r.Claimed d c) := by
    refine Reconciled.iterate_induction (P := fun s : Reconciled σ => s.router.Keyed ∧
      ((∃ c, s.router.Claimed d c) → ∃ c, r.Claimed d c)) ?_ maxPasses ⟨hk, id⟩
    rintro s ⟨hs, ih⟩
    exact ⟨keyed_step hs, fun h => ih ((Reconciled.exists_claimed_step_iff hs).1 h)⟩
  rw [router_reconcileWith, exists_claimed_iff hiterate.1.pruned] at h
  simp only [claim?_pruned] at h
  exact hiterate.2 ((exists_claimed_iff hiterate.1).2 h)

/-- After a reconciliation every claimed prefix is held. -/
theorem exists_holds_reconcileWith (hk : r.Keyed) (T : RouteTable σ) (visits : Nat → Visit)
    (table : σ) {d : Prefix} (h : ∃ c, (r.reconcileWith T visits table).router.Claimed d c) :
    ∃ n, (r.reconcileWith T visits table).router.Holds n d := by
  obtain ⟨c, hc⟩ := exists_claimed_of_reconcileWith hk h
  have hturned : ∃ c, ((r.unreconciled table).turned T visits).router.Claimed d c := by
    obtain ⟨c', hc', -⟩ := (Reconciled.sameClaims_turned T visits
      (r.unreconciled table)).exists_claim ((claimed_iff hk).1 hc)
    exact ⟨c', claimed_of_claim? (Reconciled.keyed_turned hk) hc'⟩
  obtain ⟨n, hn⟩ := exists_favourite hturned
  exact ⟨n, holds_reconcileWith hk T visits table hn⟩

/-- However the table behaves, a reconciliation ends because its last pass left nothing to resolve,
and then every claimed prefix is held by exactly one group. -/
theorem reconcileWith_settles (hr : r.Reachable) (T : RouteTable σ) (visits : Nat → Visit)
    (table : σ) :
    let s := r.reconcileWith T visits table
    (1 ≤ s.passes ∧ s.passes ≤ maxPasses) ∧ s.unsettled = 0 ∧
      ∀ d, (∃ c, s.router.Claimed d c) → ∃! n, s.router.Holds n d := by
  have hk := hr.keyed
  have hpasses := Reconciled.passes_iterate T visits (r.unreconciled table)
  have hsettled := (Reconciled.settled_iterate T visits (s := r.unreconciled table) hk).1
  rw [← passes_reconcileWith] at hpasses
  rw [← unsettled_reconcileWith] at hsettled
  have hstart : (r.unreconciled table).passes = 0 := rfl
  refine ⟨⟨by omega, by omega⟩, hsettled, ?_⟩
  intro d hd
  obtain ⟨n, hholds⟩ := exists_holds_reconcileWith hk T visits table hd
  exact ⟨n, hholds, fun m hm => hholds.unique hm⟩

/-- Two groups that ask for paths to one address. -/
def twoRivals : Router :=
  ((Router.new .default).addPeer ⟨"alpha"⟩ (.v4 "t1" "wg-a" 1)).addPeer ⟨"beta"⟩ (.v4 "t1" "wg-b" 1)

theorem twoRivals_settle :
    twoRivals.Reachable ∧
      ∃! n, (twoRivals.reconcileWith RouteTable.memory (fun _ => .inOrder) .empty).router.Holds n
        (.host (.v4 1)) := by
  have hr : twoRivals.Reachable := ((Reachable.new _).addPeer _ _).addPeer _ _
  refine ⟨hr, (reconcileWith_settles hr RouteTable.memory (fun _ => .inOrder) .empty).2.2 _ ?_⟩
  refine ⟨⟨⟨"alpha"⟩, .path ⟨"t1"⟩, true, false, 1⟩, ⟨"alpha"⟩, _, rfl, ?_⟩
  decide +kernel

end Router

end RouteKeeper
