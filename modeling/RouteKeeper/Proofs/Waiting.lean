import RouteKeeper.Proofs.Sweep

/-!
# Claims that wait

A reconciliation without failures may end with a claim that is to have a route and has none although
its prefix is free. Then its turn in the last pass came while another group had the prefix, and that
group gave it up later in the same pass. In a second pass nothing is left to give up, so there was
only one.

## Main definitions

* `Router.Waits` — a claim could have a route and has none.
* `Stage.Shut` — another group has the prefix and keeps it.
* `Reconciled.Last` — the last pass of a reconciliation without failures.

## Main statements

* `Stage.Shut.turned` — a group is shut out until the other one gives the prefix up.
* `Reconciled.Last.given_up_of_waits` — how a claim comes to wait.
-/
namespace RouteKeeper

variable {σ : Type}

namespace Router

variable {r : Router} {n : GroupName} {k : Claimant} {d : Prefix}

/-- A claim could have a route and has none: it is to have one, and no other group has the
prefix. -/
structure Waits (r : Router) (n : GroupName) (k : Claimant) (d : Prefix) : Prop where
  wanted : r.Wanted n k d
  unplaced : r.Unplaced n k d
  free {o : GroupName} : r.owners.get? d = some o → o = n

/-! ## Routers without empty groups -/

theorem owners_pruned (hk : r.Keyed) (d : Prefix) :
    r.pruned.owners.get? d = r.owners.get? d := by
  have hrecords : ∀ n, r.pruned.Records n d ↔ r.Records n d := by
    intro n
    simp only [records_iff, route?_pruned]
  ext o
  rw [get?_owners_eq_some_iff hk, get?_owners_eq_some_iff hk.pruned]
  simp only [hrecords]

@[simp] theorem through?_pruned : r.pruned.through? n d = r.through? n d := by
  rw [through?, through?, service?_pruned]

@[simp] theorem unplaced_pruned : r.pruned.Unplaced n k d ↔ r.Unplaced n k d := by
  cases k <;> simp only [Unplaced, path?_pruned, service?_pruned]

@[simp] theorem preferred?_pruned : r.pruned.preferred? n d = r.preferred? n d := by
  ext c
  simp only [preferred?_eq_some_iff, get?_groups_pruned_eq_some_iff]
  constructor
  · rintro ⟨g, s, ⟨hgroup, -⟩, hservice, hdesired⟩
    exact ⟨g, s, hgroup, hservice, hdesired⟩
  · rintro ⟨g, s, hgroup, hservice, hdesired⟩
    exact ⟨g, s, ⟨hgroup, isEmpty_of_get?_services hservice⟩, hservice, hdesired⟩

end Router

namespace Stage

variable {T : RouteTable σ} {managed : List String} {r : Router} {turn : Turn} {rest : List Turn}
  {s s' : Stage σ} {n o : GroupName} {k : Claimant} {d : Prefix}

/-- After a pass a group prefers what it preferred before. -/
theorem Standing.preferred?_eq (h : Standing r [] s) (hk : r.Keyed) {service : Service}
    (hs : s.router.service? n d = some service) : s.router.preferred? n d = r.preferred? n d := by
  obtain ⟨g, hgroup, hservice⟩ := Router.service?_eq_some_iff.1 hs
  obtain ⟨g₀, hgroup₀, hfollows, -, hafter⟩ := h.group hgroup
  obtain ⟨service₀, hservice₀, hbare⟩ := hfollows.service hservice
  have hlive := congrArg Service.liveCandidates hbare
  simp only [Service.liveCandidates_bare] at hlive
  have hselector : g.selector = (g₀.selector.select Loss.less g₀.paths).2 :=
    (hafter List.not_mem_nil).2
  -- the second selection is made from the candidates and the memory that the first one left
  have hselect : g.selector.select Loss.less g.paths =
      (g₀.selector.select Loss.less g₀.paths).2.select Loss.less g₀.paths := by
    rw [← Selector.select_candidates, hfollows.candidates, Selector.select_candidates, hselector]
  obtain ⟨haddress, hconnection, -⟩ := Selector.select_select (hk.paths hgroup₀) g₀.selector
  rw [Router.preferred?_of_get? hgroup hservice, Router.preferred?_of_get? hgroup₀ hservice₀]
  refine Group.desired_congr hfollows.candidates ?_ ?_ hlive
  · simp only [Group.reselect, hselect, Option.map_some, haddress]
  · simp only [Group.reselect, hselect, Option.map_some, hconnection]

/-! ## Shut out -/

/-- Another group had the prefix when the pass began and has kept its routes; a group that is shut
out has gained none. -/
structure Shut (r : Router) (n o : GroupName) (d : Prefix) (s : Stage σ) : Prop where
  owned : r.owners.get? d = some o
  holder : s.router.Records o d
  /-- The group can come by the prefix only where it has a route already. -/
  owner : s.pass.owners.get? d = some o ∨ r.Records n d
  records : s.router.Records n d → r.Records n d
  route {m : GroupName} {j : Claimant} :
    m ≠ n → s.router.route? m j d ≠ none → r.route? m j d ≠ none

theorem shut_start (hk : r.Keyed) (table : σ) (ledger : Ledger) (h : r.owners.get? d = some o) :
    Shut r n o d ⟨r, ⟨table, r.owners, ledger⟩⟩ where
  owned := h
  holder := ((Router.get?_owners_eq_some_iff hk).1 h).1
  owner := .inl h
  records := id
  route _ := id

/-- As long as a group is shut out, the other one is found to have the prefix. -/
theorem Shut.owners_eq (h : Shut r n o d s) (hk : r.Keyed) (hk' : s.router.Keyed) :
    s.router.owners.get? d = some o := by
  have hlast := ((Router.get?_owners_eq_some_iff hk).1 h.owned).2
  refine (Router.get?_owners_eq_some_iff hk').2 ⟨h.holder, ?_⟩
  intro m hm
  by_cases hn : m = n
  · subst hn
    exact hlast m (h.records hm)
  · obtain ⟨j, hroute⟩ := Router.records_iff.1 hm
    exact hlast m (Router.records_iff.2 ⟨j, h.route hn hroute⟩)

/-- Where only one group has enabled claims, it stays shut out until the other group gives up a
route that it should not have had. -/
theorem Shut.turned (h : Shut r n o d s) (hne : o ≠ n) (hleans : r.Leans n d)
    (hstanding : Standing r (turn :: rest) s) (hturn : Turned T managed s turn s') :
    Shut r n o d s' ∨ turn.group = o ∧ s'.pass.owners.get? d ≠ some o ∧ ¬ r.Swept ∧
      ∃ j i, ⟨o, j, d, .remove i, none⟩ ∈ s'.pass.ledger.attempts := by
  cases hturn.effectAt hstanding.keyed d with
  | quiet howner hroute =>
    have hrecords : ∀ m, s'.router.Records m d ↔ s.router.Records m d := by
      intro m
      simp only [Router.records_iff, hroute]
    refine .inl ⟨h.owned, (hrecords o).2 h.holder, ?_, ?_, ?_⟩
    · rw [howner]
      exact h.owner
    · rw [hrecords]
      exact h.records
    · intro m j hm
      rw [hroute]
      exact h.route hm
  | @removed m j i hturn hhad hcause hpath howner hroute hattempts =>
    subst hturn
    by_cases hm : m = o
    · subst hm
      refine .inr ⟨Turn.group_turn .., ?_, ?_, j, i, ?_⟩
      · rw [howner]
        split
        case isTrue => simp
        case isFalse hother => exact hother
      · intro hswept
        obtain ⟨c, hc, hservice⟩ := hswept m j d (h.route hne (by simp [hhad]))
        obtain ⟨c', hc', -⟩ := hstanding.claims.exists_claim hc
        by_cases hj : j = .service
        · exact hne (hleans.2 m j c hc (hservice hj))
        · rw [hpath hj] at hc'
          cases hc'
      · rw [hattempts]
        exact List.mem_cons_self
    · have hkept : ∀ {m' j'}, s'.router.route? m' j' d ≠ none →
          s.router.route? m' j' d ≠ none := by
        intro m' j' hm'
        rw [hroute] at hm'
        split at hm'
        · exact absurd rfl hm'
        · exact hm'
      refine .inl ⟨h.owned, ?_, ?_, ?_, fun hm' hroute' => h.route hm' (hkept hroute')⟩
      · obtain ⟨j', hj'⟩ := Router.records_iff.1 h.holder
        refine Router.records_iff.2 ⟨j', ?_⟩
        rwa [hroute, if_neg fun hkey => hm hkey.1.symm]
      · refine h.owner.imp_left fun hsame => ?_
        rw [howner, hsame, if_neg fun hkey => hm (Option.some.inj hkey).symm]
      · intro hrecords
        obtain ⟨j', hj'⟩ := Router.records_iff.1 hrecords
        exact h.records (Router.records_iff.2 ⟨j', hkept hj'⟩)
  | @placed m j hop hturn hdue hfree howner hroute =>
    -- only the group that is shut out is to have routes: it must have had one
    subst hturn
    obtain ⟨c, hc, henabled⟩ := (hstanding.due_iff.1 hdue).1
    have hm := hleans.2 m j c hc henabled
    subst hm
    have hrecords : r.Records m d := by
      rcases hfree with hfree | hhad
      · refine h.owner.resolve_left fun hsame => hne ?_
        exact (s.pass.isBlocked_eq_false_iff m d).1 hfree o hsame
      · exact h.records (Router.records_iff.2 ⟨j, hhad⟩)
    refine .inl ⟨h.owned, ?_, .inr hrecords, fun _ => hrecords, ?_⟩
    · obtain ⟨j', hj'⟩ := Router.records_iff.1 h.holder
      refine Router.records_iff.2 ⟨j', ?_⟩
      rwa [hroute, if_neg fun hkey => hne hkey.1]
    · intro m' j' hm' hroute'
      rw [hroute, if_neg fun hkey => hm' hkey.1] at hroute'
      exact h.route hm' hroute'

/-- A group that comes to have a prefix in a turn had it before, if it is not to have routes. -/
theorem owner_of_turned (hleans : r.Leans n d) (hstanding : Standing r (turn :: rest) s)
    (hturn : Turned T managed s turn s') (hne : o ≠ n) (h : s'.pass.owners.get? d = some o) :
    s.pass.owners.get? d = some o := by
  cases hturn.effectAt hstanding.keyed d with
  | quiet howner => rwa [howner] at h
  | removed _ _ _ _ howner =>
    rw [howner] at h
    split at h
    · cases h
    · exact h
  | @placed m j hop hturn hdue _ howner =>
    subst hturn
    rw [howner] at h
    cases h
    obtain ⟨c, hc, henabled⟩ := (hstanding.due_iff.1 hdue).1
    exact absurd (hleans.2 _ j c hc henabled) hne

/-- In the middle of a pass without failures, what may be said of a claim that is wanted. -/
structure Pending (r : Router) (n : GroupName) (k : Claimant) (d : Prefix) (rest : List Turn)
    (s : Stage σ) : Prop where
  shut {o : GroupName} : o ≠ n → s.pass.owners.get? d = some o → Shut r n o d s
  /-- It still has its turn, or has its route, or was shut out by a group whose turns come later;
  that group keeps the prefix or has given it up. -/
  fate : k.turn n d ∈ rest ∨ ¬ s.router.Unplaced n k d ∨ ∃ o, o ≠ n ∧
    ((Shut r n o d s ∧ ∀ t ∈ rest, t.group = o → KeyOrder.before n o = true) ∨
      (¬ r.Swept ∧ KeyOrder.before n o = true ∧
        ∃ j i, ⟨o, j, d, .remove i, none⟩ ∈ s.pass.ledger.attempts))

theorem Pending.turned (h : Pending r n k d (turn :: rest) s) (hleans : r.Leans n d)
    (hwanted : r.Wanted n k d) (hstanding : Standing r (turn :: rest) s)
    (hturn : Turned T managed s turn s')
    (hclean : ∀ a ∈ s'.pass.ledger.attempts, a.error = none) : Pending r n k d rest s' := by
  have hdue : turn = k.turn n d → s.router.Due n k d := by
    rintro rfl
    exact hstanding.due_iff.2 hwanted
  refine ⟨?_, ?_⟩
  · intro o hne howner
    have hshut := h.shut hne (owner_of_turned hleans hstanding hturn hne howner)
    rcases hshut.turned hne hleans hstanding hturn with hshut | ⟨-, hgone, -⟩
    · exact hshut
    · exact absurd howner hgone
  · rcases h.fate with hmem | hplaced | ⟨o, hne, ⟨hshut, hlater⟩ | ⟨hswept, hbefore, j, i, hmem⟩⟩
    · rcases List.mem_cons.1 hmem with rfl | hmem
      · rcases hturn.placed_or_blocked hstanding.keyed hclean (hdue rfl) with hplaced | hblocked
        · exact .inr (.inl hplaced)
        · obtain ⟨o, howner, hne⟩ := (s.pass.isBlocked_iff n d).1 hblocked
          rcases (h.shut hne howner).turned hne hleans hstanding hturn with hshut | ⟨hgroup, -⟩
          · refine .inr (.inr ⟨o, hne, .inl ⟨hshut, ?_⟩⟩)
            rintro t ht rfl
            have horder := ((List.pairwise_cons.1 hstanding.ordered).1 t ht).group
            rw [Turn.group_turn] at horder
            exact horder.resolve_left (Ne.symm hne)
          · rw [Turn.group_turn] at hgroup
            exact absurd hgroup (Ne.symm hne)
      · exact .inl hmem
    · refine .inr (.inl fun hwaits => ?_)
      rcases hturn.unplaced hstanding.keyed hwaits with hwaits | ⟨i, error, hattempts⟩
      · exact hplaced hwaits
      · exact hturn.not_removed_of_due hstanding.keyed hdue hattempts
    · have hstep := hshut.turned hne hleans hstanding hturn
      refine .inr (.inr ⟨o, hne, ?_⟩)
      rcases hstep with hshut | ⟨hgroup, -, hswept, hmem⟩
      · exact .inl ⟨hshut, fun t ht => hlater t (List.mem_cons_of_mem turn ht)⟩
      · exact .inr ⟨hswept, hlater turn List.mem_cons_self hgroup, hmem⟩
    · refine .inr (.inr ⟨o, hne, .inr ⟨hswept, hbefore, j, i, ?_⟩⟩)
      exact (hturn.effect hstanding.keyed).mem_attempts hmem

end Stage

/-! ## The last pass -/

namespace Reconciled

variable {T : RouteTable σ} {visits : Nat → Visit} {q s : Reconciled σ} {n : GroupName}
  {k : Claimant} {d : Prefix}

/-- The last pass of a reconciliation without failures began here and came to that. -/
structure Last (T : RouteTable σ) (visits : Nat → Visit) (q s : Reconciled σ) : Prop where
  keyed : q.router.Keyed
  swept : q.passes = 0 ∨ q.router.Swept
  complete : (visits q.passes).IsComplete
  clean : ∀ a ∈ (q.turned T visits).pass.ledger.attempts, a.error = none
  router : s.router = (q.turned T visits).router.pruned
  passes : s.passes = q.passes + 1
  ledger : s.ledger = (q.turned T visits).pass.ledger

/-- A pass without failures leaves no route recorded that should not be. -/
theorem swept_step (hk : s.router.Keyed) (hvisits : (visits s.passes).IsComplete)
    (hclean : ∀ a ∈ (s.step T visits).ledger.attempts, a.error = none) :
    (s.step T visits).router.Swept := by
  have hturned : ∀ a ∈ (s.turned T visits).pass.ledger.attempts, a.error = none :=
    fun a ha => hclean a (Router.mem_attempts_step hk ha)
  have hswept : (s.turned T visits).router.Swept :=
    Router.swept_passStage hk hvisits s.table s.ledger hturned
  rw [ledger_step] at hclean
  rw [router_step]
  exact Router.swept_resolve (keyed_turned hk) hswept hclean

/-- A reconciliation has a last pass, which leaves nothing to resolve. What every pass keeps is so
when the last one begins. -/
theorem exists_final {r : Router} (hk : r.Keyed) (T : RouteTable σ) (visits : Nat → Visit)
    (table : σ) {P : Reconciled σ → Prop} (hstart : P (r.unreconciled table))
    (hstep : ∀ q : Reconciled σ, q.router.Keyed → P q → P (q.step T visits)) :
    ∃ q : Reconciled σ, q.router.Keyed ∧ P q ∧
      (r.reconcileWith T visits table).router = (q.turned T visits).router.pruned ∧
      (r.reconcileWith T visits table).table = (q.turned T visits).pass.table ∧
      (r.reconcileWith T visits table).ledger = (q.turned T visits).pass.ledger ∧
      (r.reconcileWith T visits table).passes = q.passes + 1 := by
  obtain ⟨q, ⟨hkeyed, hq⟩, hlast⟩ := exists_iterate_eq_step (T := T)
    (P := fun q => q.router.Keyed ∧ P q)
    (fun q h => ⟨Router.keyed_step h.1, hstep q h.1 h.2⟩) 2 (s := r.unreconciled table) ⟨hk, hstart⟩
  have hiterate : iterate T visits maxPasses (r.unreconciled table) = q.step T visits := hlast
  have hsettled := (settled_iterate T visits (s := r.unreconciled table) hk).1
  rw [hiterate, unsettled_step] at hsettled
  have hres := (Router.resolve_of_count_eq_zero hsettled).1
  refine ⟨q, hkeyed, hq, ?_, ?_, ?_, ?_⟩
  · rw [Router.router_reconcileWith, hiterate, router_step, resolution, hres]
  · rw [Router.table_reconcileWith, hiterate, table_step, resolution, hres]
  · rw [Router.ledger_reconcileWith, hiterate, ledger_step, resolution, hres]
  · rw [Router.passes_reconcileWith, hiterate, passes_step]

/-- A reconciliation without failures has a last pass. -/
theorem exists_last {r : Router} (hk : r.Keyed) (hvisits : ∀ i, (visits i).IsComplete) {table : σ}
    (hclean : ∀ a ∈ (r.reconcileWith T visits table).ledger.attempts, a.error = none) :
    ∃ q, Last T visits q (r.reconcileWith T visits table) := by
  obtain ⟨q, hkeyed, hswept, hrouter, -, hledger, hpasses⟩ := exists_final hk T visits table
    (P := fun q => (∀ a ∈ q.ledger.attempts, a.error = none) → q.passes = 0 ∨ q.router.Swept)
    (fun _ => .inl rfl) fun q hk _ hclean => .inr (swept_step hk (hvisits _) hclean)
  rw [hledger] at hclean
  refine ⟨q, hkeyed, hswept ?_, hvisits _, hclean, hrouter, hpasses, hledger⟩
  exact fun a ha => hclean a (Router.mem_attempts_turned hkeyed ha)

namespace Last

theorem standing (h : Last T visits q s) : Stage.Standing q.router [] (q.turned T visits) :=
  standing_passStage h.keyed T _ _ _

theorem sameClaims (h : Last T visits q s) : q.router.SameClaims s.router := by
  intro n k d
  rw [h.router, Router.claim?_pruned]
  exact h.standing.claims n k d

/-- A group prefers what it preferred before the last pass. -/
theorem preferred?_eq (h : Last T visits q s) {c : Claim}
    (hc : s.router.claim? n .service d = some c) :
    s.router.preferred? n d = q.router.preferred? n d := by
  obtain ⟨service, hs, -⟩ := Router.claim?_service_eq_some_iff.1 hc
  rw [h.router, Router.service?_pruned] at hs
  rw [h.router, Router.preferred?_pruned]
  exact h.standing.preferred?_eq h.keyed hs

/-- What is wanted in the end was wanted before the last pass. -/
theorem wanted (h : Last T visits q s) (hwanted : s.router.Wanted n k d) :
    q.router.Wanted n k d := by
  obtain ⟨⟨c, hc, henabled⟩, hservice⟩ := hwanted
  refine ⟨h.sameClaims.enabled_iff.1 ⟨c, hc, henabled⟩, ?_⟩
  rintro rfl
  rw [← h.preferred?_eq hc]
  exact hservice rfl

/-- In the end every route is as it should be. -/
theorem fits (h : Last T visits q s) (n : GroupName) (k : Claimant) (d : Prefix) :
    s.router.Fits n k d (s.router.preferred? n d) := by
  intro hroute
  rw [h.router, Router.route?_pruned] at hroute
  obtain ⟨c, hc, hservice⟩ :=
    Router.fits_passStage h.keyed h.complete q.table q.ledger h.clean n k d hroute
  have hc' : s.router.claim? n k d = some c := by
    rw [h.router, Router.claim?_pruned]
    exact hc
  refine ⟨c, hc', ?_⟩
  rintro rfl
  rw [h.preferred?_eq hc', h.router, Router.through?_pruned]
  exact hservice rfl

/-- A claim comes to wait because another group gave up the prefix after its turn; then there was
one pass only. -/
theorem given_up_of_waits (h : Last T visits q s) (hholds : s.router.Holds n d)
    (hwaits : s.router.Waits n k d) : q.passes = 0 ∧
      ∃ o j i, ⟨o, j, d, .remove i, none⟩ ∈ s.ledger.attempts ∧ KeyOrder.before n o = true := by
  have hkeyed : s.router.Keyed := h.router ▸ h.standing.keyed.pruned
  have hleans : q.router.Leans n d := h.sameClaims.symm.leans (hholds.leans hkeyed)
  have hwanted := h.wanted hwaits.wanted
  have hpass := passStage_schedule h.keyed T (visits q.passes) q.table q.ledger
    (P := fun rest s => (∀ a ∈ s.pass.ledger.attempts, a.error = none) →
      Stage.Pending q.router n k d rest s) ?_ ?_
  · rcases (hpass.2 h.clean).fate with hmem | hplaced | ⟨o, hne, ⟨hshut, -⟩ | hgone⟩
    · exact absurd hmem List.not_mem_nil
    · have hunplaced := hwaits.unplaced
      rw [h.router, Router.unplaced_pruned] at hunplaced
      exact absurd hunplaced hplaced
    · have howner : (q.turned T visits).router.owners.get? d = some o :=
        hshut.owners_eq h.keyed h.standing.keyed
      rw [← Router.owners_pruned h.standing.keyed] at howner
      refine absurd (hwaits.free ?_) hne
      rw [h.router]
      exact howner
    · obtain ⟨hswept, hbefore, j, i, hmem⟩ := hgone
      rw [h.ledger]
      exact ⟨h.swept.resolve_right hswept, o, j, i, hmem, hbefore⟩
  · intro _
    obtain ⟨c, hc, -⟩ := hwanted.1
    refine ⟨fun _ howner => Stage.shut_start h.keyed _ _ howner, .inl ?_⟩
    exact Router.claimant_mem_turns h.complete hc
  · intro turn rest s s' hstanding hturn hpending hclean
    have heffect := hturn.effect hstanding.keyed
    exact (hpending fun a ha => hclean a (heffect.mem_attempts ha)).turned hleans hwanted hstanding
      hturn hclean

end Last

end Reconciled

end RouteKeeper
