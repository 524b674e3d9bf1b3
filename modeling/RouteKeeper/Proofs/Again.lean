import RouteKeeper.Proofs.Waiting

/-!
# Reconciling again

After a reconciliation without failures the next one, on whatever table, makes one pass, resolves
nothing and takes no route away. All that it tries is to make routes for claims that wait, and it
does try if there are any.

## Main definitions

* `Router.Settled` — every recorded route is as it should be.
* `Stage.Calm` — in the middle of a pass that only tries to make routes for claims that wait.

## Main statements

* `Stage.Calm.turned` — every turn of a pass over a settled router is of that kind.
* `reconcileWith_of_held` — where every prefix is held, one pass is made.
* `reconcileWith_again` — the next reconciliation.
-/
namespace RouteKeeper

variable {σ : Type}

/-- Every recorded route is as it should be. -/
def Router.Settled (r : Router) : Prop := ∀ n k d, r.Fits n k d (r.preferred? n d)

/-! ## A pass over a settled router -/

namespace Stage

variable {T : RouteTable σ} {managed : List String} {r : Router} {turn : Turn} {rest : List Turn}
  {s s' : Stage σ} {n : GroupName} {k : Claimant} {d : Prefix}

/-- In the middle of a pass that leaves all routes in place and only tries to make routes for claims
that wait. -/
structure Calm (r : Router) (s : Stage σ) : Prop where
  owner {e : Prefix} {o : GroupName} :
    r.owners.get? e = some o → s.pass.owners.get? e = some o
  route {m : GroupName} {j : Claimant} {e : Prefix} :
    s.router.route? m j e ≠ none → r.route? m j e ≠ none ∨ r.Wanted m j e
  through (m : GroupName) (e : Prefix) :
    s.router.through? m e = none ∨ s.router.through? m e = r.preferred? m e
  unplaced {m : GroupName} {j : Claimant} {e : Prefix} :
    s.router.Unplaced m j e → r.Unplaced m j e
  attempts {a : Attempt} : a ∈ s.pass.ledger.attempts →
    (∃ hop, a.action = .install hop) ∧ r.Waits a.group a.claimant a.destination

theorem calm_start (hsettled : r.Settled) (table : σ) : Calm r ⟨r, ⟨table, r.owners, .empty⟩⟩ where
  owner := id
  route := .inl
  through m e := by
    by_cases hroute : r.route? m .service e = none
    · exact .inl (Router.through?_eq_none_iff.2 hroute)
    · obtain ⟨c, -, hservice⟩ := hsettled m .service e hroute
      exact .inr (hservice rfl).2
  unplaced := id
  attempts h := absurd h List.not_mem_nil

/-- The only reason for an attempt is a claim that waits. -/
theorem Calm.waits_of_cause (h : Calm r s) (hsettled : r.Settled)
    (hstanding : Standing r (k.turn n d :: rest) s) {action : Action}
    (hcause : Cause s n k d action) : (∃ hop, action = .install hop) ∧ r.Waits n k d := by
  cases hcause with
  | @surplus i hhad hundue hpath =>
    have hunwanted : ¬ r.Wanted n k d := fun hwanted => hundue (hstanding.due_iff.2 hwanted)
    have hroute := (h.route (by simp [hhad])).resolve_right hunwanted
    obtain ⟨c, hc, hservice⟩ := hsettled n k d hroute
    by_cases hk : k = .service
    · subst hk
      obtain ⟨henabled, hthrough⟩ := hservice rfl
      refine absurd ⟨⟨c, hc, henabled⟩, fun _ => ?_⟩ hunwanted
      rw [← hthrough, Ne, Router.through?_eq_none_iff]
      exact hroute
    · obtain ⟨c', hc', -⟩ := hstanding.claims.exists_claim hc
      rw [hpath hk] at hc'
      cases hc'
  | @missing hop hdue hwaits hfree =>
    refine ⟨⟨hop, rfl⟩, hstanding.due_iff.1 hdue, h.unplaced hwaits, ?_⟩
    intro o howner
    exact (s.pass.isBlocked_eq_false_iff n d).1 hfree o (h.owner howner)
  | misplaced hk hdue hhad hwrong =>
    subst hk
    obtain ⟨⟨c, hc, -⟩, -⟩ := hdue
    obtain ⟨service, hs, -⟩ := Router.claim?_service_eq_some_iff.1 hc
    rw [hstanding.assigned?_eq_of_turn hs] at hwrong
    exact absurd ((h.through n d).resolve_left hhad) hwrong

/-- A turn leaves all routes in place and tries to make one for a claim that waits at most. -/
theorem Calm.turned (h : Calm r s) (hsettled : r.Settled)
    (hstanding : Standing r (turn :: rest) s) (hturn : Turned T managed s turn s') : Calm r s' := by
  have hinstall : ∀ {a}, s'.pass.ledger.attempts = a :: s.pass.ledger.attempts →
      (∃ hop, a.action = .install hop) ∧ r.Waits a.group a.claimant a.destination := by
    intro a hattempts
    rcases hturn.cause hstanding.keyed with hsame | ⟨m, j, e, action, error, rfl, hcons, hcause⟩
    · rw [hsame] at hattempts
      exact absurd hattempts.symm (List.cons_ne_self _ _)
    · rw [hcons] at hattempts
      cases hattempts
      exact h.waits_of_cause hsettled hstanding hcause
  refine ⟨fun {e o} howner => ?_, fun {m j e} hroute => ?_, fun m e => ?_,
    fun {m j e} hwaits => ?_, fun {a} ha => ?_⟩
  · cases hturn.effectAt hstanding.keyed e with
    | quiet hsame =>
      rw [hsame]
      exact h.owner howner
    | removed _ _ _ _ _ _ hattempts =>
      obtain ⟨⟨hop, hremove⟩, -⟩ := hinstall hattempts
      cases hremove
    | placed _ _ _ hplaced _ hattempts =>
      rw [hplaced, (hinstall hattempts).2.free howner]
  · cases hturn.effectAt hstanding.keyed e with
    | quiet _ hsame =>
      rw [hsame] at hroute
      exact h.route hroute
    | removed _ _ _ _ _ _ hattempts =>
      obtain ⟨⟨hop, hremove⟩, -⟩ := hinstall hattempts
      cases hremove
    | placed _ _ _ _ hplaced hattempts =>
      rw [hplaced] at hroute
      split at hroute
      case isTrue hkey =>
        obtain ⟨rfl, rfl⟩ := hkey
        exact .inr (hinstall hattempts).2.wanted
      case isFalse => exact h.route hroute
  · rcases hturn.through? m e with hsame | hnone | ⟨service, rfl, hs, hassigned⟩
    · rw [hsame]
      exact h.through m e
    · exact .inl hnone
    · exact .inr (hassigned.trans (hstanding.assigned?_eq_of_turn hs))
  · rcases hturn.unplaced hstanding.keyed hwaits with hwaits | ⟨i, error, hattempts⟩
    · exact h.unplaced hwaits
    · obtain ⟨⟨hop, hremove⟩, -⟩ := hinstall hattempts
      cases hremove
  · rcases hturn.cause hstanding.keyed with hsame | ⟨_, _, _, _, _, -, hcons, -⟩
    · rw [hsame] at ha
      exact h.attempts ha
    · rw [hcons] at ha
      rcases List.mem_cons.1 ha with rfl | ha
      · exact hinstall hcons
      · exact h.attempts ha

end Stage

namespace Router

variable {r : Router} {n : GroupName} {k : Claimant} {d : Prefix}

/-- All that a pass over a settled router tries is to make routes for claims that wait. -/
theorem calm_passStage (hk : r.Keyed) (hsettled : r.Settled) (T : RouteTable σ) (visit : Visit)
    (table : σ) : Stage.Calm r (r.passStage T visit table .empty) := by
  have hpass := passStage_schedule hk T visit table .empty (P := fun _ s => Stage.Calm r s)
    (Stage.calm_start hsettled table)
    fun _ _ _ _ hstanding hturn h => h.turned hsettled hstanding hturn
  exact hpass.2

/-- A complete pass does try something if a claim waits. -/
theorem attempts_ne_nil_of_waits (hk : r.Keyed) (hwaits : r.Waits n k d) (T : RouteTable σ)
    {visit : Visit} (hvisit : visit.IsComplete) (table : σ) :
    (r.passStage T visit table .empty).pass.ledger.attempts ≠ [] := by
  have hpass := passStage_schedule hk T visit table .empty (P := fun rest s =>
    s.pass.ledger.attempts ≠ [] ∨
      (k.turn n d ∈ rest ∧ s.pass.owners = r.owners ∧ s.router.Unplaced n k d)) ?_ ?_
  · exact hpass.2.resolve_right fun h => List.not_mem_nil h.1
  · obtain ⟨c, hc, -⟩ := hwaits.wanted.1
    exact .inr ⟨claimant_mem_turns hvisit hc, rfl, hwaits.unplaced⟩
  · intro turn rest s s' hstanding hturn h
    have heffect := hturn.effect hstanding.keyed
    by_cases hsame : s'.pass.ledger.attempts = s.pass.ledger.attempts
    · rw [heffect.pass_eq hsame]
      refine h.imp_right ?_
      rintro ⟨hmem, howners, hunplaced⟩
      by_cases hown : turn = k.turn n d
      · subst hown
        have hfree : s.pass.isBlocked d n = false := by
          rw [Pass.isBlocked_eq_false_iff, howners]
          exact fun _ => hwaits.free
        obtain ⟨hop, error, hattempts⟩ := hturn.tries hstanding.keyed
          (hstanding.due_iff.2 hwaits.wanted) hunplaced hfree
        rw [hsame] at hattempts
        exact absurd hattempts.symm (List.cons_ne_self _ _)
      · exact ⟨(List.mem_cons.1 hmem).resolve_left (Ne.symm hown), howners,
          (hturn.unplaced_iff_of_ne hown).2 hunplaced⟩
    · rcases hturn.cause hstanding.keyed with h | ⟨_, _, _, _, _, -, hcons, -⟩
      · exact absurd h hsame
      · rw [hcons]
        exact .inl (List.cons_ne_nil _ _)

/-- A pass that tries nothing leaves the table. -/
theorem table_passStage_of_attempts_eq_nil (hk : r.Keyed) (T : RouteTable σ) (visit : Visit)
    (table : σ) (h : (r.passStage T visit table .empty).pass.ledger.attempts = []) :
    (r.passStage T visit table .empty).pass.table = table := by
  have hpass := passStage_schedule hk T visit table .empty (P := fun _ s =>
    s.pass.ledger.attempts = [] → s.pass.table = table) (fun _ => rfl) ?_
  · exact hpass.2 h
  · intro turn rest s s' hstanding hturn ih hnil
    have heffect := hturn.effect hstanding.keyed
    have hbefore : s.pass.ledger.attempts = [] := by
      refine List.eq_nil_iff_forall_not_mem.2 fun a ha => ?_
      have hlater := heffect.mem_attempts ha
      rw [hnil] at hlater
      exact absurd hlater List.not_mem_nil
    rw [heffect.pass_eq (hnil.trans hbefore.symm)]
    exact ih hbefore

/-! ## The next reconciliation -/

/-- Where every claimed prefix is held, a reconciliation is a single pass. -/
theorem reconcileWith_eq_of_held (hk : r.Keyed)
    (hheld : ∀ d, (∃ c, r.Claimed d c) → ∃ n, r.Holds n d) (T : RouteTable σ)
    (visits : Nat → Visit) (table : σ) :
    r.reconcileWith T visits table =
      ⟨(r.passStage T (visits 0) table .empty).router.pruned,
        (r.passStage T (visits 0) table .empty).pass.table,
        (r.passStage T (visits 0) table .empty).pass.ledger, 1, 0, 0⟩ := by
  have hzero : ((r.unreconciled table).step T visits).unsettled = 0 :=
    Reconciled.unsettled_step_eq_zero T visits (s := r.unreconciled table) hk hheld
  have hiterate : Reconciled.iterate T visits maxPasses (r.unreconciled table) =
      (r.unreconciled table).step T visits := by
    rw [maxPasses, Reconciled.iterate]
    simp only [hzero, if_true]
  rw [Reconciled.unsettled_step] at hzero
  have hres := (resolve_of_count_eq_zero hzero).1
  rw [reconcileWith_eq, hiterate, Reconciled.step_eq]
  simp only [hzero]
  simp only [Reconciled.resolution, hres]
  rfl

/-- Where every claimed prefix is held, a reconciliation makes one pass and resolves nothing. -/
theorem reconcileWith_of_held (hk : r.Keyed)
    (hheld : ∀ d, (∃ c, r.Claimed d c) → ∃ n, r.Holds n d) (T : RouteTable σ)
    (visits : Nat → Visit) (table : σ) :
    (r.reconcileWith T visits table).passes = 1 ∧
      (r.reconcileWith T visits table).resolved = 0 ∧
      (r.reconcileWith T visits table).table =
        (r.passStage T (visits 0) table .empty).pass.table ∧
      (r.reconcileWith T visits table).ledger =
        (r.passStage T (visits 0) table .empty).pass.ledger := by
  rw [reconcileWith_eq_of_held hk hheld]
  exact ⟨rfl, rfl, rfl, rfl⟩

/-- How a claim comes to wait after a reconciliation without failures. -/
theorem given_up_of_waits (hk : r.Keyed) (T : RouteTable σ) {visits : Nat → Visit}
    (hvisits : ∀ i, (visits i).IsComplete) (table : σ)
    (hclean : ∀ a ∈ (r.reconcileWith T visits table).ledger.attempts, a.error = none)
    (hwaits : (r.reconcileWith T visits table).router.Waits n k d) :
    (r.reconcileWith T visits table).passes = 1 ∧ ∃ o j i,
      ⟨o, j, d, .remove i, none⟩ ∈ (r.reconcileWith T visits table).ledger.attempts ∧
        KeyOrder.before n o = true := by
  obtain ⟨q, hlast⟩ := Reconciled.exists_last hk hvisits hclean
  have hk' := hk.reconcileWith T visits table
  -- the group that waits is the one that holds the prefix
  obtain ⟨c, hc, henabled⟩ := hwaits.wanted.1
  have hclaimed := claimed_of_claim? hk' hc
  obtain ⟨m, hm⟩ := exists_holds_reconcileWith hk T visits table ⟨c, hclaimed⟩
  have hgroup := (hm.2 c hclaimed).1 henabled
  rw [(eq_of_claim?_eq_some hk' hc).1] at hgroup
  subst hgroup
  obtain ⟨hfirst, hgone⟩ := hlast.given_up_of_waits hm hwaits
  refine ⟨?_, hgone⟩
  rw [hlast.passes, hfirst]

/-- The reconciliation after one without failures. It makes one pass and resolves nothing; all that
it tries is to make routes for claims that wait. So it does nothing exactly if no claim waits. A
claim waits only if the first reconciliation made a single pass in which a group later by name gave
up the prefix; if the second one does not fail either, no claim waits after it. -/
theorem reconcileWith_again (hr : r.Reachable) (T : RouteTable σ) {visits : Nat → Visit}
    (hvisits : ∀ i, (visits i).IsComplete) (table : σ) {τ : Type} (T' : RouteTable τ)
    {visits' : Nat → Visit} (hvisits' : ∀ i, (visits' i).IsComplete) (table' : τ) :
    let s := r.reconcileWith T visits table
    let s' := s.router.reconcileWith T' visits' table'
    (∀ a ∈ s.ledger.attempts, a.error = none) →
      (s'.passes = 1 ∧ s'.resolved = 0) ∧
      (∀ a ∈ s'.ledger.attempts, (∃ hop, a.action = .install hop) ∧
        s.router.Waits a.group a.claimant a.destination) ∧
      (s'.ledger.attempts = [] ↔ ∀ n k d, ¬ s.router.Waits n k d) ∧
      (s'.ledger.attempts = [] → s'.table = table') ∧
      (∀ n k d, s.router.Waits n k d → s.passes = 1 ∧
        ∃ o j i, ⟨o, j, d, .remove i, none⟩ ∈ s.ledger.attempts ∧ KeyOrder.before n o = true) ∧
      ((∀ a ∈ s'.ledger.attempts, a.error = none) → ∀ n k d, ¬ s'.router.Waits n k d) := by
  intro s s' hclean
  have hk : s.router.Keyed := hr.keyed.reconcileWith T visits table
  have hheld : ∀ d, (∃ c, s.router.Claimed d c) → ∃ n, s.router.Holds n d :=
    fun d h => exists_holds_reconcileWith hr.keyed T visits table h
  obtain ⟨q, hlast⟩ := Reconciled.exists_last hr.keyed hvisits hclean
  obtain ⟨hpasses, hresolved, htable, hledger⟩ := reconcileWith_of_held hk hheld T' visits' table'
  have hcalm := calm_passStage hk hlast.fits T' (visits' 0) table'
  have hattempts : ∀ a ∈ s'.ledger.attempts, (∃ hop, a.action = .install hop) ∧
      s.router.Waits a.group a.claimant a.destination := by
    intro a ha
    rw [hledger] at ha
    exact hcalm.attempts ha
  refine ⟨⟨hpasses, hresolved⟩, hattempts, ⟨?_, ?_⟩, ?_, ?_, ?_⟩
  · intro hnil n k d hwaits
    rw [hledger] at hnil
    exact attempts_ne_nil_of_waits hk hwaits T' (hvisits' 0) table' hnil
  · intro hnone
    refine List.eq_nil_iff_forall_not_mem.2 fun a ha => ?_
    exact hnone _ _ _ (hattempts a ha).2
  · intro hnil
    rw [hledger] at hnil
    rw [htable]
    exact table_passStage_of_attempts_eq_nil hk T' (visits' 0) table' hnil
  · intro n k d hwaits
    exact given_up_of_waits hr.keyed T hvisits table hclean hwaits
  · intro hclean' n k d hwaits
    obtain ⟨-, o, j, i, hmem, -⟩ := given_up_of_waits hk T' hvisits' table' hclean' hwaits
    obtain ⟨⟨hop, hremove⟩, -⟩ := hattempts _ hmem
    cases hremove

/-- Gamma has a route and gives it up; alpha, which comes first by name, asks for the same
address. -/
def handover : Reconciled RouteTable.Memory :=
  let s := ((Router.new .default).addPeer ⟨"gamma"⟩ (.v4 "t1" "wg-g" 1)).reconcileWith
    RouteTable.memory (fun _ => .inOrder) .empty
  { s with
    router := (s.router.deletePeer ⟨"gamma"⟩ ⟨"t1"⟩).addPeer ⟨"alpha"⟩ (.v4 "t1" "wg-a" 1) }

theorem handover_reachable : handover.router.Reachable := by
  dsimp only [handover]
  exact ((((Reachable.new _).addPeer _ _).reconcile RouteTable.memory (fun _ => .inOrder)
    .empty).deletePeer _ _).addPeer _ _

/-- The reconciliation that hands the address over. -/
def handedOver : Reconciled RouteTable.Memory :=
  handover.router.reconcileWith RouteTable.memory (fun _ => .inOrder) handover.table

theorem handedOver_clean : ∀ a ∈ handedOver.ledger.attempts, a.error = none := by decide +kernel

/-- Two reconciliations are enough. -/
theorem handover_again :
    handover.router.Reachable ∧ (∀ a ∈ handedOver.ledger.attempts, a.error = none) ∧
      ∀ n k d, ¬ (handedOver.router.reconcileWith RouteTable.memory (fun _ => .inOrder)
        handedOver.table).router.Waits n k d := by
  have hvisits : ∀ i : Nat, ((fun _ => Visit.inOrder : Nat → Visit) i).IsComplete :=
    fun _ _ ds => List.Perm.refl ds
  have hclean : ∀ a ∈ (handedOver.router.reconcileWith RouteTable.memory (fun _ => .inOrder)
      handedOver.table).ledger.attempts, a.error = none := by decide +kernel
  exact ⟨handover_reachable, handedOver_clean,
    (reconcileWith_again handover_reachable RouteTable.memory hvisits handover.table
      RouteTable.memory hvisits handedOver.table handedOver_clean).2.2.2.2.2 hclean⟩

/-- One is not: alpha's turn comes before gamma gives up its route. -/
theorem handover_tries_again :
    handover.router.Reachable ∧ (∀ a ∈ handedOver.ledger.attempts, a.error = none) ∧
      (handedOver.router.reconcileWith RouteTable.memory (fun _ => .inOrder)
        handedOver.table).ledger.attempts =
          [⟨⟨"alpha"⟩, .path ⟨"t1"⟩, .host (.v4 1), .install ⟨"wg-a", none⟩, none⟩] :=
  ⟨handover_reachable, handedOver_clean, by decide +kernel⟩

end Router

end RouteKeeper
