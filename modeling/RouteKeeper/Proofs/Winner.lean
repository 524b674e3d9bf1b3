import RouteKeeper.Proofs.Convergence
import RouteKeeper.Proofs.FirstLeast
import RouteKeeper.Proofs.Numbering
import RouteKeeper.Proofs.Schedule

/-!
# Who keeps a prefix

The claim that precedes all others after the first turns of all entries keeps its prefix. These
turns come before any conflict is looked at: a group that has the only routes for a prefix, all of
them wanted, is not disturbed by them; and where no group has one, the first group by name that
wants one gets it, however old its claim is.

## Main definitions

* `Claim.precedes` — the claim comes before another for keeping a prefix.
* `Router.Leads` — the claim that precedes all others to its prefix.
* `Router.FirstToWant` — the group is the first by name that wants a route for the prefix.
* `Stage.Held`, `Stage.Unheld` — in the middle of a pass, who has routes for a prefix.

## Main statements

* `holds_reconcileWith_iff` — who holds a prefix after a reconciliation.
* `Stage.Held.turned`, `Stage.Unheld.turned` — what a turn makes of the routes for a prefix.
* `reconcileWith_winner` — the winner, told from the router before the reconciliation.
-/
namespace RouteKeeper

variable {σ : Type}

/-! ## The order of claims -/

namespace Claim

theorem comparison_older : Comparison older where
  asymm h := by
    simp only [older, decide_eq_true_eq, decide_eq_false_iff_not] at *
    omega
  chain h h' := by
    simp only [older, decide_eq_false_iff_not] at *
    omega

theorem stronger_iff {a b : Claim} :
    a.stronger b = true ↔
      (a.installed = true ∧ b.installed = false) ∨
        (a.installed = b.installed ∧ a.number < b.number) := by
  simp [stronger, older]

theorem comparison_stronger : Comparison stronger where
  asymm {a b} h := by
    rw [← Bool.not_eq_true]
    intro h'
    rw [stronger_iff] at h h'
    grind
  chain {a b c} h h' := by
    rw [← Bool.not_eq_true] at h h' ⊢
    rw [stronger_iff] at h h' ⊢
    grind

/-- The claim comes before another for keeping a prefix: enabled before disabled; of enabled claims,
those with a route first; then the older. -/
def precedes (a b : Claim) : Bool :=
  (!a.disabled && b.disabled) ||
    (a.disabled == b.disabled && if a.disabled then a.older b else a.stronger b)

theorem precedes_asymm {a b : Claim} (h : a.precedes b = true) : b.precedes a = false := by
  unfold precedes at *
  cases ha : a.disabled <;> cases hb : b.disabled <;> simp only [ha, hb] at h ⊢
  · simpa using comparison_stronger.asymm (by simpa using h)
  · rfl
  · cases h
  · simpa using comparison_older.asymm (by simpa using h)

/-- Claims with different numbers are in order one way or the other. -/
theorem stronger_of_number_ne {a b : Claim} (h : b.stronger a = false) (hne : a.number ≠ b.number) :
    a.stronger b = true := by
  rw [← Bool.not_eq_true, stronger_iff] at h
  rw [stronger_iff]
  cases ha : a.installed <;> cases hb : b.installed <;> simp [ha, hb] at h ⊢ <;> omega

end Claim

/-- The winner precedes all other claims, if their numbers differ. -/
theorem precedes_of_winner {claims : List Claim} {w : Claim} (h : winner claims = some w) :
    ∀ c ∈ claims, w.number ≠ c.number → w.precedes c = true := by
  intro c hc hne
  unfold winner at h
  split at h
  case h_1 hnone =>
    have hdisabled : ∀ c ∈ claims, c.disabled = true := by
      intro c hc
      simpa using List.filter_eq_nil_iff.1 hnone c hc
    have hleast := Claim.comparison_older.firstLeast_least h c hc
    have hw := hdisabled w (mem_of_firstLeast_eq_some _ h)
    simp only [Claim.older, decide_eq_false_iff_not] at hleast
    simp only [Claim.precedes, hw, hdisabled c hc, Claim.older]
    simp only [Bool.not_true, Bool.false_and, beq_self_eq_true, if_true, Bool.true_and,
      Bool.false_or, decide_eq_true_eq]
    omega
  case h_2 e rest hsome =>
    have hmem : ∀ c, c ∈ e :: rest ↔ c ∈ claims ∧ c.disabled = false := by
      intro c
      rw [← hsome, List.mem_filter]
      simp
    have hw := ((hmem w).1 (mem_of_firstLeast_eq_some _ h)).2
    cases hdisabled : c.disabled with
    | true => simp [Claim.precedes, hw, hdisabled]
    | false =>
      have hleast := Claim.comparison_stronger.firstLeast_least h c ((hmem c).2 ⟨hc, hdisabled⟩)
      simp [Claim.precedes, hw, hdisabled, Claim.stronger_of_number_ne hleast hne]

namespace Router

variable {r : Router} {n : GroupName} {d : Prefix}

/-- The claim precedes all others to the prefix. -/
def Leads (r : Router) (d : Prefix) (c : Claim) : Prop :=
  r.Claimed d c ∧ ∀ c', r.Claimed d c' → c' ≠ c → c.precedes c' = true

/-- One claim at most precedes all others. -/
theorem Leads.unique {c c' : Claim} (h : r.Leads d c) (h' : r.Leads d c') : c' = c := by
  by_contra hne
  have hprecedes := h.2 c' h'.1 hne
  have hprecedes' := h'.2 c h.1 (Ne.symm hne)
  rw [Claim.precedes_asymm hprecedes] at hprecedes'
  cases hprecedes'

/-- The group that is to keep a prefix is that of the claim that precedes all others. -/
theorem favourite_eq_some_iff_leads (hk : r.Keyed) (hn : r.Numbered) :
    r.favourite d = some n ↔ ∃ c, r.Leads d c ∧ c.group = n := by
  have hleads : ∀ {cs w}, r.contests.get? d = some cs → winner cs = some w → r.Leads d w := by
    intro cs w hcs hw
    refine ⟨mem_contest_iff.1 ⟨cs, hcs, mem_of_winner hw⟩, ?_⟩
    intro c hc hne
    obtain ⟨cs', hcs', hmem⟩ := mem_contest_iff.2 hc
    rw [hcs] at hcs'
    cases hcs'
    refine precedes_of_winner hw c hmem fun hnumber => hne ?_
    have hw' := mem_contest_iff.1 ⟨cs, hcs, mem_of_winner hw⟩
    exact hn.eq_of_number_eq hk hc hw' hnumber.symm
  constructor
  · intro h
    obtain ⟨cs, w, hcs, hw, hgroup⟩ := favourite_eq_some_iff.1 h
    exact ⟨w, hleads hcs hw, hgroup⟩
  · rintro ⟨c, hc, rfl⟩
    obtain ⟨m, hm⟩ := exists_favourite ⟨c, hc.1⟩
    obtain ⟨cs, w, hcs, hw, hgroup⟩ := favourite_eq_some_iff.1 hm
    rw [hm, ← hgroup, hc.unique (hleads hcs hw)]

/-- A group holds a prefix after a reconciliation if the claim that precedes all others after the
turns of the first pass is its own. -/
theorem holds_reconcileWith_iff (hk : r.Keyed) (hn : r.Numbered) (T : RouteTable σ)
    (visits : Nat → Visit) (table : σ) :
    (r.reconcileWith T visits table).router.Holds n d ↔
      ∃ c, ((r.unreconciled table).turned T visits).router.Leads d c ∧ c.group = n := by
  have hkeyed : ((r.unreconciled table).turned T visits).router.Keyed :=
    Reconciled.keyed_turned hk
  have hnumbered : ((r.unreconciled table).turned T visits).router.Numbered :=
    hn.passStage T (visits 0) table .empty
  rw [← favourite_eq_some_iff_leads hkeyed hnumbered]
  constructor
  · intro h
    obtain ⟨c, hc⟩ := exists_claimed_of_reconcileWith hk (h.1.imp fun _ => And.left)
    obtain ⟨c', hc', -⟩ := (Reconciled.sameClaims_turned T visits
      (r.unreconciled table)).exists_claim ((claimed_iff hk).1 hc)
    obtain ⟨m, hm⟩ := exists_favourite ⟨c', claimed_of_claim? hkeyed hc'⟩
    rw [hm, h.unique (holds_reconcileWith hk T visits table hm)]
  · exact holds_reconcileWith hk T visits table

/-! ## Who has routes in the middle of a pass -/

/-- A claim has a route if one is recorded for its path or service. -/
theorem installed_iff {k : Claimant} {c : Claim} (h : r.claim? n k d = some c) :
    c.installed = true ↔ r.route? n k d ≠ none := by
  cases k with
  | path connection =>
    obtain ⟨p, hp, -, hd, rfl⟩ := claim?_path_eq_some_iff.1 h
    have hroute : r.route? n (.path connection) d = p.installed := by
      simp [route?, hp, Option.filter_some, hd]
    rw [hroute]
    exact Option.isSome_iff_ne_none
  | service =>
    obtain ⟨s, hs, -, rfl⟩ := claim?_service_eq_some_iff.1 h
    have hroute : r.route? n .service d = s.active.map fun route => route.hop.interface := by
      simp [route?, hs]
    rw [hroute, Ne, Option.map_eq_none_iff]
    exact Option.isSome_iff_ne_none

/-- The group is the first by name that wants a route for the prefix. -/
def FirstToWant (r : Router) (n : GroupName) (d : Prefix) : Prop :=
  (∃ k, r.Wanted n k d) ∧ ∀ m k, r.Wanted m k d → n = m ∨ KeyOrder.before n m = true

end Router

namespace Stage

/-- The group has the only routes for the prefix, and each of them was wanted at the start. -/
structure Held (r : Router) (n : GroupName) (d : Prefix) (s : Stage σ) : Prop where
  owner : s.pass.owners.get? d = some n
  route : ∃ k, s.router.route? n k d ≠ none
  alone {m : GroupName} {k : Claimant} : s.router.route? m k d ≠ none → m = n ∧ r.Wanted m k d

/-- No group has a route for the prefix, and whoever wants one still has its turn. -/
structure Unheld (r : Router) (d : Prefix) (rest : List Turn) (s : Stage σ) : Prop where
  owner : s.pass.owners.get? d = none
  route (m : GroupName) (k : Claimant) : s.router.route? m k d = none
  coming {m : GroupName} {k : Claimant} : r.Wanted m k d → k.turn m d ∈ rest

variable {T : RouteTable σ} {managed : List String} {r : Router} {n : GroupName} {d : Prefix}
  {turn : Turn} {rest : List Turn} {s s' : Stage σ}

/-- A turn leaves to a group the routes that it alone has, as long as they are wanted. -/
theorem Held.turned (h : Held r n d s) (hstanding : Standing r (turn :: rest) s)
    (hturn : Turned T managed s turn s') : Held r n d s' := by
  cases hturn.effectAt hstanding.keyed d with
  | quiet howner hroute =>
    refine ⟨howner.trans h.owner, ?_, fun hmk => ?_⟩
    · obtain ⟨k, hk⟩ := h.route
      exact ⟨k, by rwa [hroute]⟩
    · rw [hroute] at hmk
      exact h.alone hmk
  | @removed m k i hturn hhad hcause =>
    -- what is taken away is not wanted, and so not among these routes
    subst hturn
    have hwanted := (h.alone (m := m) (k := k) (by simp [hhad])).2
    exact absurd (hstanding.due_iff.2 hwanted) hcause
  | @placed m k hop hturn hdue hfree howner hroute =>
    subst hturn
    have hm : m = n := by
      rcases hfree with hfree | hhad
      · exact ((s.pass.isBlocked_eq_false_iff m d).1 hfree n h.owner).symm
      · exact (h.alone hhad).1
    subst hm
    refine ⟨howner, ⟨k, ?_⟩, fun {m' k'} hroute' => ?_⟩
    · rw [hroute, if_pos ⟨rfl, rfl⟩]
      exact Option.some_ne_none _
    · rw [hroute] at hroute'
      split at hroute'
      case isTrue hkey =>
        obtain ⟨rfl, rfl⟩ := hkey
        exact ⟨rfl, hstanding.due_iff.1 hdue⟩
      case isFalse => exact h.alone hroute'

/-- As long as no attempt for the prefix fails, the first group that wants a route for it gets one.
-/
theorem Unheld.turned (h : Unheld r d (turn :: rest) s)
    (hstanding : Standing r (turn :: rest) s) (hturn : Turned T managed s turn s')
    (hclean : ∀ a ∈ s'.pass.ledger.attempts, a.destination = d → a.error = none) :
    Unheld r d rest s' ∨ ∃ n, r.FirstToWant n d ∧ Held r n d s' := by
  cases hturn.effectAt hstanding.keyed d with
  | quiet howner hroute hfailed =>
    refine .inl ⟨howner.trans h.owner, fun m k => (hroute m k).trans (h.route m k), ?_⟩
    intro m k hwanted
    rcases List.mem_cons.1 (h.coming hwanted) with rfl | hrest
    · -- whoever wants a route and has its turn now tries to make one
      have hdue := hstanding.due_iff.2 hwanted
      obtain ⟨c, hc, -⟩ := hdue.1
      have hfree : s.pass.isBlocked d m = false := by
        rw [Pass.isBlocked_eq_false_iff, h.owner]
        simp
      obtain ⟨hop, error, hattempts⟩ := hturn.tries hstanding.keyed hdue
        (Router.unplaced_of_route?_eq_none hc (h.route m k)) hfree
      rw [hattempts] at hclean
      exact absurd (hclean _ List.mem_cons_self rfl) (hfailed hattempts rfl)
    · exact hrest
  | removed _ hhad =>
    rw [h.route] at hhad
    cases hhad
  | @placed n k hop hturn hdue _ howner hroute =>
    subst hturn
    have hwanted := hstanding.due_iff.1 hdue
    refine .inr ⟨n, ⟨⟨k, hwanted⟩, ?_⟩, howner, ⟨k, ?_⟩, ?_⟩
    · intro m j hm
      rcases List.mem_cons.1 (h.coming hm) with hhead | hrest
      · have hgroup := congrArg Turn.group hhead
        rw [Turn.group_turn, Turn.group_turn] at hgroup
        exact .inl hgroup.symm
      · have hgroup := ((List.pairwise_cons.1 hstanding.ordered).1 _ hrest).group
        rwa [Turn.group_turn, Turn.group_turn] at hgroup
    · rw [hroute, if_pos ⟨rfl, rfl⟩]
      exact Option.some_ne_none _
    · intro m j hmj
      rw [hroute] at hmj
      split at hmj
      case isTrue hkey =>
        obtain ⟨rfl, rfl⟩ := hkey
        exact ⟨rfl, hwanted⟩
      case isFalse => exact absurd (h.route m j) hmj

/-- The claim that precedes all others is of the group that has the only routes. -/
theorem Held.leads (h : Held r n d s) (hstanding : Standing r [] s) (hn : s.router.Numbered) :
    ∃ c, s.router.Leads d c ∧ c.group = n := by
  obtain ⟨k, hroute⟩ := h.route
  obtain ⟨c, hc, henabled⟩ := hstanding.claims.enabled_iff.2 (h.alone hroute).2.1
  have hinstalled := (Router.installed_iff hc).2 hroute
  obtain ⟨m, hm⟩ := Router.exists_favourite ⟨c, Router.claimed_of_claim? hstanding.keyed hc⟩
  obtain ⟨w, hw, rfl⟩ := (Router.favourite_eq_some_iff_leads hstanding.keyed hn).1 hm
  refine ⟨w, hw, ?_⟩
  by_cases hsame : c = w
  · rw [← hsame]
    exact (Router.eq_of_claim?_eq_some hstanding.keyed hc).1
  · have hprecedes := hw.2 c (Router.claimed_of_claim? hstanding.keyed hc) hsame
    have hwinstalled : w.installed = true := by
      cases hdisabled : w.disabled <;> simp [Claim.precedes, henabled, hdisabled] at hprecedes
      rw [Claim.stronger_iff, hinstalled] at hprecedes
      rcases hprecedes with ⟨hyes, -⟩ | ⟨hyes, -⟩ <;> exact hyes
    have hfound := (Router.claimed_iff hstanding.keyed).1 hw.1
    exact (h.alone ((Router.installed_iff hfound).1 hwinstalled)).1

end Stage

namespace Router

variable {r r' : Router} {n : GroupName} {d : Prefix}

/-- Where no route is recorded, the same claims are equal. -/
theorem SameClaims.claim?_eq (h : r.SameClaims r') {k : Claimant} (hr : r.route? n k d = none)
    (hr' : r'.route? n k d = none) : r'.claim? n k d = r.claim? n k d := by
  have hbare : ∀ {r : Router} {c}, r.route? n k d = none → r.claim? n k d = some c →
      c.bare = c := by
    intro r c hnone hc
    have hidle : c.installed = false := by
      rw [← Bool.not_eq_true]
      exact fun h => (installed_iff hc).1 h hnone
    rw [Claim.bare, ← hidle]
  have hsame := h n k d
  rcases hc : r.claim? n k d with _ | c <;> rcases hc' : r'.claim? n k d with _ | c' <;>
    rw [hc, hc'] at hsame
  · cases hsame
  · cases hsame
  · rw [Option.map_some, Option.map_some, hbare hr hc, hbare hr' hc'] at hsame
    exact hsame

theorem SameClaims.leads_iff (h : r.SameClaims r') (hk : r.Keyed) (hk' : r'.Keyed)
    (hr : ∀ m k, r.route? m k d = none) (hr' : ∀ m k, r'.route? m k d = none) {c : Claim} :
    r'.Leads d c ↔ r.Leads d c := by
  have hclaimed : ∀ c, r'.Claimed d c ↔ r.Claimed d c := by
    intro c
    rw [claimed_iff hk, claimed_iff hk', h.claim?_eq (hr _ _) (hr' _ _)]
  simp only [Leads, hclaimed]

theorem FirstToWant.unique {m : GroupName} (hn : r.FirstToWant n d) (hm : r.FirstToWant m d) :
    m = n := by
  obtain ⟨⟨k, hk⟩, hfirst⟩ := hn
  obtain ⟨⟨j, hj⟩, hfirst'⟩ := hm
  rcases hfirst m j hj with h | h
  · exact h.symm
  · rcases hfirst' n k hk with h' | h'
    · exact h'
    · have hirrefl := KeyOrder.trans h h'
      rw [KeyOrder.irrefl] at hirrefl
      cases hirrefl

theorem not_records_iff : (∀ m, ¬ r.Records m d) ↔ ∀ m k, r.route? m k d = none := by
  simp only [records_iff, not_exists, not_not]

/-- A pass leaves to a group the routes that it alone has, if they are all wanted. -/
theorem held_passStage (hk : r.Keyed) (T : RouteTable σ) (visit : Visit) (table : σ)
    (ledger : Ledger) (hrecords : r.Records n d)
    (halone : ∀ m k, r.route? m k d ≠ none → m = n ∧ r.Wanted m k d) :
    Stage.Standing r [] (r.passStage T visit table ledger) ∧
      Stage.Held r n d (r.passStage T visit table ledger) := by
  refine passStage_schedule hk T visit table ledger (P := fun _ s => Stage.Held r n d s) ?_ ?_
  · refine ⟨(get?_owners_eq_some_iff hk).2 ⟨hrecords, ?_⟩, records_iff.1 hrecords, halone _ _⟩
    intro m hm
    obtain ⟨k, hroute⟩ := records_iff.1 hm
    exact .inl (halone m k hroute).1
  · intro turn rest s s' hstanding hturn h
    exact h.turned hstanding hturn

/-- If no group has a route for a prefix, after a pass the first that wants one has it. -/
theorem held_passStage_of_firstToWant (hk : r.Keyed) (T : RouteTable σ) {visit : Visit} (table : σ)
    (ledger : Ledger) (hnone : ∀ m, ¬ r.Records m d) (hvisit : visit.IsComplete)
    (hclean : ∀ a ∈ (r.passStage T visit table ledger).pass.ledger.attempts,
      a.destination = d → a.error = none) :
    Stage.Standing r [] (r.passStage T visit table ledger) ∧
      (Stage.Unheld r d [] (r.passStage T visit table ledger) ∨
        ∃ m, r.FirstToWant m d ∧ Stage.Held r m d (r.passStage T visit table ledger)) := by
  have hpass := passStage_schedule hk T visit table ledger (P := fun rest s =>
    (∀ a ∈ s.pass.ledger.attempts, a.destination = d → a.error = none) →
      Stage.Unheld r d rest s ∨ ∃ m, r.FirstToWant m d ∧ Stage.Held r m d s) ?_ ?_
  · exact ⟨hpass.1, hpass.2 hclean⟩
  · intro _
    refine .inl ⟨(get?_owners_eq_none_iff hk).2 hnone, not_records_iff.1 hnone, ?_⟩
    intro m k hwanted
    obtain ⟨c, hc, -⟩ := hwanted.1
    exact claimant_mem_turns hvisit hc
  · intro turn rest s s' hstanding hturn h hclean'
    have heffect := hturn.effect hstanding.keyed
    rcases h fun a ha => hclean' a (heffect.mem_attempts ha) with hunheld | ⟨m, hm, hheld⟩
    · exact hunheld.turned hstanding hturn hclean'
    · exact .inr ⟨m, hm, hheld.turned hstanding hturn⟩

/-- Who keeps a prefix: the group of the claim that precedes all others after the turns of the first
pass. It is the group that had the only routes before, if these are all wanted. Where no group had
any, and no attempt fails, it is the first group by name that wants one; only if none does, it is
the group of the claim that preceded all others before. -/
theorem reconcileWith_winner (hr : r.Reachable) (T : RouteTable σ) (visits : Nat → Visit)
    (table : σ) (d : Prefix) (n : GroupName) :
    let s := r.reconcileWith T visits table
    (s.router.Holds n d ↔
      ∃ c, ((r.unreconciled table).turned T visits).router.Leads d c ∧ c.group = n) ∧
    (r.Records n d → (∀ m k, r.route? m k d ≠ none → m = n ∧ r.Wanted m k d) →
      s.router.Holds n d) ∧
    ((∀ m, ¬ r.Records m d) → (visits 0).IsComplete →
      (∀ a ∈ s.ledger.attempts, a.destination = d → a.error = none) →
      (s.router.Holds n d ↔ r.FirstToWant n d ∨
        (∀ m k, ¬ r.Wanted m k d) ∧ ∃ c, r.Leads d c ∧ c.group = n)) := by
  have hk := hr.keyed
  have hiff := fun m => holds_reconcileWith_iff (n := m) (d := d) hk hr.numbered T visits table
  have hnumbered : ((r.unreconciled table).turned T visits).router.Numbered :=
    hr.numbered.passStage T (visits 0) table .empty
  refine ⟨hiff n, ?_, ?_⟩
  · intro hrecords halone
    obtain ⟨hstanding, hheld⟩ := held_passStage hk T (visits 0) table .empty hrecords halone
    exact (hiff n).2 (hheld.leads hstanding hnumbered)
  · intro hnone hvisits hclean
    obtain ⟨hstanding, hpass⟩ := held_passStage_of_firstToWant hk T table .empty hnone hvisits
      fun a ha => hclean a (mem_attempts_reconcileWith hk ha)
    rcases hpass with hunheld | ⟨m, hm, hheld⟩
    · have hunwanted : ∀ m k, ¬ r.Wanted m k d := fun m k hmk =>
        absurd (hunheld.coming hmk) List.not_mem_nil
      have hleads : ∀ c, ((r.unreconciled table).turned T visits).router.Leads d c ↔
          r.Leads d c := fun c =>
        hstanding.claims.leads_iff hk hstanding.keyed (not_records_iff.1 hnone) hunheld.route
      have hnever : ¬ r.FirstToWant n d := fun h => hunwanted n _ h.1.choose_spec
      simp only [hiff, hleads, hnever, false_or, hunwanted, not_false_iff, implies_true, true_and]
    · have hholds := (hiff m).2 (hheld.leads hstanding hnumbered)
      constructor
      · intro h
        rw [hholds.unique h]
        exact .inl hm
      · rintro (h | ⟨hunwanted, -⟩)
        · rwa [hm.unique h]
        · obtain ⟨k, hk⟩ := hm.1
          exact absurd hk (hunwanted m k)

/-- Beta asked first, alpha comes first by name. -/
def youngerFirst : Router :=
  ((Router.new .default).addPeer ⟨"beta"⟩ (.v4 "t1" "wg-b" 1)).addPeer ⟨"alpha"⟩ (.v4 "t1" "wg-a" 1)

theorem youngerFirst_reachable : youngerFirst.Reachable :=
  ((Reachable.new _).addPeer _ _).addPeer _ _

theorem youngerFirst_groups {n : GroupName} {g : Group}
    (h : youngerFirst.groups.get? n = some g) : n = ⟨"alpha"⟩ ∨ n = ⟨"beta"⟩ := by
  have hkeys : n ∈ youngerFirst.groups.keys := OrderedMap.mem_keys_iff.2 ⟨g, h⟩
  have hboth : youngerFirst.groups.keys = [⟨"alpha"⟩, ⟨"beta"⟩] := by decide +kernel
  rw [hboth] at hkeys
  simpa using hkeys

/-- The group that asked second keeps the prefix. -/
theorem youngerFirst_winner :
    youngerFirst.Reachable ∧
      (youngerFirst.reconcileWith RouteTable.memory (fun _ => .inOrder) .empty).router.Holds
        ⟨"alpha"⟩ (.host (.v4 1)) := by
  have hr := youngerFirst_reachable
  refine ⟨hr, ((reconcileWith_winner hr RouteTable.memory (fun _ => .inOrder) .empty _ _).2.2
    ?_ ?_ ?_).2 (.inl ⟨?_, ?_⟩)⟩
  · have howners : youngerFirst.owners.get? (.host (.v4 1)) = none := by decide +kernel
    exact (get?_owners_eq_none_iff hr.keyed).1 howners
  · exact fun _ ds => List.Perm.refl ds
  · have hclean : ∀ a ∈ (youngerFirst.reconcileWith RouteTable.memory (fun _ => .inOrder)
        .empty).ledger.attempts, a.error = none := by decide +kernel
    exact fun a ha _ => hclean a ha
  · refine ⟨.path ⟨"t1"⟩, ⟨⟨⟨"alpha"⟩, .path ⟨"t1"⟩, false, false, 2⟩, ?_, rfl⟩,
      fun h => by cases h⟩
    decide +kernel
  · intro m k hwanted
    obtain ⟨c, hc, -⟩ := hwanted.1
    obtain ⟨g, hgroup⟩ := exists_group_of_claim? hc
    rcases youngerFirst_groups hgroup with rfl | rfl
    · exact .inl rfl
    · exact .inr (by decide)

/-- A group without routes that asked second keeps the prefix from one that asked first. -/
theorem younger_claim_keeps :
    youngerFirst.Reachable ∧ (∀ m, ¬ youngerFirst.Records m (.host (.v4 1))) ∧
      (∃ c, youngerFirst.Claimed (.host (.v4 1)) c ∧ c.group = ⟨"beta"⟩ ∧
        ∀ c', youngerFirst.Claimed (.host (.v4 1)) c' → c.number ≤ c'.number) ∧
      ¬ (youngerFirst.reconcileWith RouteTable.memory (fun _ => .inOrder) .empty).router.Holds
        ⟨"beta"⟩ (.host (.v4 1)) := by
  have hr := youngerFirst_reachable
  have hcontest : youngerFirst.contests.get? (.host (.v4 1)) =
      some [⟨⟨"alpha"⟩, .path ⟨"t1"⟩, false, false, 2⟩,
        ⟨⟨"beta"⟩, .path ⟨"t1"⟩, false, false, 1⟩] := by
    decide +kernel
  refine ⟨hr, ?_, ?_, ?_⟩
  · have howners : youngerFirst.owners.get? (.host (.v4 1)) = none := by decide +kernel
    exact (get?_owners_eq_none_iff hr.keyed).1 howners
  · refine ⟨⟨⟨"beta"⟩, .path ⟨"t1"⟩, false, false, 1⟩, ?_, rfl, ?_⟩
    · exact mem_contest_iff.1 ⟨_, hcontest, by simp⟩
    · intro c' hc'
      obtain ⟨cs, hcs, hmem⟩ := mem_contest_iff.2 hc'
      rw [hcontest] at hcs
      cases hcs
      simp only [List.mem_cons, List.not_mem_nil, or_false] at hmem
      rcases hmem with rfl | rfl <;> decide
  · intro hbeta
    have halpha : (youngerFirst.reconcileWith RouteTable.memory (fun _ => .inOrder)
        .empty).router.claim? ⟨"alpha"⟩ (.path ⟨"t1"⟩) (.host (.v4 1)) =
          some ⟨⟨"alpha"⟩, .path ⟨"t1"⟩, true, false, 2⟩ := by decide +kernel
    have hk := hr.keyed.reconcileWith RouteTable.memory (fun _ => .inOrder) .empty
    have hsame := (hbeta.2 _ (claimed_of_claim? hk halpha)).1 rfl
    revert hsame
    decide

/-- Alpha and beta have routes to two addresses, and alpha then moves to that of beta. -/
def movedOver : Reconciled RouteTable.Memory :=
  let s := (((Router.new .default).addPeer ⟨"alpha"⟩ (.v4 "t1" "wg-a" 2)).addPeer ⟨"beta"⟩
    (.v4 "t1" "wg-b" 1)).reconcileWith RouteTable.memory (fun _ => .inOrder) .empty
  { s with router := s.router.addPeer ⟨"alpha"⟩ (.v4 "t1" "wg-a" 1) }

/-- The group whose route is in the table loses the prefix to one that moved over with a mark. -/
theorem installed_claim_loses :
    movedOver.router.Reachable ∧
      movedOver.table.routes.get? (.host (.v4 1)) = some ⟨"wg-b", none⟩ ∧
      ¬ (movedOver.router.reconcileWith RouteTable.memory (fun _ => .inOrder)
        movedOver.table).router.Holds ⟨"beta"⟩ (.host (.v4 1)) := by
  have hr : movedOver.router.Reachable := by
    dsimp only [movedOver]
    exact ((((Reachable.new _).addPeer _ _).addPeer _ _).reconcile RouteTable.memory
      (fun _ => .inOrder) .empty).addPeer _ _
  refine ⟨hr, by decide +kernel, ?_⟩
  intro hbeta
  have halpha : (movedOver.router.reconcileWith RouteTable.memory (fun _ => .inOrder)
      movedOver.table).router.claim? ⟨"alpha"⟩ (.path ⟨"t1"⟩) (.host (.v4 1)) =
        some ⟨⟨"alpha"⟩, .path ⟨"t1"⟩, true, false, 1⟩ := by decide +kernel
  have hk := hr.keyed.reconcileWith RouteTable.memory (fun _ => .inOrder) movedOver.table
  have hsame := (hbeta.2 _ (claimed_of_claim? hk halpha)).1 rfl
  revert hsame
  decide

end Router

end RouteKeeper
