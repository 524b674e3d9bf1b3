import RouteKeeper.Proofs.ChangeEvents
import RouteKeeper.Proofs.OnCourse
import RouteKeeper.Proofs.VisitOrder

/-!
# What statuses tell of attempts

A status is kept for each destination of a group, and a later one takes the place of an earlier one.
So a report without failures says that the latest attempt at every destination succeeded. Where two
entries of a group are for one destination, the latest attempt may be that of the other entry, and
the failure of the one is not told.

## Main definitions

* `latestAt?`, `latestFor?` — the latest attempt at a destination, and that for one entry there.
* `Ledger.Current` — what stands for a destination is the outcome of the latest attempt, or a loss.
* `Router.Lists` — the router has an entry for the destination.

## Main statements

* `Ledger.Current.entered` — what any step enters keeps the ledger current.
* `Stage.Turned.entered`, `Resolution.disable_entered` — what the single steps enter.
* `Router.isOk_report_iff_latest` — what a report without failures says.
* `Router.paired_ok` — a failure that is not told.
-/
namespace RouteKeeper

variable {σ : Type} {n : GroupName} {k : Claimant} {d : Prefix}

/-! ## Latest attempts at a destination -/

/-- The latest attempt at a destination of a group; the newest attempt stands first. -/
def latestAt? (n : GroupName) (d : Prefix) (attempts : List Attempt) : Option Attempt :=
  attempts.find? fun a => a.group = n ∧ a.destination = d

/-- The latest attempt for an entry at a destination. -/
def latestFor? (n : GroupName) (k : Claimant) (d : Prefix) (attempts : List Attempt) :
    Option Attempt :=
  attempts.find? fun a => a.group = n ∧ a.claimant = k ∧ a.destination = d

theorem latestAt?_cons (n : GroupName) (d : Prefix) (a : Attempt) (attempts : List Attempt) :
    latestAt? n d (a :: attempts) =
      if n = a.group ∧ d = a.destination then some a else latestAt? n d attempts := by
  simp only [latestAt?, List.find?_cons, eq_comm (a := n), eq_comm (a := d)]
  by_cases h : a.group = n ∧ a.destination = d <;> simp [h]

theorem mem_of_latestAt? {attempts : List Attempt} {a : Attempt}
    (h : latestAt? n d attempts = some a) :
    a ∈ attempts ∧ a.group = n ∧ a.destination = d :=
  ⟨List.mem_of_find?_eq_some h, by simpa using List.find?_some h⟩

/-- The latest attempt for an entry is the latest at its destination, unless that was for another
entry. -/
theorem exists_latestAt? {attempts : List Attempt} {a : Attempt}
    (h : latestFor? n k d attempts = some a) :
    ∃ b, latestAt? n d attempts = some b ∧ (b.claimant = k → b = a) := by
  induction attempts with
  | nil => cases h
  | cons b rest ih =>
    rw [latestAt?_cons]
    rw [latestFor?, List.find?_cons] at h
    by_cases hkey : n = b.group ∧ d = b.destination
    · refine ⟨b, if_pos hkey, fun hk => ?_⟩
      simpa [hkey, hk] using h
    · have hskip : ¬ (b.group = n ∧ b.claimant = k ∧ b.destination = d) :=
        fun h => hkey ⟨h.1.symm, h.2.2.symm⟩
      rw [if_neg hkey]
      simp only [hskip, decide_false] at h
      exact ih h

/-! ## Current ledgers -/

/-- The outcome fits an attempt with this error, or without one. -/
def Outcome.Tells (o : Outcome) : Option Error → Prop
  | none => o.isOk = true
  | some e => o = .failed e

theorem Outcome.Tells.isOk_iff {o : Outcome} {error : Option Error} (h : o.Tells error) :
    o.isOk = true ↔ error = none := by
  cases error with
  | none => exact iff_of_true h rfl
  | some e =>
    rw [show o = .failed e from h]
    exact iff_of_false (by simp [Outcome.isOk]) (by simp)

namespace Ledger

/-- What may stand for a destination by the latest attempt at it: its outcome, or a loss. -/
inductive Stands : Option Outcome → Option Attempt → Prop
  | untried : Stands none none
  | tried {o : Outcome} {a : Attempt} (htells : o.Tells a.error) : Stands (some o) (some a)
  | lost {winner : GroupName} {a : Option Attempt} : Stands (some (.lost winner)) a

/-- For every destination of a group there stands the outcome of the latest attempt, or a loss. -/
def Current (l : Ledger) : Prop := ∀ n d, Stands (l.outcome? n d) (latestAt? n d l.attempts)

/-- What one step enters: nothing, an attempt with its outcome, or a loss with the attempts that it
took. -/
inductive Entered (l l' : Ledger) : Prop
  | nothing (hattempts : l'.attempts = l.attempts) (houtcomes : l'.outcomes = l.outcomes)
  | tried {a : Attempt} {o : Outcome} (hattempts : l'.attempts = a :: l.attempts)
    (houtcomes : l'.outcomes = (l.outcome a.group a.destination o).outcomes)
    (htells : o.Tells a.error)
  | lost {n : GroupName} {d : Prefix} {winner : GroupName} {made : List Attempt}
    (hattempts : l'.attempts = made ++ l.attempts)
    (hmade : ∀ a ∈ made, a.group = n ∧ a.destination = d)
    (houtcomes : l'.outcomes = (l.outcome n d (.lost winner)).outcomes)

variable {l l' : Ledger}

/-- A change of connection that is entered as well is neither an attempt nor an outcome. -/
theorem Entered.change (h : Entered l l') (n : GroupName)
    (previous current : Option ConnectionName) : Entered l (l'.change n previous current) := by
  cases h with
  | nothing hattempts houtcomes => exact .nothing hattempts houtcomes
  | tried hattempts houtcomes htells => exact .tried hattempts houtcomes htells
  | lost hattempts hmade houtcomes => exact .lost hattempts hmade houtcomes

theorem current_empty : Ledger.empty.Current := fun _ _ => .untried

theorem outcome?_of_outcomes {o : Outcome} (h : l'.outcomes = (l.outcome n d o).outcomes)
    (m : GroupName) (e : Prefix) :
    l'.outcome? m e = if m = n ∧ e = d then some o else l.outcome? m e := by
  rw [outcome?, h, ← outcome?, outcome?_outcome]

/-- What any step enters keeps the ledger current. -/
theorem Current.entered (h : l.Current) (hentered : Entered l l') : l'.Current := by
  intro m e
  cases hentered with
  | nothing hattempts houtcomes =>
    rw [outcome?, houtcomes, ← outcome?, hattempts]
    exact h m e
  | @tried a o hattempts houtcomes htells =>
    rw [outcome?_of_outcomes houtcomes, hattempts, latestAt?_cons]
    by_cases hkey : m = a.group ∧ e = a.destination
    · rw [if_pos hkey, if_pos hkey]
      exact .tried htells
    · rw [if_neg hkey, if_neg hkey]
      exact h m e
  | @lost n d winner made hattempts hmade houtcomes =>
    rw [outcome?_of_outcomes houtcomes]
    by_cases hkey : m = n ∧ e = d
    · rw [if_pos hkey]
      exact .lost
    · have hnone : latestAt? m e made = none := by
        refine List.find?_eq_none.2 fun a ha => ?_
        obtain ⟨hgroup, hdestination⟩ := hmade a ha
        simpa [hgroup, hdestination, @eq_comm _ n, @eq_comm _ d] using hkey
      rw [if_neg hkey, hattempts, latestAt?, List.find?_append, ← latestAt?, hnone,
        Option.none_or]
      exact h m e

/-- A report is without failures if all outcomes that stand are good. -/
theorem isOk_report_iff {iterations conflictsResolved : Nat} :
    (l.report iterations conflictsResolved).isOk = true ↔
      ∀ n d o, l.outcome? n d = some o → o.isOk = true := by
  simp only [Report.isOk, Report.allStatuses, report, outcome?, List.all_eq_true,
    List.mem_flatten, OrderedMap.mem_values_iff, OrderedMap.get?_mapWithKey,
    Option.map_eq_some_iff, Option.bind_eq_some_iff]
  constructor
  · intro h n d o houtcome
    obtain ⟨m, hm, ho⟩ := houtcome
    refine h ⟨n, d, o.isOk, o.message⟩ ⟨_, ⟨n, m, hm, rfl⟩, ?_⟩
    exact List.mem_map.2 ⟨(d, o), OrderedMap.get?_eq_some_iff.1 ho, rfl⟩
  · rintro h status ⟨_, ⟨n, m, hm, rfl⟩, hstatus⟩
    obtain ⟨⟨d, o⟩, hmem, rfl⟩ := List.mem_map.1 hstatus
    exact h n d o ⟨m, hm, OrderedMap.get?_eq_some_iff.2 hmem⟩

/-- In a current ledger all outcomes are good if the latest attempt at every destination succeeded
and no loss stands. -/
theorem Current.isOk_iff (h : l.Current) :
    (∀ n d o, l.outcome? n d = some o → o.isOk = true) ↔
      (∀ n d a, latestAt? n d l.attempts = some a → a.error = none) ∧
        ∀ n d winner, l.outcome? n d ≠ some (.lost winner) := by
  constructor
  · intro hok
    refine ⟨fun n d a ha => ?_, fun n d winner hlost => by cases hok n d _ hlost⟩
    have hstands := h n d
    rw [ha] at hstands
    generalize ho : l.outcome? n d = outcome at hstands
    cases hstands with
    | tried htells => exact htells.isOk_iff.1 (hok n d _ ho)
    | lost => cases hok n d _ ho
  · intro hlatest n d o ho
    have hstands := h n d
    rw [ho] at hstands
    generalize ha : latestAt? n d l.attempts = latest at hstands
    cases hstands with
    | tried htells => exact htells.isOk_iff.2 (hlatest.1 n d _ ha)
    | lost => exact absurd ho (hlatest.2 n d _)

end Ledger

/-! ## What the steps enter -/

theorem isOk_of_install {T : RouteTable σ} {managed : List String} {hop : Hop} {table table' : σ}
    {o : Outcome} (h : install T managed d hop table = (.ok o, table')) : o.isOk = true := by
  unfold install at h
  split at h
  case h_1 => cases h
  case h_2 =>
    split at h <;> cases h
    rfl
  case h_3 =>
    split at h
    case isTrue =>
      split at h <;> cases h
      rfl
    case isFalse => cases h

namespace Pass

variable (pass : Pass σ)

theorem entered_tried_error (table : σ) (n : GroupName) (k : Claimant) (d : Prefix)
    (action : Action) (e : Error) :
    pass.ledger.Entered (pass.tried table n k d action (.error e)).ledger :=
  .tried (o := .failed e) (attempts_tried_error ..) (outcomes_tried ..) rfl

theorem entered_tried_ok {o : Outcome} (h : o.isOk = true) (table : σ) (n : GroupName)
    (k : Claimant) (d : Prefix) (action : Action) :
    pass.ledger.Entered (pass.tried table n k d action (.ok o)).ledger :=
  .tried (attempts_tried_ok ..) (outcomes_tried ..) h

/-- The change of connection that a service may make is entered beside the attempt. -/
theorem entered_finishService {o : Outcome} (h : o.isOk = true) (group : GroupName)
    (service : Service) (table : σ) (action : Action) (current : Option ActiveRoute) :
    pass.ledger.Entered
      (finishService group service pass table action (.ok o) current).2.ledger := by
  refine .tried (o := o) (attempts_finishService_ok ..) ?_ h
  cases current <;> simp [finishService, Ledger.change, outcomes_tried, entered]

end Pass

section Turns

variable {T : RouteTable σ} {managed : List String}

theorem PathTurn.entered {pass pass' : Pass σ} {path : Path} {kept : Option Path}
    (h : PathTurn T managed n pass path kept pass') : pass.ledger.Entered pass'.ledger := by
  cases h with
  | drop | idle => exact .nothing rfl rfl
  | remove =>
    rw [Pass.ledger_disown]
    exact pass.entered_tried_ok rfl ..
  | install _ _ _ _ hcall =>
    rw [Pass.ledger_own]
    exact pass.entered_tried_ok (isOk_of_install hcall) ..
  | removeFailed | installFailed => exact pass.entered_tried_error ..

theorem ServiceTurn.entered {g : Group} {pass pass' : Pass σ} {service : Service}
    {kept : Option Service} (h : ServiceTurn T managed g pass service kept pass') :
    pass.ledger.Entered pass'.ledger := by
  cases h with
  | keep | blocked => exact .nothing rfl rfl
  | clear | move => exact pass.entered_finishService rfl ..
  | install _ _ _ hcall => exact pass.entered_finishService (isOk_of_install hcall) ..
  | clearFailed | installFailed | moveFailed => exact pass.entered_tried_error ..

/-- A turn enters at most one attempt, with its outcome. -/
theorem Stage.Turned.entered {s s' : Stage σ} {turn : Turn} (h : Turned T managed s turn s') :
    s.pass.ledger.Entered s'.pass.ledger := by
  cases h with
  | noPath | noGroup | select | noService => exact .nothing rfl rfl
  | path _ _ hturn => exact hturn.entered
  | service _ _ hturn => exact hturn.entered

end Turns

/-- Whether or not the route of a lost claim can be removed, it is the loss that is entered. -/
theorem Resolution.disable_entered (T : RouteTable σ) (res : Resolution σ) (d : Prefix)
    (claim : Claim) (winner : GroupName) :
    res.ledger.Entered (res.disable T d claim winner).ledger := by
  obtain ⟨r, table, ledger⟩ := res
  unfold disable
  cases r.groups.get? claim.group with
  | none => exact .nothing rfl rfl
  | some g =>
    simp only
    have hkept : ledger.Entered (ledger.outcome claim.group d (.lost winner)) :=
      .lost (List.nil_append _).symm (by simp) rfl
    have hremoved : ∀ interface, ∃ removed r' table' ledger',
        remove T ⟨r, table, ledger.outcome claim.group d (.lost winner)⟩ d claim interface =
          (removed, ⟨r', table', ledger'⟩) ∧ ledger.Entered ledger' := by
      intro interface
      obtain ⟨table', error, hremove⟩ := exists_remove_eq T r table
        (ledger.outcome claim.group d (.lost winner)) d claim interface
      exact ⟨_, _, _, _, hremove, .lost List.singleton_append.symm (by simp) rfl⟩
    cases claim.claimant with
    | path connection =>
      simp only
      cases g.paths.get? connection with
      | none => exact hkept
      | some p =>
        cases hroute : p.installed with
        | none =>
          simp only [hroute]
          exact hkept
        | some interface =>
          obtain ⟨removed, r', table', ledger', hremove, hentered⟩ := hremoved interface
          simp only [hroute, hremove]
          exact hentered
    | service =>
      simp only
      cases g.services.get? d with
      | none => exact hkept
      | some service =>
        cases hroute : service.active with
        | none =>
          simp only [hroute]
          exact hkept
        | some route =>
          obtain ⟨removed, r', table', ledger', hremove, hentered⟩ := hremoved route.hop.interface
          simp only [hroute, hremove]
          cases removed with
          | false => exact hentered
          | true => exact hentered.change ..

/-- At the end of a reconciliation the ledger is current. -/
theorem Router.current_reconcileWith {r : Router} (hk : r.Keyed) (T : RouteTable σ)
    (visits : Nat → Visit) (table : σ) : (r.reconcileWith T visits table).ledger.Current := by
  refine reconcileWith_ledger hk (P := fun _ l => l.Current) Ledger.current_empty ?_ ?_ ?_ ?_
  · intro managed turn s s' _ hturned h
    exact h.entered hturned.entered
  · intro res d claim winner h
    exact h.entered (res.disable_entered T d claim winner)
  · intro res d claim h
    exact h
  · intro r' l h
    exact h

/-! ## Entries and their attempts -/

namespace Router

/-- The router has the entry, and this is for the destination. -/
def Lists (r : Router) (n : GroupName) (k : Claimant) (d : Prefix) : Prop :=
  match k with
  | .path c => ∃ p, r.path? n c = some p ∧ p.destination = d
  | .service => ∃ s, r.service? n d = some s

variable {r r' : Router}

theorem Remains.lists (h : r.Remains r') (hlists : r'.Lists n k d) : r.Lists n k d := by
  cases k with
  | path c =>
    obtain ⟨p', hp', hd⟩ := hlists
    obtain ⟨p, hp, hspec⟩ := h.path hp'
    refine ⟨p, hp, ?_⟩
    rw [← hd, Path.destination, Path.destination, hspec]
  | service =>
    obtain ⟨s', hs'⟩ := hlists
    exact h.service hs'

theorem lists_of_route? {i : String} (h : r.route? n k d = some i) : r.Lists n k d := by
  cases k with
  | path c =>
    obtain ⟨p, hp, hd, -⟩ := route?_path_eq_some_iff.1 h
    exact ⟨p, hp, hd⟩
  | service =>
    obtain ⟨s, -, hs, -⟩ := route?_service_eq_some_iff.1 h
    exact ⟨s, hs⟩

theorem lists_of_claim? {c : Claim} (h : r.claim? n k d = some c) : r.Lists n k d := by
  cases k with
  | path connection =>
    obtain ⟨p, hp, -, hd, -⟩ := claim?_path_eq_some_iff.1 h
    exact ⟨p, hp, hd⟩
  | service =>
    obtain ⟨s, hs, -⟩ := claim?_service_eq_some_iff.1 h
    exact ⟨s, hs⟩

end Router

theorem Stage.Cause.lists {s : Stage σ} {action : Action} (h : s.Cause n k d action) :
    s.router.Lists n k d := by
  cases h with
  | surplus hhad => exact Router.lists_of_route? hhad
  | missing hdue | misplaced _ hdue =>
    obtain ⟨c, hc, -⟩ := hdue.1
    exact Router.lists_of_claim? hc

/-- A claim that is disabled is that of an entry, and at most one attempt is made, for this. -/
theorem Resolution.Disabled.mem_attempts_lists {T : RouteTable σ} {res res' : Resolution σ}
    {e : Prefix} {claim : Claim} (h : Disabled T res e claim res') {a : Attempt}
    (ha : a ∈ res'.ledger.attempts) :
    a ∈ res.ledger.attempts ∨ res.router.Lists a.group a.claimant a.destination := by
  have hclaim : res.router.Lists claim.group claim.claimant e := by
    cases h with
    | path hclaimant hgroup hpath _ hdestination =>
      rw [hclaimant]
      exact ⟨_, Router.path?_eq_some_iff.2 ⟨_, hgroup, hpath⟩, hdestination⟩
    | service hclaimant hgroup hservice =>
      rw [hclaimant]
      exact ⟨_, Router.service?_eq_some_iff.2 ⟨_, hgroup, hservice⟩⟩
  have hattempts : ∀ {route stays table},
      Withdrawal T claim e res.table res.ledger.attempts route stays table res'.ledger.attempts →
        a ∈ res.ledger.attempts ∨ res.router.Lists a.group a.claimant a.destination := by
    intro route stays table hroute
    generalize res'.ledger.attempts = attempts at ha hroute
    cases hroute with
    | absent => exact .inl ha
    | removed | failed =>
      rcases List.mem_cons.1 ha with rfl | ha
      · exact .inr hclaim
      · exact .inl ha
  cases h with
  | path _ _ _ _ _ hroute => exact hattempts hroute
  | service _ _ _ _ hroute => exact hattempts hroute

namespace Router

/-- A reconciliation makes attempts only for entries of the router that it began with, each at its
destination. -/
theorem lists_of_attempt {r : Router} (hk : r.Keyed) (T : RouteTable σ) (visits : Nat → Visit)
    (table : σ) {a : Attempt} (ha : a ∈ (r.reconcileWith T visits table).ledger.attempts) :
    r.Lists a.group a.claimant a.destination := by
  let P (r' : Router) (attempts : List Attempt) : Prop :=
    r.Remains r' ∧ ∀ a ∈ attempts, r.Lists a.group a.claimant a.destination
  have hlast : P (r.reconcileWith T visits table).router
      (r.reconcileWith T visits table).ledger.attempts := by
    refine reconcileWith_stages hk (A := fun _ => True) (fun _ _ => trivial)
      (Q := fun r' _ attempts => P r' attempts)
      (S := fun _ s => P s.router s.pass.ledger.attempts) ⟨.refl r, by simp⟩
      (fun _ _ _ _ h => h) ?_ (fun _ _ h => h) ?_ ?_ ?_
    · intro managed turn s s' hs hturned _ h
      refine ⟨h.1.trans (hturned.remains hs), ?_⟩
      rcases hturned.cause hs with hsame | ⟨n, k, d, action, error, -, hattempts, hcause⟩
      · rw [hsame]
        exact h.2
      · rw [hattempts]
        exact List.forall_mem_cons.2 ⟨h.1.lists hcause.lists, h.2⟩
    · intro res e claim res' _ hdisabled _ h
      refine ⟨h.1.trans hdisabled.remains, fun a ha => ?_⟩
      rcases hdisabled.mem_attempts_lists ha with ha | hlists
      · exact h.2 a ha
      · exact h.1.lists hlists
    · intro res e claim res' _ henabled h
      refine ⟨h.1.trans henabled.remains, ?_⟩
      cases henabled <;> exact h.2
    · intro r' t attempts h
      exact ⟨h.1.trans (remains_pruned r'), h.2⟩
  exact hlast.2 a ha

/-! ## Reports -/

/-- Over any table, whichever calls fail, a report is without failures exactly if the latest attempt
at every destination of a group succeeded and no loss stands. Attempts are made for entries of the
router at their destinations. If a report is without failures, an entry whose own latest attempt
failed shares its destination with another entry of its group, for which a later attempt succeeded.
So of an entry that is the only one of its group for its destination, the latest attempt
succeeded. -/
theorem isOk_report_iff_latest {r : Router} (hr : r.Reachable) (T : RouteTable σ)
    (visits : Nat → Visit) (table : σ) :
    let s := r.reconcileWith T visits table
    let attempts := s.ledger.attempts
    let report := s.ledger.report s.passes s.resolved
    (report.isOk = true ↔ (∀ n d a, latestAt? n d attempts = some a → a.error = none) ∧
      ∀ n d winner, s.ledger.outcome? n d ≠ some (.lost winner)) ∧
    (∀ a ∈ attempts, r.Lists a.group a.claimant a.destination) ∧
    (report.isOk = true →
      (∀ n k d a, latestFor? n k d attempts = some a → a.error ≠ none →
        ∃ b, latestAt? n d attempts = some b ∧ b.error = none ∧ b.claimant ≠ k ∧
          r.Lists n b.claimant d) ∧
      ∀ n k d, (∀ j, r.Lists n j d → j = k) →
        ∀ a, latestFor? n k d attempts = some a → a.error = none) := by
  intro s attempts report
  have hiff : report.isOk = true ↔ (∀ n d a, latestAt? n d attempts = some a → a.error = none) ∧
      ∀ n d winner, s.ledger.outcome? n d ≠ some (.lost winner) :=
    Ledger.isOk_report_iff.trans (current_reconcileWith hr.keyed T visits table).isOk_iff
  have hlists : ∀ a ∈ attempts, r.Lists a.group a.claimant a.destination := fun a ha =>
    lists_of_attempt hr.keyed T visits table ha
  refine ⟨hiff, hlists, fun hok => ?_⟩
  have hlatest := (hiff.1 hok).1
  have hother : ∀ n k d a, latestFor? n k d attempts = some a → a.error ≠ none →
      ∃ b, latestAt? n d attempts = some b ∧ b.error = none ∧ b.claimant ≠ k ∧
        r.Lists n b.claimant d := by
    intro n k d a ha hfailed
    obtain ⟨b, hb, hsame⟩ := exists_latestAt? ha
    have hsucceeded := hlatest n d b hb
    obtain ⟨hmem, rfl, rfl⟩ := mem_of_latestAt? hb
    refine ⟨b, hb, hsucceeded, fun hk => hfailed ?_, hlists b hmem⟩
    rw [← hsame hk]
    exact hsucceeded
  refine ⟨hother, fun n k d halone a ha => ?_⟩
  by_contra hfailed
  obtain ⟨b, -, -, hne, hb⟩ := hother n k d a ha hfailed
  exact hne (halone _ hb)

/-- Two paths of a group to one address. -/
def paired : Router :=
  ((Router.new .default).addPeer ⟨"alpha"⟩ (.v4 "t1" "wg-a" 1)).addPeer ⟨"alpha"⟩
    (.v4 "t2" "wg-b" 1)

theorem paired_reachable : paired.Reachable := by
  dsimp only [paired]
  exact ((Reachable.new _).addPeer _ _).addPeer _ _

/-- A table that refuses to make the first new route. -/
def refusesFirst : RouteTable.Memory := ⟨.empty, [⟨.add, none, .refused, "busy", some 1⟩]⟩

/-- The attempt that this table fails. -/
def refused : Attempt :=
  ⟨⟨"alpha"⟩, .path ⟨"t1"⟩, .host (.v4 1), .install ⟨"wg-a", none⟩,
    some (.route (.addFailed "0.0.0.1/32" "wg-a" "busy"))⟩

/-- The route of the first path cannot be made, that of the second can, and the report is without
failures. -/
theorem paired_ok :
    let s := paired.reconcileWith RouteTable.memory (fun _ => .inOrder) refusesFirst
    paired.Reachable ∧ (s.ledger.report s.passes s.resolved).isOk = true ∧
      paired.Lists ⟨"alpha"⟩ (.path ⟨"t1"⟩) (.host (.v4 1)) ∧
      ∃ a, latestFor? ⟨"alpha"⟩ (.path ⟨"t1"⟩) (.host (.v4 1)) s.ledger.attempts = some a ∧
        a.error ≠ none := by
  refine ⟨paired_reachable, by decide +kernel, ?_, refused, by decide +kernel, by decide⟩
  exact ⟨_, rfl, rfl⟩

/-- The failure is behind the success of the other path. -/
theorem isOk_report_iff_latest_paired :
    let s := paired.reconcileWith RouteTable.memory (fun _ => .inOrder) refusesFirst
    paired.Reachable ∧ (s.ledger.report s.passes s.resolved).isOk = true ∧
      ∃ b, latestAt? ⟨"alpha"⟩ (.host (.v4 1)) s.ledger.attempts = some b ∧ b.error = none ∧
        b.claimant ≠ .path ⟨"t1"⟩ ∧ paired.Lists ⟨"alpha"⟩ b.claimant (.host (.v4 1)) := by
  intro s
  have hok : (s.ledger.report s.passes s.resolved).isOk = true := by decide +kernel
  obtain ⟨-, -, htells⟩ :=
    isOk_report_iff_latest paired_reachable RouteTable.memory (fun _ => .inOrder) refusesFirst
  refine ⟨paired_reachable, hok, (htells hok).1 _ (.path ⟨"t1"⟩) _ refused ?_ ?_⟩
  · decide +kernel
  · decide

end Router

end RouteKeeper
