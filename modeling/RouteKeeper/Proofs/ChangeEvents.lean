import RouteKeeper.Proofs.Foreign
import RouteKeeper.Proofs.Waiting

/-!
# What change events tell

The changes of all services of a group are folded into one pair: the connection before the first
change, and the connection after the last. These may belong to different services. So an event tells
where the first service that moved came from and where the last one went, and if the two are the
same, nothing is told even though services moved.

## Main definitions

* `Ledger.moved` — the services of a group whose routes were changed, in this order.
* `Router.Shift` — a step moves the route of at most one service.

## Main statements

* `Stage.Turned.shift`, `Resolution.disable_shift`, `Resolution.enable_shift` — the single steps.
* `Router.mem_changes_iff` — when a change is reported, and which.
* `Router.crossing_silent` — two services that swap their connections go unreported.
-/
namespace RouteKeeper

variable {σ : Type}

namespace Ledger

/-- The services of a group whose routes were changed, one entry for each change, the oldest
first. -/
def moved (l : Ledger) (n : GroupName) : List Prefix :=
  ((l.attempts.filter fun a => a.group = n ∧ a.claimant = .service ∧ a.error = none).map
    Attempt.destination).reverse

theorem moved_of_cons {l l' : Ledger} {a : Attempt} (h : l'.attempts = a :: l.attempts)
    (n : GroupName) :
    l'.moved n =
      if a.group = n ∧ a.claimant = .service ∧ a.error = none then l.moved n ++ [a.destination]
      else l.moved n := by
  simp only [moved, h, List.filter_cons, decide_eq_true_eq]
  split <;> simp

theorem get?_changes_change (l : Ledger) (n m : GroupName)
    (previous current : Option ConnectionName) :
    (l.change n previous current).changes.get? m =
      if m = n then
        some (((l.changes.get? n).map fun c => (c.1, current)).getD (previous, current))
      else l.changes.get? m := by
  rw [change, OrderedMap.get?_insert]

theorem changes_report (l : Ledger) (iterations conflictsResolved : Nat) :
    (l.report iterations conflictsResolved).changes =
      (l.changes.entries.filter fun e => e.2.1 ≠ e.2.2).map fun e => ⟨e.1, e.2.1, e.2.2⟩ := by
  simp only [report]
  induction l.changes.entries with
  | nil => rfl
  | cons e rest ih => by_cases he : e.2.1 = e.2.2 <;> simp [he, ih]

/-- A change is reported if it did not come back to where it started. -/
theorem mem_changes_report {l : Ledger} {iterations conflictsResolved : Nat} {n : GroupName}
    {p c : Option ConnectionName} :
    ⟨n, p, c⟩ ∈ (l.report iterations conflictsResolved).changes ↔
      l.changes.get? n = some (p, c) ∧ p ≠ c := by
  rw [changes_report, OrderedMap.get?_eq_some_iff]
  simp only [List.mem_map, List.mem_filter, decide_eq_true_eq, PathChange.mk.injEq]
  constructor
  · rintro ⟨⟨n, p, c⟩, ⟨hmem, hne⟩, rfl, rfl, rfl⟩
    exact ⟨hmem, hne⟩
  · intro h
    exact ⟨(n, p, c), h, rfl, rfl, rfl⟩

/-- At most one change is reported for each group. -/
theorem nodup_changes_report (l : Ledger) (iterations conflictsResolved : Nat) :
    ((l.report iterations conflictsResolved).changes.map PathChange.group).Nodup := by
  rw [changes_report, List.map_map]
  exact l.changes.nodup_keys.sublist (List.filter_sublist.map _)

end Ledger

/-! ## Single steps -/

namespace Router

/-- A step leaves the routes of all services where they are, or moves that of one and enters this as
a change. -/
inductive Shift (r : Router) (l : Ledger) (r' : Router) (l' : Ledger) : Prop
  | still (hthrough : ∀ n d, r'.through? n d = r.through? n d) (hchanges : l'.changes = l.changes)
    (hmoved : ∀ n, l'.moved n = l.moved n) : Shift r l r' l'
  | moved {n : GroupName} {d : Prefix}
    (hthrough : ∀ m e, ¬ (m = n ∧ e = d) → r'.through? m e = r.through? m e)
    (hchanges : l'.changes = (l.change n (r.through? n d) (r'.through? n d)).changes)
    (hmoved : ∀ m, l'.moved m = if m = n then l.moved m ++ [d] else l.moved m) : Shift r l r' l'

/-- The ledger tells how the routes of services differ from those of the router `r₀`: a service that
was not moved has the connection it had, and of those of a group that were moved, the change goes
from the first to the last. -/
structure Tells (r₀ r : Router) (l : Ledger) : Prop where
  kept {n : GroupName} {d : Prefix} (h : d ∉ l.moved n) : r.through? n d = r₀.through? n d
  change (n : GroupName) : l.changes.get? n =
    (l.moved n).head?.bind fun first =>
      (l.moved n).getLast?.map fun last => (r₀.through? n first, r.through? n last)

variable {r₀ r r' : Router} {l l' : Ledger}

theorem tells_empty (r : Router) : Tells r r .empty where
  kept _ := rfl
  change _ := rfl

section PutGroup

variable {name : GroupName} {g : Group} (h : r.groups.get? name = some g)
include h

/-- Changing a path moves no service. -/
theorem through?_putPath (paths : Paths) (n : GroupName) (d : Prefix) :
    (r.putGroup name { g with paths }).through? n d = r.through? n d := by
  rw [through?, service?_putPath h, through?]

/-- Changing a service moves no other. -/
theorem through?_putService (d : Prefix) (kept : Option Service) (m : GroupName) (e : Prefix) :
    (r.putGroup name { g with services := g.services.put d kept }).through? m e =
      if m = name ∧ e = d then kept.bind fun s => s.active.map ActiveRoute.connection
      else r.through? m e := by
  rw [through?, service?_putService h]
  split <;> rfl

/-- A service that keeps its route moves nowhere. -/
theorem through?_putService_of_active (kept : Option Service) {d : Prefix} {service : Service}
    (hservice : g.services.get? d = some service)
    (hsame : (kept.bind fun s => s.active.map ActiveRoute.connection) =
      service.active.map ActiveRoute.connection) (m : GroupName) (e : Prefix) :
    (r.putGroup name { g with services := g.services.put d kept }).through? m e =
      r.through? m e := by
  rw [through?_putService h]
  split
  case isTrue hkey =>
    rw [hkey.1, hkey.2, hsame, through?_of_service? (service?_eq_some_iff.2 ⟨g, h, hservice⟩)]
  case isFalse => rfl

end PutGroup

theorem Tells.shift (h : Tells r₀ r l) (hshift : Shift r l r' l') : Tells r₀ r' l' := by
  cases hshift with
  | still hthrough hchanges hmoved =>
    refine ⟨?_, fun n => ?_⟩
    · intro n d hd
      rw [hmoved] at hd
      rw [hthrough, h.kept hd]
    · simp only [hchanges, hmoved, hthrough, h.change]
  | @moved n d hthrough hchanges hmoved =>
    refine ⟨?_, fun m => ?_⟩
    · intro m e he
      rw [hmoved] at he
      by_cases hm : m = n
      · subst hm
        rw [if_pos rfl, List.mem_append, not_or, List.mem_singleton] at he
        rw [hthrough m e fun hkey => he.2 hkey.2, h.kept he.1]
      · rw [if_neg hm] at he
        rw [hthrough m e fun hkey => hm hkey.1, h.kept he]
    · rw [hchanges, Ledger.get?_changes_change]
      by_cases hm : m = n
      · subst hm
        rw [if_pos rfl, hmoved, if_pos rfl, h.change]
        cases hl : l.moved m with
        | nil =>
          -- the first change of the group: the service still has the connection it had
          have hfirst : r.through? m d = r₀.through? m d := h.kept (by rw [hl]; simp)
          simp [hfirst]
        | cons first rest => simp [List.getLast?_cons]
      · simp only [if_neg hm, hmoved, h.change, hthrough m _ fun hkey => hm hkey.1]

end Router

@[simp] theorem Pass.changes_tried (pass : Pass σ) (table : σ) (group : GroupName)
    (claimant : Claimant) (d : Prefix) (action : Action) (result : Except Error Outcome) :
    (pass.tried table group claimant d action result).ledger.changes = pass.ledger.changes := by
  cases result <;> rfl

/-- An attempt for a service that succeeds is entered as a change. -/
theorem changes_finishService_ok (group : GroupName) (service : Service) (pass : Pass σ)
    (table : σ) (action : Action) (outcome : Outcome) (current : Option ActiveRoute) :
    (finishService group service pass table action (.ok outcome) current).2.ledger.changes =
      (pass.ledger.change group (service.active.map ActiveRoute.connection)
        (current.map ActiveRoute.connection)).changes := by
  cases current <;> simp [finishService, Ledger.change]

namespace Stage

variable {T : RouteTable σ} {managed : List String} {s s' : Stage σ} {turn : Turn}

/-- The turn of a service moves its route or leaves that of every service. -/
theorem shift_of_serviceTurn (hk : s.router.Keyed) {name : GroupName} {g : Group}
    {destination : Prefix} {service : Service} {kept : Option Service} {pass : Pass σ}
    (hgroup : s.router.groups.get? name = some g)
    (hservice : g.services.get? destination = some service)
    (hturn : ServiceTurn T managed g s.pass service kept pass) :
    s.router.Shift s.pass.ledger
      (s.router.putGroup name { g with services := g.services.put destination kept })
      pass.ledger := by
  have hs := Router.service?_eq_some_iff.2 ⟨g, hgroup, hservice⟩
  have hbefore := Router.through?_of_service? hs
  have hname := hk.name hgroup
  have hdestination := hk.destination hs
  subst hname hdestination
  have hstill := Router.through?_putService_of_active hgroup kept hservice
  have hmoves : ∀ {action outcome table current},
      kept = ({ service with active := current } : Service).settle →
      pass = (finishService g.name service s.pass table action (.ok outcome) current).2 →
      s.router.Shift s.pass.ledger (s.router.putGroup g.name
        { g with services := g.services.put service.destination kept }) pass.ledger := by
    intro action outcome table current hkept hpass
    refine .moved (n := g.name) (d := service.destination) ?_ ?_ ?_
    · intro m e hne
      rw [Router.through?_putService hgroup, if_neg hne]
    · rw [Router.through?_putService hgroup, if_pos ⟨rfl, rfl⟩, hkept, Service.bind_active_settle,
        hbefore, hpass, changes_finishService_ok]
    · intro m
      rw [hpass, Ledger.moved_of_cons (attempts_finishService_ok ..)]
      simp [eq_comm]
  cases hturn with
  | keep => exact .still (hstill (service.bind_active_settle _)) rfl fun _ => rfl
  | blocked => exact .still (hstill rfl) rfl fun _ => rfl
  | clearFailed | installFailed | moveFailed =>
    refine .still (hstill rfl) (by simp) fun m => ?_
    rw [Ledger.moved_of_cons (Pass.attempts_tried_error ..)]
    simp
  | clear | install | move => exact hmoves rfl rfl

/-- A turn moves the route of at most one service. -/
theorem Turned.shift (h : Turned T managed s turn s') (hk : s.router.Keyed) :
    s.router.Shift s.pass.ledger s'.router s'.pass.ledger := by
  cases h with
  | noPath | noGroup | noService => exact .still (fun _ _ => rfl) rfl fun _ => rfl
  | select hgroup =>
    refine .still (fun n d => ?_) rfl fun _ => rfl
    rw [Router.through?, Router.service?_reselect hgroup, Router.through?]
  | service hgroup hservice hturn => exact shift_of_serviceTurn hk hgroup hservice hturn
  | @path name g connection path kept pass hgroup hpath hturn =>
    refine .still (Router.through?_putPath hgroup _) ?_ fun n => ?_
    · cases hturn <;> simp
    · cases hturn with
      | drop | idle => rfl
      | remove | install =>
        simp [Ledger.moved_of_cons (Pass.attempts_tried_ok ..)]
      | removeFailed | installFailed =>
        simp [Ledger.moved_of_cons (Pass.attempts_tried_error ..)]

end Stage

namespace Resolution

variable {T : RouteTable σ} {res : Resolution σ}

/-- A removal enters one attempt, and was made if this has no error. -/
theorem exists_remove_eq (T : RouteTable σ) (r : Router) (table : σ) (ledger : Ledger)
    (d : Prefix) (claim : Claim) (interface : String) :
    ∃ table' error, remove T ⟨r, table, ledger⟩ d claim interface = (error.isNone,
      ⟨r, table', ledger.attempt ⟨claim.group, claim.claimant, d, .remove interface, error⟩⟩) := by
  rcases hcall : T.remove d interface table with ⟨e | _, table'⟩
  · exact ⟨table', some e, remove_of_error hcall claim⟩
  · exact ⟨table', none, remove_of_ok hcall claim⟩

/-- Taking a prefix from a claim moves the route of at most one service, and only away. -/
theorem disable_shift (T : RouteTable σ) (res : Resolution σ) (d : Prefix) (claim : Claim)
    (winner : GroupName) :
    res.router.Shift res.ledger (res.disable T d claim winner).router
      (res.disable T d claim winner).ledger := by
  obtain ⟨r, table, ledger⟩ := res
  unfold disable
  cases hgroup : r.groups.get? claim.group with
  | none => exact .still (fun _ _ => rfl) rfl fun _ => rfl
  | some g =>
    simp only
    cases hclaimant : claim.claimant with
    | path connection =>
      simp only
      cases g.paths.get? connection with
      | none => exact .still (fun _ _ => rfl) rfl fun _ => rfl
      | some p =>
        cases hroute : p.installed with
        | none =>
          simp only [hroute]
          rw [withGroup_of_get? hgroup]
          exact .still (Router.through?_putPath hgroup _) rfl fun _ => rfl
        | some interface =>
          obtain ⟨table', error, hremove⟩ := exists_remove_eq T r table
            (ledger.outcome claim.group d (.lost winner)) d claim interface
          simp only [hroute, hremove]
          rw [withGroup_of_get? hgroup]
          refine .still (Router.through?_putPath hgroup _) rfl fun n => ?_
          rw [Ledger.moved_of_cons (l := ledger) rfl, if_neg]
          simp [hclaimant]
    | service =>
      simp only
      cases hservice : g.services.get? d with
      | none => exact .still (fun _ _ => rfl) rfl fun _ => rfl
      | some service =>
        have hstill := fun active => Router.through?_putService_of_active hgroup
          (some { service with disabled := true, active }) hservice
        cases hroute : service.active with
        | none =>
          simp only [hroute]
          rw [withGroup_of_get? hgroup]
          exact .still (hstill none (by simp [hroute])) rfl fun _ => rfl
        | some route =>
          obtain ⟨table', error, hremove⟩ := exists_remove_eq T r table
            (ledger.outcome claim.group d (.lost winner)) d claim route.hop.interface
          simp only [hroute, hremove]
          cases error with
          | some e =>
            simp only [Option.isNone_some]
            rw [withGroup_of_get? hgroup]
            refine .still (hstill (some route) (by simp [hroute])) rfl fun n => ?_
            rw [Ledger.moved_of_cons (l := ledger) rfl, if_neg]
            simp
          | none =>
            simp only [Option.isNone_none]
            rw [withGroup_of_get? hgroup]
            have hthrough := Router.through?_putService hgroup d
              (some { service with disabled := true, active := none })
            refine .moved (n := claim.group) (d := d) ?_ ?_ ?_
            · intro m e hne
              exact (hthrough m e).trans (if_neg hne)
            · have hafter := (hthrough claim.group d).trans (if_pos ⟨rfl, rfl⟩)
              have hbefore := Router.through?_of_service?
                (Router.service?_eq_some_iff.2 ⟨g, hgroup, hservice⟩)
              rw [hroute] at hbefore
              simp only [OrderedMap.put, Option.bind_some, Option.map_none] at hafter
              simp only [hbefore, hafter]
              rfl
            · intro m
              rw [Ledger.moved_of_cons (l := ledger) rfl]
              simp [hclaimant, eq_comm]

/-- Giving a prefix back moves no route. -/
theorem enable_shift (res : Resolution σ) (d : Prefix) (claim : Claim) :
    res.router.Shift res.ledger (res.enable d claim).router (res.enable d claim).ledger := by
  refine .still (fun n e => ?_) rfl fun _ => rfl
  simp only [enable, withGroup, Router.through?, Router.service?, OrderedMap.get?_modify]
  split
  case isFalse => rfl
  case isTrue hn =>
    subst hn
    cases res.router.groups.get? claim.group with
    | none => rfl
    | some g =>
      simp only [Option.map_some, Option.bind_some]
      cases claim.claimant with
      | path connection => rfl
      | service =>
        simp only [OrderedMap.get?_modify]
        split
        case isTrue he =>
          subst he
          cases g.services.get? e <;> rfl
        case isFalse => rfl

end Resolution

namespace Router

variable {r : Router}

/-- At the end of a reconciliation the ledger tells how the routes of services have moved. -/
theorem tells_reconcileWith (hk : r.Keyed) (T : RouteTable σ) (visits : Nat → Visit) (table : σ) :
    Tells r (r.reconcileWith T visits table).router (r.reconcileWith T visits table).ledger := by
  refine reconcileWith_ledger hk (P := Tells r) (tells_empty r) ?_ ?_ ?_ ?_
  · intro managed turn s s' hs hturned h
    exact h.shift (hturned.shift hs)
  · intro res d claim winner h
    exact h.shift (res.disable_shift T d claim winner)
  · intro res d claim h
    exact h.shift (res.enable_shift d claim)
  · intro r' l h
    refine ⟨fun hd => (through?_pruned ..).trans (h.kept hd), fun n => ?_⟩
    simpa only [through?_pruned] using h.change n

/-! ## The report -/

/-- A report tells at most one change for each group. It tells one if the connection from which the
first service moved differs from the one to which the last service moved, and tells these two. The
services that did not move have the connections they had; so where a single service of a group
moved, the change is its own, and is told exactly if there is one. -/
theorem mem_changes_iff (hr : r.Reachable) (T : RouteTable σ) (visits : Nat → Visit) (table : σ)
    (n : GroupName) :
    let s := r.reconcileWith T visits table
    let report := s.ledger.report s.passes s.resolved
    (report.changes.map PathChange.group).Nodup ∧
      (∀ p c, ⟨n, p, c⟩ ∈ report.changes ↔
        ∃ first last, (s.ledger.moved n).head? = some first ∧
          (s.ledger.moved n).getLast? = some last ∧ p = r.through? n first ∧
          c = s.router.through? n last ∧ p ≠ c) ∧
      (∀ d, d ∉ s.ledger.moved n → s.router.through? n d = r.through? n d) ∧
      ∀ d, (∀ e ∈ s.ledger.moved n, e = d) → ∀ p c, ⟨n, p, c⟩ ∈ report.changes ↔
        (∃ e, s.router.through? n e ≠ r.through? n e) ∧ p = r.through? n d ∧
          c = s.router.through? n d := by
  have h := tells_reconcileWith hr.keyed T visits table
  intro s report
  have hevent : ∀ p c, ⟨n, p, c⟩ ∈ report.changes ↔
      ∃ first last, (s.ledger.moved n).head? = some first ∧
        (s.ledger.moved n).getLast? = some last ∧ p = r.through? n first ∧
        c = s.router.through? n last ∧ p ≠ c := by
    intro p c
    rw [Ledger.mem_changes_report, h.change]
    simp only [Option.bind_eq_some_iff, Option.map_eq_some_iff, Prod.mk.injEq]
    constructor
    · intro ⟨⟨first, hfirst, last, hlast, hp, hc⟩, hne⟩
      exact ⟨first, last, hfirst, hlast, hp.symm, hc.symm, hne⟩
    · intro ⟨first, last, hfirst, hlast, hp, hc, hne⟩
      exact ⟨⟨first, hfirst, last, hlast, hp.symm, hc.symm⟩, hne⟩
  refine ⟨s.ledger.nodup_changes_report .., hevent, fun d hd => h.kept hd, ?_⟩
  intro d hsingle p c
  rw [hevent]
  constructor
  · intro ⟨first, last, hfirst, hlast, hp, hc, hne⟩
    rw [hsingle first (List.mem_of_head? hfirst)] at hp
    rw [hsingle last (List.mem_of_getLast? hlast)] at hc
    refine ⟨⟨d, ?_⟩, hp, hc⟩
    rw [← hp, ← hc]
    exact Ne.symm hne
  · intro ⟨⟨e, he⟩, hp, hc⟩
    have hmem : e ∈ s.ledger.moved n := by
      by_contra hnot
      exact he (h.kept hnot)
    have hsome := List.ne_nil_of_mem hmem
    obtain ⟨first, hfirst⟩ := Option.ne_none_iff_exists'.1 (mt List.head?_eq_none_iff.1 hsome)
    obtain ⟨last, hlast⟩ := Option.ne_none_iff_exists'.1 (mt List.getLast?_eq_none_iff.1 hsome)
    rw [hsingle e hmem, ← hp, ← hc] at he
    refine ⟨first, last, hfirst, hlast, ?_, ?_, Ne.symm he⟩
    · rw [hsingle first (List.mem_of_head? hfirst), hp]
    · rw [hsingle last (List.mem_of_getLast? hlast), hc]

/-- A service leaves its connection, and this is told. -/
theorem switching_told :
    let s := switcher.reconcileWith RouteTable.memory (fun _ => .inOrder) .empty
    switcher.Reachable ∧
      ⟨⟨"alpha"⟩, some ⟨"t1"⟩, some ⟨"t2"⟩⟩ ∈ (s.ledger.report s.passes s.resolved).changes := by
  intro s
  refine ⟨switcher_reachable, ?_⟩
  refine ((mem_changes_iff switcher_reachable RouteTable.memory (fun _ => .inOrder) .empty
    ⟨"alpha"⟩).2.1 _ _).2 ⟨site, site, ?_⟩
  decide +kernel

/-- The prefix of another site. -/
def annex : Prefix := ⟨.v4 0x0A0A0000, 16, by decide⟩

/-- Two services, each through a connection of its own, are to swap their connections. -/
def crossing : List Operation :=
  [.addPeer ⟨"alpha"⟩ (.v4 "t1" "wg-a" 1), .addPeer ⟨"alpha"⟩ (.v4 "t2" "wg-b" 2),
    .addService ⟨"alpha"⟩ site ⟨"t1"⟩,
    .recordRound ((OrderedMap.empty.insert (.v4 1) (some (.clamp 10000000))).insert (.v4 2)
      (some (.clamp 20000000))),
    .reconcile fun _ => .inOrder, .addService ⟨"alpha"⟩ annex ⟨"t2"⟩,
    .reconcile fun _ => .inOrder, .deleteService ⟨"alpha"⟩ site ⟨"t1"⟩,
    .addService ⟨"alpha"⟩ site ⟨"t2"⟩, .deleteService ⟨"alpha"⟩ annex ⟨"t2"⟩,
    .addService ⟨"alpha"⟩ annex ⟨"t1"⟩]

/-- Both services move, and no change is told: the first one came from where the last one went. -/
theorem crossing_silent :
    let run := Run.after RouteTable.memory .default .empty crossing
    let s := run.router.reconcileWith RouteTable.memory (fun _ => .inOrder) run.table
    run.router.Reachable ∧
      run.router.through? ⟨"alpha"⟩ site = some ⟨"t1"⟩ ∧
      s.router.through? ⟨"alpha"⟩ site = some ⟨"t2"⟩ ∧
      run.router.through? ⟨"alpha"⟩ annex = some ⟨"t2"⟩ ∧
      s.router.through? ⟨"alpha"⟩ annex = some ⟨"t1"⟩ ∧
      (s.ledger.report s.passes s.resolved).changes = [] := by
  refine ⟨Run.reachable_after crossing, ?_⟩
  decide +kernel

end Router

end RouteKeeper
