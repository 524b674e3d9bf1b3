import RouteKeeper.Proofs.Runs
import RouteKeeper.RouteTable.Memory

/-!
# Every route in the table is accounted for

A session runs operations over a table in memory that starts empty, never fails and is written by
nobody else. Every route in the table is then backed by a path or a service that records a route for
its prefix through its interface, with one exception: a path that has a route and is given another
address takes its record along and abandons the route.

## Main definitions

* `Session.run` — a router and its table after some operations.
* `Router.Backs` — a path or a service records a route through an interface.
* `Session.Abandons` — a run takes the record of a route to another prefix.

## Main statements

* `run_accounted` — every route is accounted for, or was abandoned.
-/
namespace RouteKeeper

open RouteTable (Memory memory)

/-! ## The table in memory -/

section Memory

variable {m m' : Memory} {d : Prefix} {hop : Hop}

/-- A table without fault rules answers every call. -/
theorem guarded_of_rules_eq_nil {α : Type} (h : m.rules = []) (call : RouteTable.CallKind)
    (d : Prefix) (interface : String) (act : OrderedMap Prefix Hop → α × OrderedMap Prefix Hop) :
    Memory.guarded call d interface act m =
      (.ok (act m.routes).1, { m with routes := (act m.routes).2 }) := by
  simp only [Memory.guarded, h, RouteTable.FaultRule.fire]

theorem remove_memory (h : m.rules = []) (d : Prefix) (interface : String) :
    memory.remove d interface m =
      (.ok (), { m with
        routes := if (m.routes.get? d).any (·.interface = interface) then m.routes.erase d
          else m.routes }) := by
  simp only [memory, guarded_of_rules_eq_nil h]

theorem replace_memory (h : m.rules = []) (d : Prefix) (hop : Hop) :
    memory.replace d hop m = (.ok (), { m with routes := m.routes.insert d hop }) := by
  simp only [memory, guarded_of_rules_eq_nil h]

/-- Making a route binds its prefix; where it belongs to somebody else, nothing changes. -/
theorem install_memory (h : m.rules = []) (managed : List String) (d : Prefix) (hop : Hop) :
    (∃ outcome, install memory managed d hop m =
        (.ok outcome, { m with routes := m.routes.insert d hop })) ∨
      ∃ e, install memory managed d hop m = (.error e, m) := by
  have howner : memory.owner d m = (.ok ((m.routes.get? d).map Hop.interface), m) := by
    simp only [memory, guarded_of_rules_eq_nil h]
  have hadd : memory.add d hop m = (.ok (), { m with routes := m.routes.insert d hop }) := by
    simp only [memory, guarded_of_rules_eq_nil h]
  have hreplace := replace_memory h d hop
  unfold install
  rw [howner]
  cases (m.routes.get? d).map Hop.interface with
  | none => exact .inl ⟨.added, by simp only [hadd]⟩
  | some interface =>
    by_cases hmanaged : managed.contains interface = true
    · exact .inl ⟨.replaced, by simp only [hmanaged, if_true, hreplace]⟩
    · exact .inr ⟨.route (.externalConflict d.text interface), by simp only [if_neg hmanaged]⟩

end Memory

/-! ## Backed routes -/

namespace Router

/-- A path or a service records a route for the prefix through the interface. -/
def Backs (r : Router) (d : Prefix) (interface : String) : Prop :=
  ∃ n k, r.route? n k d = some interface

/-- Each route in the table is backed, or its prefix is excused. -/
def Backed (excused : Prefix → Prop) (r : Router) (m : Memory) : Prop :=
  m.rules = [] ∧ ∀ d hop, m.routes.get? d = some hop → r.Backs d hop.interface ∨ excused d

variable {excused : Prefix → Prop} {r r' : Router} {m m' : Memory}

theorem Backed.congr (h : r.Backed excused m)
    (hroute : ∀ n k d, r'.route? n k d = r.route? n k d) : r'.Backed excused m := by
  refine ⟨h.1, ?_⟩
  intro d hop hget
  refine (h.2 d hop hget).imp_left ?_
  rintro ⟨n, k, hbacks⟩
  exact ⟨n, k, (hroute n k d).trans hbacks⟩

/-- Together with a route its record goes. -/
theorem Backed.remove (h : r.Backed excused m) {n : GroupName} {k : Claimant} {d : Prefix}
    {i : String} (hhad : r.route? n k d = some i) (hcall : memory.remove d i m = (.ok (), m'))
    (hroute : ∀ m j e, r'.route? m j e =
      if m = n ∧ j = k ∧ e = d then none else r.route? m j e) : r'.Backed excused m' := by
  rw [remove_memory h.1] at hcall
  obtain rfl := (Prod.mk.inj hcall).2
  refine ⟨h.1, ?_⟩
  intro e hop hget
  -- a route that is left is an old one, and not the one that the record was about
  have hold : m.routes.get? e = some hop ∧ ¬ (e = d ∧ hop.interface = i) := by
    by_cases hmatch : (m.routes.get? d).any (·.interface = i) = true
    · simp only [if_pos hmatch, OrderedMap.get?_erase] at hget
      split at hget
      case isTrue => cases hget
      case isFalse hne => exact ⟨hget, fun hkey => hne hkey.1⟩
    · simp only [if_neg hmatch] at hget
      refine ⟨hget, ?_⟩
      rintro ⟨rfl, rfl⟩
      exact hmatch (by simp [hget])
  refine (h.2 e hop hold.1).imp_left ?_
  rintro ⟨m₀, j, hbacks⟩
  refine ⟨m₀, j, ?_⟩
  rw [hroute, if_neg, hbacks]
  rintro ⟨rfl, rfl, rfl⟩
  rw [hhad] at hbacks
  exact hold.2 ⟨rfl, (Option.some.inj hbacks).symm⟩

/-- Together with a route comes its record. -/
theorem Backed.place (h : r.Backed excused m) {n : GroupName} {k : Claimant} {d : Prefix}
    {hop : Hop} (hm : m' = { m with routes := m.routes.insert d hop })
    (hroute : ∀ m j e, r'.route? m j e =
      if m = n ∧ j = k ∧ e = d then some hop.interface else r.route? m j e) :
    r'.Backed excused m' := by
  subst hm
  refine ⟨h.1, ?_⟩
  intro e hop' hget
  simp only [OrderedMap.get?_insert] at hget
  split at hget
  case isTrue he =>
    subst he
    cases hget
    refine .inl ⟨n, k, ?_⟩
    rw [hroute, if_pos ⟨rfl, rfl, rfl⟩]
  case isFalse hne =>
    refine (h.2 e hop' hget).imp_left ?_
    rintro ⟨m₀, j, hbacks⟩
    refine ⟨m₀, j, ?_⟩
    rw [hroute, if_neg fun hkey => hne hkey.2.2]
    exact hbacks

/-- A turn keeps all routes backed. -/
theorem Backed.turn {managed : List String} {turn : Turn} {s s' : Stage Memory}
    (h : s.router.Backed excused s.pass.table) (heffect : Stage.Effect memory managed turn s s') :
    s'.router.Backed excused s'.pass.table := by
  cases heffect with
  | quiet hroute hpass =>
    rw [hpass]
    exact h.congr hroute
  | @failed a e hroute hcall =>
    -- only making a route can fail, and then it changes nothing
    have htable : s'.pass.table = s.pass.table := by
      generalize a.action = action at hcall
      cases hcall with
      | remove hcall =>
        rw [remove_memory h.1] at hcall
        cases (Prod.mk.inj hcall).1
      | @install hop hcall =>
        rcases install_memory h.1 managed a.destination hop with ⟨_, hinstall⟩ | ⟨_, hinstall⟩
        · rw [hinstall] at hcall
          cases (Prod.mk.inj hcall).1
        · rw [hinstall] at hcall
          exact (Prod.mk.inj hcall).2.symm
      | replace hcall =>
        rw [replace_memory h.1] at hcall
        cases (Prod.mk.inj hcall).1
    rw [htable]
    exact h.congr hroute
  | removed _ hhad _ _ hcall hroute => exact h.remove hhad hcall hroute
  | @placed n k d hop _ _ _ hcall hroute =>
    refine h.place ?_ hroute
    rcases hcall with ⟨outcome, hcall⟩ | hcall
    · rcases install_memory h.1 managed d hop with ⟨_, hinstall⟩ | ⟨_, hinstall⟩
      · rw [hinstall] at hcall
        exact (Prod.mk.inj hcall).2.symm
      · rw [hinstall] at hcall
        cases (Prod.mk.inj hcall).1
    · rw [replace_memory h.1] at hcall
      exact (Prod.mk.inj hcall).2.symm

/-- A step of a resolution keeps all routes backed. -/
theorem Backed.settle {res res' : Resolution Memory} (h : res.router.Backed excused res.table)
    (heffect : Resolution.Effect memory res res') : res'.router.Backed excused res'.table := by
  cases heffect with
  | quiet hroute htable =>
    rw [htable]
    exact h.congr hroute
  | failed hroute hcall =>
    rw [remove_memory h.1] at hcall
    cases (Prod.mk.inj hcall).1
  | removed hhad hcall hroute => exact h.remove hhad hcall hroute

/-- A reconciliation keeps all routes backed. -/
theorem Backed.reconcileWith (h : r.Backed excused m) (hk : r.Keyed) (visits : Nat → Visit) :
    (r.reconcileWith memory visits m).router.Backed excused
      (r.reconcileWith memory visits m).table := by
  refine reconcileWith_induction hk (P := fun r m _ => r.Backed excused m) h ?_ ?_ ?_ visits
  · intro managed turn s s' _ heffect hs
    exact hs.turn heffect
  · intro res res' heffect hres
    exact hres.settle heffect
  · intro r m _ hr
    exact hr.congr fun n k d => route?_pruned r n k d

/-! ### Operations -/

/-- A path that is given a new specification keeps its record, though perhaps for another prefix. -/
theorem Backs.addPeer {d : Prefix} {i : String} (h : r.Backs d i) (name : GroupName)
    (spec : PathSpec) : (r.addPeer name spec).Backs d i ∨ spec.isUsable = true ∧
      ∃ p, r.path? name spec.connection = some p ∧ p.isInstalled = true ∧ p.destination = d ∧
        (p.update spec).destination ≠ d := by
  obtain ⟨n, k, hbacks⟩ := h
  by_cases hkey : n = name ∧ k = .path spec.connection
  case neg => exact .inl ⟨n, k, (route?_addPeer_of_ne hkey d).trans hbacks⟩
  obtain ⟨rfl, rfl⟩ := hkey
  cases husable : spec.isUsable with
  | false =>
    rw [addPeer_of_not_isUsable husable]
    exact .inl ⟨n, _, hbacks⟩
  | true =>
    obtain ⟨p, hp, hd, hi⟩ := route?_path_eq_some_iff.1 hbacks
    by_cases hsame : (p.update spec).destination = d
    · refine .inl ⟨n, .path spec.connection, ?_⟩
      rw [route?_addPeer_self n husable, hp]
      exact (if_pos hsame).trans hi
    · exact .inr ⟨rfl, p, hp, by simp [Path.isInstalled, hi], hd, hsame⟩

end Router

/-! ## Sessions -/

/-- A router and the table that it writes. -/
structure Session where
  router : Router
  table : Memory

namespace Session

/-- A router without groups and a table without routes. -/
def start (policy : Policy) : Session := ⟨.new policy, .empty⟩

def perform (s : Session) : Operation → Session
  | .addPeer name spec => { s with router := s.router.addPeer name spec }
  | .deletePeer name connection => { s with router := s.router.deletePeer name connection }
  | .addService name destination connection =>
    { s with router := s.router.addService name destination connection }
  | .deleteService name destination connection =>
    { s with router := s.router.deleteService name destination connection }
  | .flush => { s with router := s.router.flush }
  | .recordRound results => { s with router := s.router.recordRound results }
  | .reconcile visits =>
    let reconciled := s.router.reconcileWith memory visits s.table
    ⟨reconciled.router, reconciled.table⟩

theorem router_perform_reconcile (s : Session) (visits : Nat → Visit) :
    (s.perform (.reconcile visits)).router =
      (s.router.reconcileWith memory visits s.table).router := by
  simp only [perform]

theorem table_perform_reconcile (s : Session) (visits : Nat → Visit) :
    (s.perform (.reconcile visits)).table =
      (s.router.reconcileWith memory visits s.table).table := by
  simp only [perform]

/-- The session after some operations. -/
def run (policy : Policy) (ops : List Operation) : Session := ops.foldl perform (start policy)

theorem run_concat (policy : Policy) (ops : List Operation) (op : Operation) :
    run policy (ops ++ [op]) = (run policy ops).perform op := by
  simp [run]

/-- The route for the prefix was abandoned: some operation gives a path with a route for the prefix
an address elsewhere, and from then on nothing backs the route that the table has for the prefix. -/
def Abandons (policy : Policy) (ops : List Operation) (d : Prefix) : Prop :=
  ∃ before name spec after, ops = before ++ .addPeer name spec :: after ∧ spec.isUsable = true ∧
    (∃ p, (run policy before).router.path? name spec.connection = some p ∧
      p.isInstalled = true ∧ p.destination = d ∧ (p.update spec).destination ≠ d) ∧
    ∀ later hop, later <+: after →
      (run policy (before ++ .addPeer name spec :: later)).table.routes.get? d = some hop →
        ¬ (run policy (before ++ .addPeer name spec :: later)).router.Backs d hop.interface

/-- A route stays abandoned as long as nothing backs it. -/
theorem Abandons.concat {policy : Policy} {ops : List Operation} {op : Operation} {d : Prefix}
    {hop : Hop} (h : Abandons policy ops d)
    (hget : (run policy (ops ++ [op])).table.routes.get? d = some hop)
    (hbacks : ¬ (run policy (ops ++ [op])).router.Backs d hop.interface) :
    Abandons policy (ops ++ [op]) d := by
  obtain ⟨before, name, spec, after, rfl, husable, hp, hsince⟩ := h
  refine ⟨before, name, spec, after ++ [op], by simp, husable, hp, ?_⟩
  intro later hop' hlater hget'
  rcases List.prefix_concat_iff.1 hlater with rfl | hlater
  · simp only [List.append_assoc, List.cons_append] at hget hbacks
    rw [hget] at hget'
    cases hget'
    exact hbacks
  · exact hsince later hop' hlater hget'

/-- The router of a session is reachable. -/
theorem reachable_run (policy : Policy) (ops : List Operation) :
    (run policy ops).router.Reachable := by
  induction ops using List.reverseRecOn with
  | nil => exact .new policy
  | append_singleton ops op ih =>
    rw [run_concat]
    cases op with
    | addPeer name spec => exact ih.addPeer name spec
    | deletePeer name connection => exact ih.deletePeer name connection
    | addService name destination connection => exact ih.addService name destination connection
    | deleteService name destination connection =>
      exact ih.deleteService name destination connection
    | flush => exact ih.flush
    | recordRound results => exact ih.recordRound results
    | reconcile visits =>
      rw [router_perform_reconcile]
      exact ih.reconcile memory visits (run policy ops).table

/-- An operation leaves every route backed that was, unless it is an abandoned one. -/
theorem backed_perform {policy : Policy} {ops : List Operation}
    (h : (run policy ops).router.Backed (Abandons policy ops) (run policy ops).table)
    (op : Operation) :
    (run policy (ops ++ [op])).router.Backed
      (fun d => Abandons policy ops d ∨ Abandons policy (ops ++ [op]) d)
      (run policy (ops ++ [op])).table := by
  have hlater : (run policy ops).router.Backed
      (fun d => Abandons policy ops d ∨ Abandons policy (ops ++ [op]) d) (run policy ops).table :=
    ⟨h.1, fun d hop hget => (h.2 d hop hget).imp_right .inl⟩
  cases op with
  | addPeer name spec =>
    refine ⟨by rw [run_concat]; exact h.1, ?_⟩
    intro d hop hget
    by_cases hbacks : (run policy (ops ++ [.addPeer name spec])).router.Backs d hop.interface
    · exact .inl hbacks
    · have hold : (run policy ops).table.routes.get? d = some hop := by
        rwa [run_concat] at hget
      rcases h.2 d hop hold with hbacked | hexcused
      · rcases hbacked.addPeer name spec with hbacked | ⟨husable, hp⟩
        · rw [run_concat] at hbacks
          exact absurd hbacked hbacks
        · refine .inr (.inr ⟨ops, name, spec, [], rfl, husable, hp, ?_⟩)
          intro later hop' hlater hget'
          rw [List.prefix_nil] at hlater
          subst hlater
          rw [hget] at hget'
          cases hget'
          exact hbacks
      · exact .inr (.inl hexcused)
  | deletePeer name connection =>
    rw [run_concat]
    exact hlater.congr (Router.marks_deletePeer name connection).route?_eq
  | addService name destination connection =>
    rw [run_concat]
    exact hlater.congr (Router.route?_addService name destination connection)
  | deleteService name destination connection =>
    rw [run_concat]
    exact hlater.congr (Router.marks_deleteService name destination connection).route?_eq
  | flush =>
    rw [run_concat]
    exact hlater.congr Router.marks_flush.route?_eq
  | recordRound results =>
    rw [run_concat]
    exact hlater.congr (Router.marks_recordRound results).route?_eq
  | reconcile visits =>
    rw [run_concat, router_perform_reconcile, table_perform_reconcile]
    exact hlater.reconcileWith (reachable_run policy ops).keyed visits

/-- Each route of a session is backed, or was abandoned. -/
theorem backed_run (policy : Policy) (ops : List Operation) :
    (run policy ops).router.Backed (Abandons policy ops) (run policy ops).table := by
  induction ops using List.reverseRecOn with
  | nil =>
    refine ⟨rfl, ?_⟩
    intro d hop hget
    cases hget
  | append_singleton ops op ih =>
    have h := backed_perform ih op
    refine ⟨h.1, ?_⟩
    intro d hop hget
    by_cases hbacks : (run policy (ops ++ [op])).router.Backs d hop.interface
    · exact .inl hbacks
    · rcases h.2 d hop hget with hbacked | habandoned | habandoned
      · exact absurd hbacked hbacks
      · exact .inr (habandoned.concat hget hbacks)
      · exact .inr habandoned

/-- After every run each route in the table is accounted for exactly if it was not abandoned: then a
path or a service records it, and so some group has recorded a route for its prefix. -/
theorem run_accounted (policy : Policy) (ops : List Operation) (d : Prefix) (hop : Hop)
    (h : (run policy ops).table.routes.get? d = some hop) :
    ((run policy ops).router.Backs d hop.interface ↔ ¬ Abandons policy ops d) ∧
      (¬ Abandons policy ops d → ∃ n, (run policy ops).router.Records n d) := by
  have hbacked := (backed_run policy ops).2 d hop h
  refine ⟨⟨?_, fun hnot => hbacked.resolve_right hnot⟩, ?_⟩
  · rintro hbacks ⟨before, name, spec, after, rfl, -, -, hsince⟩
    exact hsince after hop (List.prefix_refl after) h hbacks
  · intro hnot
    obtain ⟨n, k, hroute⟩ := hbacked.resolve_right hnot
    exact ⟨n, Router.records_iff.2 ⟨k, by simp [hroute]⟩⟩

/-- A path is asked for and installed, then given another address. -/
def readdressing : List Operation :=
  [.addPeer ⟨"alpha"⟩ (.v4 "t1" "wg-a" 1), .reconcile fun _ => .inOrder,
    .addPeer ⟨"alpha"⟩ (.v4 "t1" "wg-a" 2), .reconcile fun _ => .inOrder]

theorem run_accounted_installed :
    (run .default (readdressing.take 2)).table.routes.get? (.host (.v4 1)) = some ⟨"wg-a", none⟩ ∧
      ((run .default (readdressing.take 2)).router.Backs (.host (.v4 1)) "wg-a" ↔
        ¬ Abandons .default (readdressing.take 2) (.host (.v4 1))) := by
  have h : (run .default (readdressing.take 2)).table.routes.get? (.host (.v4 1)) =
      some ⟨"wg-a", none⟩ := by
    decide +kernel
  exact ⟨h, (run_accounted .default _ _ _ h).1⟩

/-- The route to the old address stays in the table, and no group knows of it. -/
theorem readdressing_leaks :
    (run .default readdressing).table.routes.get? (.host (.v4 1)) = some ⟨"wg-a", none⟩ ∧
      ∀ n, ¬ (run .default readdressing).router.Records n (.host (.v4 1)) := by
  refine ⟨by decide +kernel, ?_⟩
  rw [← Router.get?_owners_eq_none_iff (reachable_run .default readdressing).keyed]
  decide +kernel

end Session

end RouteKeeper
