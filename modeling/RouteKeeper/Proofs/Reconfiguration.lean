import RouteKeeper.Proofs.Canonical
import RouteKeeper.Proofs.Flush
import RouteKeeper.Proofs.Renewal

/-!
# Asking again for everything

A router may be configured anew: it is flushed, and then everything that it had is asked for again,
in any order. The entries are still there when they are asked for, with their routes, so all that
is left of this are marks of waiting, and the claims that were counted. The next reconciliation
does what it would have done without.

## Main definitions

* `Request` — a path or a service that a router is asked for.
* `Router.requests` — the requests that lead to what a router has.
* `Router.Intact` — nothing is to be removed, and no path in place is to be placed anew.
* `Router.restored` — a router that was flushed, after some requests.

## Main statements

* `make_restored` — one more request.
* `renewed_reconfigured` — after all requests only marks of waiting differ.
* `reconcileWith_reconfigured` — the reconciliation after everything was asked for again.
-/
namespace RouteKeeper

variable {σ : Type}

/-! ## Requests -/

/-- What a router can be asked for: a path, or a service through a connection. -/
inductive Request where
  | path (name : GroupName) (spec : PathSpec)
  | service (name : GroupName) (destination : Prefix) (connection : ConnectionName)
deriving DecidableEq

namespace Request

/-- The group that is asked. -/
def name : Request → GroupName
  | path name _ => name
  | service name _ _ => name

/-- Ask a router. -/
def make (r : Router) : Request → Router
  | path name spec => r.addPeer name spec
  | service name destination connection => r.addService name destination connection

end Request

/-- What leads to the entries of a group: a request for each path as it is, and one for each
candidate for a service. -/
def Group.requests (name : GroupName) (g : Group) : List Request :=
  (g.paths.values.map fun p => .path name p.spec) ++
    g.services.entries.flatMap fun e => e.2.candidates.keys.map (.service name e.1)

/-- What leads to the entries of a router. -/
def Router.requests (r : Router) : List Request :=
  r.groups.entries.flatMap fun e => e.2.requests e.1

/-- Nothing is to be removed, no path in place waits to be placed anew, and addresses are
specified. -/
structure Router.Intact (r : Router) : Prop where
  live : ∀ p ∈ r.paths, p.flags.pendingDelete = false
  placed : ∀ p ∈ r.paths, p.isInstalled = true → p.flags.pendingAdd = false
  address : ∀ p ∈ r.paths, p.address.isUnspecified = false
  candidates : ∀ g ∈ r.groups.values, ∀ s ∈ g.services.values, ∀ f ∈ s.candidates.values,
    f.pendingDelete = false

namespace Router

variable {r : Router} {name : GroupName}

theorem mem_paths_iff {p : Path} : p ∈ r.paths ↔ ∃ n c, r.path? n c = some p := by
  simp only [paths, List.mem_flatMap, OrderedMap.mem_values_iff, path?_eq_some_iff]
  constructor
  · rintro ⟨g, ⟨n, hg⟩, c, hp⟩
    exact ⟨n, c, g, hg, hp⟩
  · rintro ⟨n, c, g, hg, hp⟩
    exact ⟨g, ⟨n, hg⟩, c, hp⟩

theorem path_mem_requests_iff {spec : PathSpec} :
    .path name spec ∈ r.requests ↔ ∃ c p, r.path? name c = some p ∧ p.spec = spec := by
  simp only [requests, Group.requests, List.mem_flatMap, List.mem_append, List.mem_map,
    OrderedMap.mem_values_iff, path?_eq_some_iff]
  constructor
  · rintro ⟨⟨n, g⟩, hg, ⟨p, ⟨c, hp⟩, heq⟩ | ⟨_, _, _, _, heq⟩⟩
    · cases heq
      exact ⟨c, p, ⟨g, OrderedMap.get?_eq_some_iff.2 hg, hp⟩, rfl⟩
    · cases heq
  · rintro ⟨c, p, ⟨g, hg, hp⟩, rfl⟩
    exact ⟨⟨name, g⟩, OrderedMap.get?_eq_some_iff.1 hg, .inl ⟨p, ⟨c, hp⟩, rfl⟩⟩

theorem service_mem_requests_iff {d : Prefix} {c : ConnectionName} :
    .service name d c ∈ r.requests ↔
      ∃ s f, r.service? name d = some s ∧ s.candidates.get? c = some f := by
  simp only [requests, Group.requests, List.mem_flatMap, List.mem_append, List.mem_map,
    OrderedMap.mem_keys_iff, service?_eq_some_iff]
  constructor
  · rintro ⟨⟨n, g⟩, hg, ⟨_, _, heq⟩ | ⟨⟨d', s⟩, hs, c', ⟨f, hf⟩, heq⟩⟩
    · cases heq
    · cases heq
      exact ⟨s, f, ⟨g, OrderedMap.get?_eq_some_iff.2 hg, OrderedMap.get?_eq_some_iff.2 hs⟩, hf⟩
  · rintro ⟨s, f, ⟨g, hg, hs⟩, hf⟩
    exact ⟨⟨name, g⟩, OrderedMap.get?_eq_some_iff.1 hg,
      .inr ⟨⟨d, s⟩, OrderedMap.get?_eq_some_iff.1 hs, c, ⟨f, hf⟩, rfl⟩⟩

end Router

/-! ## Some requests after a flush -/

/-- The path after a flush, asked for again or not. -/
def Path.restored (asked : Bool) (p : Path) : Path :=
  if asked then (if p.isInstalled then p else p.waiting) else p.doomed

/-- The marks of a candidate after a flush, asked for again or not. -/
def Flags.restored (asked : Bool) (f : Flags) : Flags := if asked then f.waiting else f.toDelete

/-- The service after a flush and some requests. -/
def Service.restored (done : List Request) (name : GroupName) (d : Prefix) (s : Service) :
    Service :=
  { s with
    candidates := s.candidates.mapWithKey fun c f => f.restored (.service name d c ∈ done) }

/-- The group after a flush and some requests. -/
def Group.restored (done : List Request) (name : GroupName) (g : Group) : Group :=
  { g with
    paths := g.paths.map fun p => p.restored (.path name p.spec ∈ done)
    services := g.services.mapWithKey fun d s => s.restored done name d }

/-- The router after a flush and some requests. -/
def Router.restored (done : List Request) (r : Router) : Router :=
  { r with
    claims := r.claims + done.length
    groups := r.groups.mapWithKey fun n g => g.restored done n }

theorem Router.restored_nil (r : Router) : r.restored [] = r.flush := by
  simp only [restored, Group.restored, Service.restored, List.not_mem_nil, decide_false]
  rfl

/-! ### One more request -/

/-- Asking for a path as it is leaves it as it is, unless it has no route: then it waits. -/
theorem Path.update_restored {p : Path} (hspec : p.spec.normal = p.spec)
    (hlive : p.flags.pendingDelete = false)
    (hplaced : p.isInstalled = true → p.flags.pendingAdd = false) (asked : Bool) :
    (p.restored asked).update p.spec = p.restored true := by
  obtain ⟨spec, group, ⟨pendingAdd, pendingDelete, disabled, spare⟩, window, installed, claim⟩ := p
  cases hlive
  -- an update with the specification that the path has touches no more than the marks
  have hsame : spec.normal = spec := hspec
  cases installed with
  | none =>
    cases asked <;>
      simp [restored, update, waiting, doomed, isInstalled, Flags.waiting, Flags.toDelete, hsame]
  | some interface =>
    cases hplaced rfl
    cases asked <;> simp [restored, update, doomed, isInstalled, Flags.toDelete, hsame]

theorem Flags.toAdd_restored {f : Flags} (hlive : f.pendingDelete = false) (asked : Bool) :
    (f.restored asked).toAdd = f.restored true := by
  cases asked <;> simp [restored, toAdd, toDelete, waiting, hlive]

namespace Group

variable {g : Group} {name : GroupName} (done : List Request)

/-- A request to another group changes nothing. -/
theorem restored_cons_of_ne {q : Request} (h : q.name ≠ name) :
    g.restored (q :: done) name = g.restored done name := by
  have hpath : ∀ spec, .path name spec ∈ q :: done ↔ .path name spec ∈ done := by
    intro spec
    rw [List.mem_cons, or_iff_right]
    rintro rfl
    exact h rfl
  have hservice : ∀ d c, .service name d c ∈ q :: done ↔ .service name d c ∈ done := by
    intro d c
    rw [List.mem_cons, or_iff_right]
    rintro rfl
    exact h rfl
  simp only [restored, Service.restored, hpath, hservice]

variable (name)

/-- Asking for a path of the group. -/
theorem addPath_restored (hkeyed : ∀ c p, g.paths.get? c = some p → p.connection = c)
    {c : ConnectionName} {p : Path} (hp : g.paths.get? c = some p)
    (hupdate : ∀ asked, (p.restored asked).update p.spec = p.restored true) (claim : Nat) :
    (g.restored done name).addPath p.spec claim = g.restored (.path name p.spec :: done) name := by
  have hconnection : p.spec.connection = c := hkeyed c p hp
  have hpaths : ((g.restored done name).addPath p.spec claim).paths =
      (g.restored (.path name p.spec :: done) name).paths := by
    refine OrderedMap.get?_ext fun a => ?_
    simp only [addPath, restored, OrderedMap.get?_insert, OrderedMap.get?_map, hconnection, hp,
      Option.map_some, hupdate]
    split
    case isTrue ha => rw [ha, hp, Option.map_some, decide_eq_true List.mem_cons_self]
    case isFalse ha =>
      cases hother : g.paths.get? a with
      | none => rfl
      | some p' =>
        have hne : p'.spec ≠ p.spec := by
          intro heq
          exact ha (by rw [← hkeyed a p' hother, Path.connection, heq, hconnection])
        simp [hne]
  have hservices : (g.restored done name).services =
      (g.restored (.path name p.spec :: done) name).services := by
    simp [restored, Service.restored]
  exact congrArg₂ (fun paths services => ({ g with paths, services } : Group)) hpaths hservices

/-- Asking for a service of the group through one of its candidates. -/
theorem addService_restored {d : Prefix} {s : Service} {c : ConnectionName} {f : Flags}
    (hd : d.normal = d) (hs : g.services.get? d = some s) (hf : s.candidates.get? c = some f)
    (hlive : f.pendingDelete = false) (claim : Nat) :
    (g.restored done name).addService d c claim = g.restored (.service name d c :: done) name := by
  have hcandidates : (s.restored done name d).candidates.insert c (f.restored true) =
      (s.restored (.service name d c :: done) name d).candidates := by
    refine OrderedMap.get?_ext fun a => ?_
    simp only [Service.restored, OrderedMap.get?_insert, OrderedMap.get?_mapWithKey]
    split
    case isTrue ha => rw [ha, hf, Option.map_some, decide_eq_true List.mem_cons_self]
    case isFalse ha => simp [ha]
  have hservices : ((g.restored done name).addService d c claim).services =
      (g.restored (.service name d c :: done) name).services := by
    refine OrderedMap.get?_ext fun e => ?_
    have hflags : ((s.restored done name d).candidates.get? c).getD .none =
        f.restored (.service name d c ∈ done) := by
      rw [Service.restored, OrderedMap.get?_mapWithKey, hf]
      rfl
    simp only [addService, restored, OrderedMap.get?_insert, OrderedMap.get?_mapWithKey, hd, hs,
      Option.map_some, Option.getD_some, hflags, Flags.toAdd_restored hlive, hcandidates]
    split
    case isTrue he =>
      rw [he, hs]
      rfl
    case isFalse he => simp [Service.restored, he]
  have hpaths : (g.restored done name).paths =
      (g.restored (.service name d c :: done) name).paths := by
    simp [restored]
  exact congrArg₂ (fun paths services => ({ g with paths, services } : Group)) hpaths hservices

end Group

namespace Router

variable {r : Router} (done : List Request)

theorem get?_groups_restored (name : GroupName) :
    (r.restored done).groups.get? name = (r.groups.get? name).map (Group.restored done name) := by
  rw [restored, OrderedMap.get?_mapWithKey]

theorem group_restored {name : GroupName} {g : Group} (hg : r.groups.get? name = some g) :
    (r.restored done).group name = g.restored done name := by
  rw [group, get?_groups_restored, hg]
  rfl

/-- A request changes its group, and counts as a claim. -/
theorem restored_cons (q : Request) {g : Group} (hg : r.groups.get? q.name = some g) :
    r.restored (q :: done) =
      { r.restored done with
        claims := (r.restored done).claims + 1
        groups := (r.restored done).groups.insert q.name (g.restored (q :: done) q.name) } := by
  have hgroups : (r.restored (q :: done)).groups =
      (r.restored done).groups.insert q.name (g.restored (q :: done) q.name) := by
    refine OrderedMap.get?_ext fun n => ?_
    rw [OrderedMap.get?_insert, get?_groups_restored, get?_groups_restored]
    split
    case isTrue hn => rw [hn, hg, Option.map_some]
    case isFalse hn =>
      cases r.groups.get? n with
      | none => rfl
      | some g' =>
        rw [Option.map_some, Option.map_some, Group.restored_cons_of_ne done (Ne.symm hn)]
  exact congrArg (fun groups => ({ r.restored (q :: done) with groups } : Router)) hgroups

/-- One more request. -/
theorem make_restored (hk : r.Keyed) (hc : r.Canonical) (hintact : r.Intact) {q : Request}
    (hq : q ∈ r.requests) : q.make (r.restored done) = r.restored (q :: done) := by
  cases q with
  | path name spec =>
    obtain ⟨c, p, hpath, rfl⟩ := path_mem_requests_iff.1 hq
    obtain ⟨g, hg, hp⟩ := path?_eq_some_iff.1 hpath
    have hmem : p ∈ r.paths := mem_paths_iff.2 ⟨name, c, hpath⟩
    have husable : p.spec.isUsable = true := by
      have haddress : p.spec.address.isUnspecified = false := hintact.address p hmem
      rw [PathSpec.isUsable, haddress, hc.interface hpath]
      rfl
    have hupdate := Path.update_restored (hc.spec hpath) (hintact.live p hmem)
      (hintact.placed p hmem)
    have hgroup := g.addPath_restored name done
      (fun a p' hp' => hk.connection (path?_of_get? hg a ▸ hp')) hp hupdate
    rw [Request.make, addPeer_of_isUsable husable, group_restored done hg, hgroup]
    exact (restored_cons done (.path name p.spec) hg).symm
  | service name d c =>
    obtain ⟨s, f, hservice, hf⟩ := service_mem_requests_iff.1 hq
    obtain ⟨g, hg, hs⟩ := service?_eq_some_iff.1 hservice
    have hlive : f.pendingDelete = false :=
      hintact.candidates g (OrderedMap.mem_values_iff.2 ⟨name, hg⟩) s
        (OrderedMap.mem_values_iff.2 ⟨d, hs⟩) f (OrderedMap.mem_values_iff.2 ⟨c, hf⟩)
    have hgroup := g.addService_restored name done (hc.destination hservice) hs hf hlive
    rw [Request.make, addService, group_restored done hg, hgroup]
    exact (restored_cons done (.service name d c) hg).symm

/-- More requests, one after another. -/
theorem foldl_make_restored (hk : r.Keyed) (hc : r.Canonical) (hintact : r.Intact)
    {requests : List Request} (hall : ∀ q ∈ requests, q ∈ r.requests) :
    requests.foldl Request.make (r.restored done) = r.restored (requests.reverse ++ done) := by
  induction requests generalizing done with
  | nil => rfl
  | cons q requests ih =>
    rw [List.forall_mem_cons] at hall
    rw [List.foldl_cons, make_restored done hk hc hintact hall.1, ih (q :: done) hall.2,
      List.reverse_cons, List.append_assoc, List.singleton_append]

end Router

/-! ## All requests after a flush -/

/-- A path that was asked for again waits if it has no route. -/
theorem Path.renewed_restored (p : Path) : p.Renewed (p.restored true) := by
  cases hroute : p.installed with
  | none =>
    refine .inr ⟨hroute, ?_⟩
    rw [restored, isInstalled, hroute]
    rfl
  | some interface =>
    refine .inl ?_
    rw [restored, isInstalled, hroute]
    rfl

namespace Router

variable {r : Router} {done : List Request}

/-- After all requests only marks of waiting differ. -/
theorem renewed_restored (hall : ∀ q ∈ r.requests, q ∈ done) :
    r.Renewed done.length (r.restored done) where
  policy := rfl
  claims := rfl
  groups n := by
    rw [get?_groups_restored]
    cases hg : r.groups.get? n with
    | none => exact .none
    | some g =>
      refine .some ⟨rfl, rfl, rfl, fun c => ?_, fun d => ?_⟩
      · rw [Group.restored, OrderedMap.get?_map]
        cases hp : g.paths.get? c with
        | none => exact .none
        | some p =>
          have hdone : .path n p.spec ∈ done :=
            hall _ (path_mem_requests_iff.2 ⟨c, p, path?_eq_some_iff.2 ⟨g, hg, hp⟩, rfl⟩)
          rw [Option.map_some, decide_eq_true hdone]
          exact .some p.renewed_restored
      · rw [Group.restored, OrderedMap.get?_mapWithKey]
        cases hs : g.services.get? d with
        | none => exact .none
        | some s =>
          refine .some (.inr ?_)
          have hcandidates : (s.restored done n d).candidates = s.candidates.map Flags.waiting := by
            refine OrderedMap.get?_ext fun c => ?_
            rw [Service.restored, OrderedMap.get?_mapWithKey, OrderedMap.get?_map]
            cases hf : s.candidates.get? c with
            | none => rfl
            | some f =>
              have hdone : .service n d c ∈ done :=
                hall _ (service_mem_requests_iff.2 ⟨s, f, service?_eq_some_iff.2 ⟨g, hg, hs⟩, hf⟩)
              rw [Option.map_some, decide_eq_true hdone]
              rfl
          exact congrArg (fun candidates => ({ s with candidates } : Service)) hcandidates

/-- A router that is flushed and then asked, in any order, for everything that it had differs in
marks of waiting from what it was. -/
theorem renewed_reconfigured (hr : r.Reachable) (hintact : r.Intact) {requests : List Request}
    (hrequests : requests.Perm r.requests) :
    r.Renewed requests.length (requests.foldl Request.make r.flush) := by
  have hfold := foldl_make_restored [] hr.keyed hr.canonical hintact
    fun q hq => hrequests.mem_iff.1 hq
  rw [restored_nil, List.append_nil] at hfold
  rw [hfold, ← List.length_reverse]
  exact renewed_restored fun q hq => List.mem_reverse.2 (hrequests.mem_iff.2 hq)

/-- A router that is flushed and then asked, in any order, for everything that it had is reconciled
as it would have been: the table is called as often, in the same order and with the same answers,
and the report says the same. Afterwards the routers differ in marks of waiting, on paths without a
route and on candidates that were not taken in, and in the number of claims. No key comes or goes
with the flush and the requests, so the services are visited in the same order both times. -/
theorem reconcileWith_reconfigured (hr : r.Reachable) (hintact : r.Intact)
    {requests : List Request} (hrequests : requests.Perm r.requests) (T : RouteTable σ)
    (visits : Nat → Visit) (table : σ × Journal) :
    let s := r.reconcileWith T.journaled visits table
    let s' := (requests.foldl Request.make r.flush).reconcileWith T.journaled visits table
    s'.table = s.table ∧
      s'.ledger.report s'.passes s'.resolved = s.ledger.report s.passes s.resolved ∧
      s.router.Renewed requests.length s'.router := by
  have h := (renewed_reconfigured hr hintact hrequests).reconcileWith T.journaled visits table
  refine ⟨h.table, ?_, h.router⟩
  rw [h.ledger, h.passes, h.resolved]

theorem mixture_intact : mixture.router.Intact :=
  ⟨by decide +kernel, by decide +kernel, by decide +kernel, by decide +kernel⟩

/-- Asked again for everything in reverse order, the mixture only puts the path that waits in
place. -/
theorem mixture_reconfigured :
    mixture.router.Reachable ∧ mixture.router.Intact ∧
      mixture.router.requests.reverse.Perm mixture.router.requests ∧
      ((mixture.router.requests.reverse.foldl Request.make mixture.router.flush).reconcileWith
        RouteTable.memory.journaled (fun _ => .inOrder) (mixture.table, [])).table.2 =
          [(.host (.v4 2), .add ⟨"wg-c", none⟩, false), (.host (.v4 2), .owner, false)] := by
  refine ⟨mixture_reachable, mixture_intact, List.reverse_perm _, ?_⟩
  obtain ⟨htable, -⟩ := reconcileWith_reconfigured mixture_reachable mixture_intact
    (List.reverse_perm _) RouteTable.memory (fun _ => .inOrder) (mixture.table, [])
  rw [htable]
  decide +kernel

end Router

end RouteKeeper
