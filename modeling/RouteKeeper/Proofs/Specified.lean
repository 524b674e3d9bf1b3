import RouteKeeper.Proofs.Calls
import RouteKeeper.Proofs.Canonical
import RouteKeeper.Proofs.Flush
import RouteKeeper.Proofs.Rounds

/-!
# Unspecified addresses

A path that is asked for with an unspecified address is ignored. The address is looked at as it is
given and brought into canonical form afterwards. One address is specified as it is given and
unspecified in canonical form: the unspecified IPv4 address, written in IPv6. A path has an
unspecified address exactly if it was last asked for with this one; it is then never probed, and
routes to the unspecified host are called for.

## Main definitions

* `Address.mappedZero` — the unspecified IPv4 address, written in IPv6.
* `Run.asked?` — what a path was last asked for with.
* `Operation.Asks` — an operation asks for a path or a service with a prefix.

## Main statements

* `Address.isUnspecified_canonical_iff` — what becomes unspecified in canonical form.
* `Run.spec_asked` — a path is as it was last asked for.
* `Run.calls_asked` — a table is called only for prefixes that were asked for.
* `Run.specified_after` — where unspecified addresses come from, in every run.
-/
namespace RouteKeeper

variable {σ : Type}

/-! ## Addresses -/

namespace Address

/-- The unspecified IPv4 address, written in IPv6. -/
def mappedZero : Address := .v6 0xFFFF00000000

/-- A specified address is unspecified in canonical form only if it is the unspecified IPv4 address
written in IPv6. -/
theorem isUnspecified_canonical_iff {a : Address} (h : a.isUnspecified = false) :
    a.canonical.isUnspecified = true ↔ a = mappedZero := by
  cases a with
  | v4 b => simp [h, mappedZero]
  | v6 b =>
    have hzero : (v6 b = mappedZero) ↔ b.toNat = 281470681743360 := by
      rw [mappedZero, v6.injEq, ← BitVec.toNat_inj]
      rfl
    rw [hzero]
    by_cases hmapped : b.toNat >>> 32 = 0xFFFF
    · rw [canonical, if_pos hmapped]
      simp only [isUnspecified, toNat, BitVec.toNat_ofNat, beq_iff_eq]
      rw [Nat.shiftRight_eq_div_pow] at hmapped
      omega
    · rw [canonical, if_neg hmapped, h]
      rw [Nat.shiftRight_eq_div_pow] at hmapped
      simp only [Bool.false_eq_true, false_iff]
      omega

end Address

/-! ## Prefixes that are asked for -/

/-- The operation asks for a path or a service with this prefix. -/
def Operation.Asks (op : Operation) (d : Prefix) : Prop :=
  match op with
  | .addPeer _ spec => spec.isUsable = true ∧ d = .host spec.normal.address
  | .addService _ e _ => d = e.normal
  | _ => False

/-- The prefixes of all entries have a property. -/
structure Router.Within (D : Prefix → Prop) (r : Router) : Prop where
  path {n : GroupName} {c : ConnectionName} {p : Path} : r.path? n c = some p → D p.destination
  service {n : GroupName} {d : Prefix} {s : Service} : r.service? n d = some s → D d

/-- The destinations of all calls have a property. -/
def Journal.Within (D : Prefix → Prop) (j : Journal) : Prop := ∀ e ∈ j, D e.1

theorem Journal.Adds.within {j j' : Journal} {d : Prefix} {D : Prefix → Prop} (h : j.Adds j' d)
    (hd : D d) (hj : j.Within D) : j'.Within D := by
  obtain ⟨calls, rfl, hcalls⟩ := h
  intro e he
  rcases List.mem_append.1 he with he | he
  · rw [hcalls e he]
    exact hd
  · exact hj e he

/-- Entries that remain are for the same prefixes. -/
theorem Router.Within.remains {D : Prefix → Prop} {r r' : Router} (h : r.Within D)
    (hremains : r.Remains r') : r'.Within D where
  path hp' := by
    obtain ⟨p, hp, hspec⟩ := hremains.path hp'
    rw [Path.destination, hspec]
    exact h.path hp
  service hs' := by
    obtain ⟨s, hs⟩ := hremains.service hs'
    exact h.service hs

section Within

variable {D : Prefix → Prop} {T : RouteTable σ}

/-! ### Turns -/

namespace Stage

variable {managed : List String} {stage stage' : Stage (σ × Journal)} {turn : Turn}

/-- A turn calls for the prefix of an entry only. -/
theorem Turned.calls_within (h : Turned T.journaled managed stage turn stage')
    (hk : stage.router.Keyed) (hD : stage.router.Within D)
    (hstage : stage.pass.table.2.Within D) : stage'.pass.table.2.Within D := by
  cases turn with
  | path n c =>
    rcases h.path_cases hk with ⟨-, rfl⟩ | ⟨p, kept, hp, hturn, -⟩
    · exact hstage
    · exact hturn.adds.within (hD.path hp) hstage
  | select n =>
    cases h with
    | noGroup | select => exact hstage
  | service n d =>
    rcases h.service_cases with ⟨-, rfl⟩ | ⟨g, s, kept, hgroup, hservice, hturn, -⟩
    · exact hstage
    · have hs := Router.service?_eq_some_iff.2 ⟨g, hgroup, hservice⟩
      refine hturn.adds.within ?_ hstage
      rw [hk.destination hs]
      exact hD.service hs

end Stage

/-! ### Reconciliations -/

/-- A reconciliation keeps the prefixes of all entries and calls for them only. -/
theorem Router.Within.reconcileWith {r : Router} (h : r.Within D) (hk : r.Keyed)
    (visits : Nat → Visit) {table : σ × Journal} (htable : table.2.Within D) :
    (r.reconcileWith T.journaled visits table).router.Within D ∧
      (r.reconcileWith T.journaled visits table).table.2.Within D := by
  refine reconcileWith_stages hk (A := fun _ => True) (fun _ _ => trivial)
    (Q := fun r (table : σ × Journal) _ => r.Within D ∧ table.2.Within D)
    (S := fun _ (stage : Stage (σ × Journal)) =>
      stage.router.Within D ∧ stage.pass.table.2.Within D) ⟨h, htable⟩
    (fun _ _ _ _ h => h) ?_ (fun _ _ h => h) ?_ ?_ ?_
  · rintro managed turn stage stage' hs hturned - ⟨hD, hcalls⟩
    exact ⟨hD.remains (hturned.remains hs), hturned.calls_within hs hD hcalls⟩
  · rintro res d claim res' - hdisabled - ⟨hD, hcalls⟩
    refine ⟨hD.remains hdisabled.remains, ?_⟩
    cases hdisabled with
    | path _ hgroup hpath _ hdestination hroute =>
      refine hroute.adds.within ?_ hcalls
      rw [← hdestination]
      exact hD.path (path?_eq_some_iff.2 ⟨_, hgroup, hpath⟩)
    | service _ hgroup hservice _ hroute =>
      exact hroute.adds.within (hD.service (service?_eq_some_iff.2 ⟨_, hgroup, hservice⟩)) hcalls
  · rintro res d claim res' - henabled ⟨hD, hcalls⟩
    refine ⟨hD.remains henabled.remains, ?_⟩
    cases henabled <;> exact hcalls
  · rintro r table - ⟨hD, hcalls⟩
    exact ⟨hD.remains (remains_pruned r), hcalls⟩

end Within

/-! ## Operations -/

/-- What an operation asks for, it adds to the prefixes of the entries. -/
theorem Router.Within.edit {D : Prefix → Prop} {r : Router} (h : r.Within D) {op : Operation}
    (hasks : ∀ d, op.Asks d → D d) : (op.edit r).Within D where
  path hp' := by
    rcases Operation.path?_edit hp' with ⟨spec, rfl, husable, -, rfl⟩ | ⟨p, hp, hkept⟩
    · rw [destination_requested]
      exact hasks _ ⟨husable, rfl⟩
    · rw [Path.destination, hkept.spec]
      exact h.path hp
  service hs' := by
    rcases service?_of_edit hs' with ⟨s, hs⟩ | ⟨e, c, rfl, rfl⟩
    · exact h.service hs
    · exact hasks _ rfl

namespace Run

variable {T : RouteTable σ} {policy : Policy}

/-- A table is called only for prefixes that some operation asked for. -/
theorem calls_asked (table : σ) (ops : List Operation) :
    ∀ e ∈ (after T.journaled policy (table, []) ops).table.2, ∃ op ∈ ops, op.Asks e.1 := by
  -- Who asked is looked up in the whole run, so the induction is on its beginnings.
  let D (d : Prefix) : Prop := ∃ op ∈ ops, op.Asks d
  suffices h : ∀ done, done <+: ops →
      (after T.journaled policy (table, []) done).router.Within D ∧
        (after T.journaled policy (table, []) done).table.2.Within D from
    (h ops (List.prefix_refl ops)).2
  intro done
  induction done using List.reverseRecOn with
  | nil => exact fun _ => ⟨⟨nofun, nofun⟩, nofun⟩
  | append_singleton done op ih =>
    intro hprefix
    obtain ⟨hrouter, htable⟩ := ih ((List.prefix_append done [op]).trans hprefix)
    rw [after_concat]
    by_cases hreconcile : ∃ visits, op = .reconcile visits
    · obtain ⟨visits, rfl⟩ := hreconcile
      rw [router_perform_reconcile, table_perform_reconcile]
      exact hrouter.reconcileWith (keyed_after done) visits htable
    · rw [perform_of_ne (not_exists.1 hreconcile)]
      refine ⟨hrouter.edit fun d hd => ⟨op, hprefix.subset ?_, hd⟩, htable⟩
      exact List.mem_append_right done List.mem_cons_self

/-! ## Specifications that are asked for -/

/-- What the operation asks for with this path; what is ignored does not count. -/
def asks? (n : GroupName) (c : ConnectionName) : Operation → Option PathSpec
  | .addPeer name spec =>
    if name = n ∧ spec.connection = c ∧ spec.isUsable = true then some spec else none
  | _ => none

/-- What a path was last asked for with. -/
def asked? (n : GroupName) (c : ConnectionName) (ops : List Operation) : Option PathSpec :=
  ops.reverse.findSome? (asks? n c)

section Asked

variable {n : GroupName} {c : ConnectionName} {ops : List Operation} {spec : PathSpec}

theorem asked?_concat (n : GroupName) (c : ConnectionName) (ops : List Operation)
    (op : Operation) : asked? n c (ops ++ [op]) = (asks? n c op).or (asked? n c ops) := by
  rw [asked?, List.reverse_append, List.reverse_singleton, List.singleton_append,
    List.findSome?_cons]
  cases asks? n c op <;> rfl

theorem asks?_eq_some_iff {op : Operation} :
    asks? n c op = some spec ↔
      op = .addPeer n spec ∧ spec.connection = c ∧ spec.isUsable = true := by
  cases op with
  | addPeer name spec' =>
    simp only [asks?, Option.ite_none_right_eq_some, Option.some.injEq, Operation.addPeer.injEq]
    constructor
    · rintro ⟨⟨rfl, hconnection, husable⟩, rfl⟩
      exact ⟨⟨rfl, rfl⟩, hconnection, husable⟩
    · rintro ⟨⟨rfl, rfl⟩, hconnection, husable⟩
      exact ⟨⟨rfl, hconnection, husable⟩, rfl⟩
  | _ => simp [asks?]

theorem isUsable_of_asked? (h : asked? n c ops = some spec) : spec.isUsable = true := by
  obtain ⟨op, -, hop⟩ := List.exists_of_findSome?_eq_some h
  exact (asks?_eq_some_iff.1 hop).2.2

/-- A path is as it was last asked for, in canonical form. -/
theorem spec_asked {table : σ} {p : Path}
    (h : (after T policy table ops).router.path? n c = some p) :
    ∃ spec, asked? n c ops = some spec ∧ p.spec = spec.normal := by
  induction ops using List.reverseRecOn generalizing p with
  | nil => cases h
  | append_singleton ops op ih =>
    have hkept (q : Path) (hq : (after T policy table ops).router.path? n c = some q)
        (hnone : asks? n c op = none) :
        ∃ spec, asked? n c (ops ++ [op]) = some spec ∧ q.spec = spec.normal := by
      rw [asked?_concat, hnone]
      exact ih hq
    rw [after_concat] at h
    by_cases hreconcile : ∃ visits, op = .reconcile visits
    · obtain ⟨visits, rfl⟩ := hreconcile
      rw [router_perform_reconcile] at h
      obtain ⟨q, hq, hspec⟩ :=
        (Router.remains_reconcileWith (keyed_after ops) T visits _).path h
      rw [hspec]
      exact hkept q hq rfl
    · rw [perform_of_ne (not_exists.1 hreconcile)] at h
      cases hasks : asks? n c op with
      | some spec =>
        obtain ⟨rfl, hconnection, husable⟩ := asks?_eq_some_iff.1 hasks
        rw [Operation.edit, Router.path?_addPeer husable, if_pos ⟨rfl, hconnection.symm⟩] at h
        refine ⟨spec, by rw [asked?_concat, hasks, Option.some_or], ?_⟩
        rw [← Option.some.inj h, Router.spec_requested]
      | none =>
        rcases Operation.path?_edit h with ⟨spec, hop, husable, hconnection, -⟩ | ⟨q, hq, hsame⟩
        · rw [asks?_eq_some_iff.2 ⟨hop, hconnection, husable⟩] at hasks
          cases hasks
        · rw [hsame.spec]
          exact hkept q hq hasks

end Asked

/-! ## Runs -/

/-- The address of a path is in canonical form and its interface has a name. The address is
unspecified exactly if the path was last asked for with the unspecified IPv4 address written in
IPv6. -/
theorem isUnspecified_iff_asked {table : σ} {n : GroupName} {c : ConnectionName}
    {ops : List Operation} {p : Path}
    (h : (after T policy table ops).router.path? n c = some p) :
    p.address.canonical = p.address ∧ p.interface.isEmpty = false ∧
      (p.address.isUnspecified = true ↔
        ∃ spec, asked? n c ops = some spec ∧ spec.address = .mappedZero) := by
  obtain ⟨spec, hasked, hspec⟩ := spec_asked h
  have husable := isUsable_of_asked? hasked
  simp only [PathSpec.isUsable, Bool.and_eq_true, Bool.not_eq_true'] at husable
  have haddress : p.address = spec.address.canonical := congrArg PathSpec.address hspec
  have hinterface : p.interface = spec.interface := by
    rw [Path.interface, hspec]
    rfl
  rw [haddress, hinterface, Address.isUnspecified_canonical_iff husable.1]
  refine ⟨spec.address.canonical_canonical, husable.2, fun hzero => ⟨spec, hasked, hzero⟩, ?_⟩
  rintro ⟨spec', hasked', hzero⟩
  obtain rfl := Option.some.inj (hasked.symm.trans hasked')
  exact hzero

end Run

/-- The addresses to probe are those of the paths that are to stay and lost no conflict. -/
theorem Router.mem_destinations_iff {r : Router} {a : Address} :
    a ∈ r.destinations ↔ ∃ n c p, r.path? n c = some p ∧ p.flags.pendingDelete = false ∧
      p.flags.disabled = false ∧ p.address = a := by
  have hpaths (p : Path) : p ∈ r.paths ↔ ∃ n c, r.path? n c = some p := by
    simp only [paths, List.mem_flatMap, OrderedMap.mem_values_iff, path?_eq_some_iff]
    constructor
    · rintro ⟨g, ⟨n, hgroup⟩, c, hp⟩
      exact ⟨n, c, g, hgroup, hp⟩
    · rintro ⟨n, c, g, hgroup, hp⟩
      exact ⟨g, ⟨n, hgroup⟩, c, hp⟩
  have haddresses : r.destinations = (OrderedMap.ofList
      (((r.paths.filter fun p => !p.flags.pendingDelete && !p.flags.disabled).map
        Path.address).map fun a => (a, ()))).keys := by
    rw [destinations, List.map_map]
    rfl
  rw [haddresses, OrderedMap.mem_keys_iff]
  simp only [OrderedMap.get?_ofList_map, Option.ite_none_right_eq_some, exists_const, and_true,
    List.mem_map, List.mem_filter, hpaths, Bool.and_eq_true, Bool.not_eq_true']
  constructor
  · rintro ⟨p, ⟨⟨n, c, hp⟩, hlive, henabled⟩, rfl⟩
    exact ⟨n, c, p, hp, hlive, henabled, rfl⟩
  · rintro ⟨n, c, p, hp, hlive, henabled, rfl⟩
    exact ⟨p, ⟨⟨n, c, hp⟩, hlive, henabled⟩, rfl⟩

namespace Run

variable {T : RouteTable σ} {policy : Policy}

/-- Of the addresses to probe, a prober with a socket for the family leaves out the unspecified ones
only, and of these each was last asked for, with some path, as the unspecified IPv4 address written
in IPv6. -/
theorem targets_asked {table : σ} {ops : List Operation} {a : Address}
    (ha : a ∈ (after T policy table ops).router.destinations) (prober : Prober)
    (hopen : prober.isOpen a.family = true) :
    (a ∈ prober.targets (after T policy table ops).router.destinations ↔
      a.isUnspecified = false) ∧
    (a.isUnspecified = true →
      ∃ n c spec, asked? n c ops = some spec ∧ spec.address = .mappedZero) := by
  obtain ⟨n, c, p, hp, -, -, rfl⟩ := Router.mem_destinations_iff.1 ha
  obtain ⟨hcanonical, -, hzero⟩ := isUnspecified_iff_asked hp
  refine ⟨?_, fun h => ⟨n, c, hzero.1 h⟩⟩
  rw [Prober.mem_targets_iff]
  exact ⟨fun h => h.2.1, fun h => ⟨⟨p.address, ha, hcanonical⟩, h, hopen⟩⟩

/-- A call for an unspecified host is made for a path that was asked for with the unspecified IPv4
address written in IPv6, or for a service that was asked for with this prefix. -/
theorem calls_unspecified {table : σ} {ops : List Operation} {a : Address} {call : RouteCall}
    {failed : Bool} (ha : a.isUnspecified = true)
    (h : (.single a, call, failed) ∈ (after T.journaled policy (table, []) ops).table.2) :
    (∃ n spec, .addPeer n spec ∈ ops ∧ spec.address = .mappedZero) ∨
      ∃ n d c, .addService n d c ∈ ops ∧ d.normal = .single a := by
  obtain ⟨op, hop, hasks⟩ := calls_asked table ops _ h
  cases op with
  | addPeer n spec =>
    obtain ⟨husable, hhost⟩ := hasks
    simp only [PathSpec.isUsable, Bool.and_eq_true, Bool.not_eq_true'] at husable
    have haddress : a = spec.address.canonical :=
      (congrArg Prefix.address hhost).trans (Address.canonical_canonical _)
    rw [haddress, Address.isUnspecified_canonical_iff husable.1] at ha
    exact .inl ⟨n, spec, hop, ha⟩
  | addService n d c => exact .inr ⟨n, d, c, hop, hasks.symm⟩
  | _ => exact hasks.elim

/-- After any operations, over any table. The address of every path is in canonical form and its
interface has a name; the address is unspecified exactly if the path was last asked for with the
unspecified IPv4 address written in IPv6. A prober leaves out of the addresses to probe, where it
has a socket for the family, the unspecified ones only, each of which comes from such a path. And
calls for an unspecified host are made only if a path was asked for in this way, or a service with
this very prefix. -/
theorem specified_after (T : RouteTable σ) (policy : Policy) (table : σ) (ops : List Operation) :
    (∀ n c p, (after T.journaled policy (table, []) ops).router.path? n c = some p →
      p.address.canonical = p.address ∧ p.interface.isEmpty = false ∧
        (p.address.isUnspecified = true ↔
          ∃ spec, asked? n c ops = some spec ∧ spec.address = .mappedZero)) ∧
    (∀ a ∈ (after T.journaled policy (table, []) ops).router.destinations,
      ∀ prober : Prober, prober.isOpen a.family = true →
        (a ∈ prober.targets (after T.journaled policy (table, []) ops).router.destinations ↔
          a.isUnspecified = false) ∧
        (a.isUnspecified = true →
          ∃ n c spec, asked? n c ops = some spec ∧ spec.address = .mappedZero)) ∧
    ∀ a call failed, a.isUnspecified = true →
      (.single a, call, failed) ∈ (after T.journaled policy (table, []) ops).table.2 →
        (∃ n spec, .addPeer n spec ∈ ops ∧ spec.address = .mappedZero) ∨
          ∃ n d c, .addService n d c ∈ ops ∧ d.normal = .single a :=
  ⟨fun _ _ _ h => isUnspecified_iff_asked h, fun _ ha prober hopen => targets_asked ha prober hopen,
    fun _ _ _ ha h => calls_unspecified ha h⟩

/-- A path that is asked for with the unspecified IPv4 address written in IPv6, and a
reconciliation. -/
def unspecified : List Operation :=
  [.addPeer ⟨"alpha"⟩ ⟨⟨"t1"⟩, "wg-a", none, .mappedZero⟩, .reconcile fun _ => .inOrder]

/-- The run over them. -/
def exposed : Run (RouteTable.Memory × Journal) :=
  after RouteTable.memory.journaled .default (.empty, []) unspecified

/-- The path has the unspecified IPv4 address; it is listed to be probed but no prober probes it;
and a route to it is made. -/
theorem unspecified_is_used :
    (∃ p, exposed.router.path? ⟨"alpha"⟩ ⟨"t1"⟩ = some p ∧ p.address.isUnspecified = true) ∧
      exposed.router.destinations = [.v4 0] ∧
      (∀ prober : Prober, prober.targets exposed.router.destinations = []) ∧
      (.single (.v4 0), .add ⟨"wg-a", none⟩, false) ∈ exposed.table.2 := by
  have hpath : (exposed.router.path? ⟨"alpha"⟩ ⟨"t1"⟩).map Path.address = some (.v4 0) := by
    decide +kernel
  have hlisted : exposed.router.destinations = [.v4 0] := by decide +kernel
  obtain ⟨p, hp, haddress⟩ := Option.map_eq_some_iff.1 hpath
  refine ⟨⟨p, hp, by rw [haddress]; rfl⟩, hlisted, fun prober => ?_, by decide +kernel⟩
  rw [hlisted]
  rfl

/-- A path that is asked for with a specified address, then with the unspecified IPv4 address
written in IPv6, and then with an unspecified one, which is ignored. -/
def changeable : List Operation :=
  [.addPeer ⟨"alpha"⟩ (.v4 "t1" "wg-a" 1), .reconcile fun _ => .inOrder,
    .addPeer ⟨"alpha"⟩ ⟨⟨"t1"⟩, "wg-a", none, .mappedZero⟩, .addPeer ⟨"alpha"⟩ (.v4 "t1" "wg-a" 0)]

/-- The request that is ignored does not count, so the path has an unspecified address; a prober
with a socket leaves it out. -/
theorem specified_after_changeable :
    asked? ⟨"alpha"⟩ ⟨"t1"⟩ changeable = some ⟨⟨"t1"⟩, "wg-a", none, .mappedZero⟩ ∧
      (∃ p, (after RouteTable.memory.journaled .default (.empty, []) changeable).router.path?
          ⟨"alpha"⟩ ⟨"t1"⟩ = some p ∧ p.address.isUnspecified = true) ∧
      ∀ prober : Prober, prober.isOpen .v4 = true → .v4 0 ∉ prober.targets
        (after RouteTable.memory.journaled .default (.empty, []) changeable).router.destinations := by
  obtain ⟨hpaths, htargets, -⟩ :=
    specified_after RouteTable.memory .default .empty changeable
  have hasked : asked? ⟨"alpha"⟩ ⟨"t1"⟩ changeable =
      some ⟨⟨"t1"⟩, "wg-a", none, .mappedZero⟩ := by decide +kernel
  have hpath : ((after RouteTable.memory.journaled .default (.empty, []) changeable).router.path?
      ⟨"alpha"⟩ ⟨"t1"⟩).isSome = true := by decide +kernel
  obtain ⟨p, hp⟩ := Option.isSome_iff_exists.1 hpath
  refine ⟨hasked, ⟨p, hp, (hpaths _ _ p hp).2.2.2 ⟨_, hasked, rfl⟩⟩, fun prober hopen hmem => ?_⟩
  have hspecified := ((htargets (.v4 0) (by decide +kernel) prober hopen).1).1 hmem
  cases hspecified

end Run

end RouteKeeper
