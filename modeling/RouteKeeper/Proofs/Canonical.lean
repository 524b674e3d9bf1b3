import RouteKeeper.Proofs.Runs

/-!
# Canonical forms

Paths are kept with addresses in canonical form and services under normal prefixes, and so they
stay. A normal prefix is its own normal form, so that asking again for what a router has meets the
entry that is there.

## Main definitions

* `Router.Canonical` — specifications and prefixes are in their normal form, interfaces have names.

## Main statements

* `Prefix.normal_normal` — normal forms of prefixes are normal.
* `Reachable.canonical` — reachable routers are canonical.
-/
namespace RouteKeeper

variable {σ : Type}

/-! ## Prefixes -/

namespace Address

/-- Zeroing bits that are zero changes nothing. -/
theorem shift_eq_self {w k : Nat} {b : BitVec w} (h : ∀ i < k, b.getLsbD i = false) :
    b >>> k <<< k = b := by
  refine BitVec.eq_of_getLsbD_eq fun i hi => ?_
  rw [BitVec.getLsbD_shiftLeft, BitVec.getLsbD_ushiftRight]
  by_cases hik : i < k
  · simp [hik, h i hik]
  · simp [hik, hi, Nat.add_sub_cancel' (Nat.le_of_not_lt hik)]

theorem getLsbD_shift {w : Nat} (b : BitVec w) {k i : Nat} (h : i < k) :
    (b >>> k <<< k).getLsbD i = false := by
  simp [BitVec.getLsbD_shiftLeft, h]

@[simp] theorem truncate_truncate (keep : Nat) (a : Address) :
    (a.truncate keep).truncate keep = a.truncate keep := by
  cases a with
  | v4 b => exact congrArg v4 (shift_eq_self fun i hi => getLsbD_shift b hi)
  | v6 b => exact congrArg v6 (shift_eq_self fun i hi => getLsbD_shift b hi)

/-- An address whose canonical form is IPv6 is in canonical form. -/
theorem canonical_of_family {a : Address} (h : a.canonical.family = .v6) : a.canonical = a := by
  cases a with
  | v4 b => rfl
  | v6 b =>
    by_cases hmapped : b.toNat >>> 32 = 0xFFFF
    · rw [canonical, if_pos hmapped] at h
      cases h
    · rw [canonical, if_neg hmapped]

theorem toNat_shiftRight_of_family {b : BitVec 128} (h : (v6 b).canonical.family = .v4) :
    b.toNat >>> 32 = 0xFFFF := by
  by_contra hnot
  have hcanonical : (v6 b).canonical = v6 b := if_neg hnot
  rw [hcanonical] at h
  cases h

/-- An IPv6 network that is read as IPv4 has a length of the 96 bits in front at least. -/
theorem le_of_family_canonical {b : BitVec 128} {l : Nat}
    (h : ((v6 b).truncate l).canonical.family = .v4) : 96 ≤ l := by
  have hmapped := toNat_shiftRight_of_family h
  -- bit 32 is set in what marks such a network, so it is not among the bits that were cleared
  have hbit : (b >>> (128 - l) <<< (128 - l)).getLsbD 32 = true := by
    have hlow := congrArg (fun n => n.testBit 0) hmapped
    rw [BitVec.getLsbD]
    simpa [Nat.testBit_shiftRight] using hlow
  by_contra hshort
  rw [getLsbD_shift b (by omega)] at hbit
  cases hbit

/-- An IPv4 network that is written in IPv6 has no host bits when it is read as IPv4. -/
theorem truncate_canonical {b : BitVec 128} {l : Nat}
    (h : ((v6 b).truncate l).canonical.family = .v4) :
    ((v6 b).truncate l).canonical.truncate (l - 96) = ((v6 b).truncate l).canonical := by
  let c := b >>> (128 - l) <<< (128 - l)
  have hzero : ∀ i < 128 - l, c.getLsbD i = false := fun i hi => getLsbD_shift b hi
  have hlength := le_of_family_canonical h
  have hcanonical : ((v6 b).truncate l).canonical = v4 (BitVec.ofNat 32 c.toNat) :=
    if_pos (toNat_shiftRight_of_family h)
  rw [hcanonical]
  refine congrArg v4 (shift_eq_self fun i hi => ?_)
  have hbit := hzero i (by omega)
  rw [BitVec.getLsbD] at hbit
  rw [BitVec.getLsbD_ofNat, hbit, Bool.and_false]

end Address

namespace Prefix

/-- A prefix without host bits and in canonical form is its own normal form. -/
theorem normal_eq_self {p : Prefix} (hnetwork : p.network = p.address)
    (hcanonical : p.address.canonical = p.address) : p.normal = p := by
  have hlength : (if p.address.family = .v6 && p.address.family = .v4 then p.length - 96
      else p.length) = p.length := by
    cases p.address.family <;> rfl
  rw [normal, hnetwork, hcanonical]
  simp only [hlength, ofParts?, dif_pos p.length_le, Option.getD_some]

/-- The length of the normal form, if there is a prefix of that length. -/
def normalLength (p : Prefix) : Nat :=
  if p.address.family = .v6 && p.network.canonical.family = .v4 then p.length - 96 else p.length

theorem normalLength_of_family {p : Prefix} (h : p.network.canonical.family = p.address.family) :
    p.normalLength = p.length := by
  rw [normalLength, h]
  cases p.address.family <;> rfl

/-- The address of a normal form has no host bits. -/
theorem truncate_normalLength (p : Prefix) :
    p.network.canonical.truncate p.normalLength = p.network.canonical := by
  have hfixed : p.network.canonical = p.network →
      p.network.canonical.truncate p.normalLength = p.network.canonical := by
    intro hcanonical
    rw [normalLength_of_family (by rw [hcanonical, network, Address.family_truncate]), hcanonical]
    exact Address.truncate_truncate ..
  obtain ⟨a, l, hl⟩ := p
  cases a with
  | v4 b => exact hfixed rfl
  | v6 b =>
    cases hfamily : ((Address.v6 b).truncate l).canonical.family with
    | v4 =>
      have hlength : normalLength ⟨.v6 b, l, hl⟩ = l - 96 := by
        simp only [normalLength, network, hfamily]
        rfl
      rw [hlength]
      exact Address.truncate_canonical hfamily
    | v6 => exact hfixed (Address.canonical_of_family hfamily)

/-- Normal forms are normal. -/
@[simp] theorem normal_normal (p : Prefix) : p.normal.normal = p.normal := by
  have hnormal : p.normal = (ofParts? p.network.canonical p.normalLength).getD p := rfl
  rw [hnormal]
  unfold ofParts?
  split
  case isTrue h => exact normal_eq_self p.truncate_normalLength (Address.canonical_canonical _)
  case isFalse h =>
    rw [ofParts?, dif_neg h] at hnormal
    exact hnormal

end Prefix

/-! ## Routers -/

namespace Router

/-- Paths have specifications in normal form and named interfaces, and services stand under normal
prefixes. -/
structure Canonical (r : Router) : Prop where
  spec {n : GroupName} {c : ConnectionName} {p : Path} :
    r.path? n c = some p → p.spec.normal = p.spec
  interface {n : GroupName} {c : ConnectionName} {p : Path} :
    r.path? n c = some p → p.spec.interface.isEmpty = false
  destination {n : GroupName} {d : Prefix} {s : Service} :
    r.service? n d = some s → d.normal = d

variable {r r' : Router}

/-- A service that there is after an operation was there before or was asked for. -/
theorem service?_of_edit {op : Operation} {n : GroupName} {d : Prefix} {s' : Service}
    (h : (op.edit r).service? n d = some s') :
    (∃ s, r.service? n d = some s) ∨ ∃ e c, op = .addService n e c ∧ d = e.normal := by
  cases op with
  | addPeer name spec =>
    rw [Operation.edit, service?_addPeer] at h
    exact .inl ⟨s', h⟩
  | deletePeer name connection =>
    obtain ⟨s, -, hs, -⟩ := service?_deletePeer h
    exact .inl ⟨s, hs⟩
  | addService name destination connection =>
    obtain ⟨candidates, hservice⟩ :=
      exists_service?_addService (r := r) name destination connection n d
    rw [Operation.edit, hservice] at h
    split at h
    case isTrue hkey =>
      obtain ⟨rfl, hd⟩ := hkey
      exact .inr ⟨destination, connection, rfl, hd⟩
    case isFalse => exact .inl ⟨s', h⟩
  | deleteService name destination connection =>
    obtain ⟨s, -, hs, -⟩ := service?_deleteService h
    exact .inl ⟨s, hs⟩
  | flush =>
    obtain ⟨s, -, hs, -⟩ := service?_flush h
    exact .inl ⟨s, hs⟩
  | recordRound results =>
    rw [Operation.edit, service?_recordRound] at h
    exact .inl ⟨s', h⟩
  | reconcile => exact .inl ⟨s', h⟩

theorem canonical_new (policy : Policy) : (new policy).Canonical where
  spec h := by cases h
  interface h := by cases h
  destination h := by cases h

theorem Canonical.edit (h : r.Canonical) (op : Operation) : (op.edit r).Canonical where
  spec {n c p'} hp' := by
    rcases Operation.path?_edit hp' with ⟨spec, -, -, rfl, rfl⟩ | ⟨p, hp, hkept⟩
    · rw [requested]
      cases r.path? n spec.connection <;> exact spec.normal_normal
    · rw [hkept.spec]
      exact h.spec hp
  interface {n c p'} hp' := by
    rcases Operation.path?_edit hp' with ⟨spec, -, husable, rfl, rfl⟩ | ⟨p, hp, hkept⟩
    · have hinterface : spec.interface.isEmpty = false := by
        simpa [PathSpec.isUsable] using (Bool.and_eq_true_iff.1 husable).2
      rw [requested]
      cases r.path? n spec.connection <;> exact hinterface
    · rw [hkept.spec]
      exact h.interface hp
  destination hs' := by
    rcases service?_of_edit hs' with ⟨s, hs⟩ | ⟨e, c, -, rfl⟩
    · exact h.destination hs
    · exact e.normal_normal

theorem Canonical.remains (h : r.Canonical) {r' : Router} (hremains : r.Remains r') :
    r'.Canonical where
  spec hp' := by
    obtain ⟨p, hp, hspec⟩ := hremains.path hp'
    rw [hspec]
    exact h.spec hp
  interface hp' := by
    obtain ⟨p, hp, hspec⟩ := hremains.path hp'
    rw [hspec]
    exact h.interface hp
  destination hs' := by
    obtain ⟨s, hs⟩ := hremains.service hs'
    exact h.destination hs

/-- Reachable routers are canonical. -/
theorem Reachable.canonical (h : r.Reachable) : r.Canonical :=
  h.edit_induction canonical_new (fun _ op hr => hr.edit op)
    fun _ T visits table hk hr => hr.remains (remains_reconcileWith hk T visits table)

end Router

end RouteKeeper
