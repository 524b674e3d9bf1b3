import Mathlib.Data.Set.Insert
import RouteKeeper.Proofs.Canonical

/-!
# What prefixes denote

All addresses can be read as addresses of 128 bits, those of IPv4 behind the mark `::ffff`. A prefix
then denotes a set of them, its cover: the addresses of its family that have its leading bits. Two
prefixes have the same normal form exactly if they have the same cover, so what stands under a
normal form is found by every prefix of the same hosts, and by no other.

## Main definitions

* `Address.wide` — an address as one of 128 bits.
* `Prefix.cover` — the addresses that a prefix denotes.
* `Prefix.wideLength` — how many leading bits of the wide form count.

## Main statements

* `Prefix.mem_cover_iff` — a cover is given by leading bits of the wide form.
* `Prefix.cover_eq_cover_iff` — equal covers have equally many leading bits, and the same.
* `Prefix.keys_canonical` — normal forms are equal exactly for prefixes of the same hosts.
-/
namespace RouteKeeper

/-! ## Addresses of 128 bits -/

namespace Address

/-- The address as one of 128 bits: `a.b.c.d` is `::ffff:a.b.c.d`. -/
def wide : Address → BitVec 128
  | v4 b => 0xFFFF#96 ++ b
  | v6 b => b

/-- A bit of the address, counted from the front. -/
def bit : Address → Nat → Bool
  | v4 b, i => b.getMsbD i
  | v6 b, i => b.getMsbD i

theorem width_le (a : Address) : a.width ≤ 128 := by
  unfold width Family.width
  split <;> decide

theorem toNat_wide_v4 (b : BitVec 32) : (v4 b).wide.toNat = 0xFFFF00000000 + b.toNat := by
  have hlow := b.isLt
  rw [wide, BitVec.toNat_append, ← Nat.shiftLeft_add_eq_or_of_lt hlow]
  rfl

/-- Reading an address in canonical form does not change what it denotes. -/
@[simp] theorem wide_canonical (a : Address) : a.canonical.wide = a.wide := by
  cases a with
  | v4 b => rfl
  | v6 b =>
    by_cases hmapped : b.toNat >>> 32 = 0xFFFF
    · refine BitVec.eq_of_toNat_eq ?_
      rw [canonical, if_pos hmapped, toNat_wide_v4, BitVec.toNat_ofNat, wide]
      rw [Nat.shiftRight_eq_div_pow] at hmapped
      omega
    · rw [canonical, if_neg hmapped]

/-- Canonical addresses that denote the same are equal. -/
theorem eq_of_wide_eq {a b : Address} (ha : a.canonical = a) (hb : b.canonical = b)
    (h : a.wide = b.wide) : a = b := by
  have hmixed : ∀ (x : BitVec 32) (y : BitVec 128), (v6 y).canonical = v6 y →
      (v4 x).wide ≠ (v6 y).wide := by
    intro x y hy heq
    have hnumber := congrArg BitVec.toNat heq
    have hmapped : y.toNat >>> 32 = 0xFFFF := by
      rw [toNat_wide_v4, wide] at hnumber
      rw [Nat.shiftRight_eq_div_pow]
      have := x.isLt
      omega
    rw [canonical, if_pos hmapped] at hy
    cases hy
  cases a with
  | v4 x =>
    cases b with
    | v4 y =>
      have hnumber := congrArg BitVec.toNat h
      rw [toNat_wide_v4, toNat_wide_v4] at hnumber
      exact congrArg v4 (BitVec.eq_of_toNat_eq (by omega))
    | v6 y => exact absurd h (hmixed x y hb)
  | v6 x =>
    cases b with
    | v4 y => exact absurd h.symm (hmixed y x ha)
    | v6 y => exact congrArg v6 h

/-- The bits of an address are the last ones of its wide form. -/
theorem getMsbD_wide (a : Address) (i : Nat) : a.wide.getMsbD (128 - a.width + i) = a.bit i := by
  cases a with
  | v4 b =>
    rw [wide, BitVec.getMsbD_append, if_pos (by simp [width, family, Family.width])]
    simp [bit, width, family, Family.width]
  | v6 b => simp [wide, bit, width, family, Family.width]

/-- The mark in front is the same for all addresses of a family. -/
theorem getMsbD_wide_of_lt {a b : Address} (hfamily : a.family = b.family) {i : Nat}
    (hi : i < 128 - b.width) : a.wide.getMsbD i = b.wide.getMsbD i := by
  cases b with
  | v4 y =>
    cases a with
    | v4 x =>
      have hfront : ¬ 96 ≤ i := Nat.not_le.2 hi
      rw [wide, wide, BitVec.getMsbD_append, BitVec.getMsbD_append, if_neg hfront, if_neg hfront]
    | v6 x => cases hfamily
  | v6 y => exact absurd hi (Nat.not_lt_zero i)

/-- An address of 128 bits with the mark in front is the wide form of an IPv4 address. -/
theorem exists_wide_eq {b : BitVec 32} {x : BitVec 128}
    (h : ∀ i < 96, x.getMsbD i = (v4 b).wide.getMsbD i) : ∃ y, (v4 y).wide = x := by
  refine ⟨x.setWidth 32, BitVec.eq_of_getMsbD_eq fun i hi => ?_⟩
  rw [wide, BitVec.getMsbD_append]
  split
  case isTrue hlow =>
    have hplace : i - 96 + 128 - 32 = i := by omega
    rw [BitVec.getMsbD_setWidth, hplace, decide_eq_true (by omega), Bool.true_and]
  case isFalse hhigh =>
    rw [h i (Nat.not_le.1 hhigh), wide, BitVec.getMsbD_append, if_neg hhigh]

/-- Truncating an address keeps its first bits and clears the others. -/
theorem bit_truncate (a : Address) (keep i : Nat) :
    (a.truncate keep).bit i = (decide (i < keep) && a.bit i) := by
  have hcleared : ∀ {w : Nat} (b : BitVec w),
      (b >>> (w - keep) <<< (w - keep)).getMsbD i = (decide (i < keep) && b.getMsbD i) := by
    intro w b
    simp only [BitVec.getMsbD_eq_getLsbD, BitVec.getLsbD_shiftLeft, BitVec.getLsbD_ushiftRight]
    by_cases hi : i < w
    · by_cases hkeep : i < keep
      · have hplace : w - keep + (w - 1 - i - (w - keep)) = w - 1 - i := by omega
        have hkept : ¬ w - 1 - i < w - keep := by omega
        simp [hi, hkeep, hplace, hkept, show w - 1 - i < w by omega]
      · simp [hkeep, show w - 1 - i < w - keep by omega]
    · simp [hi]
  cases a with
  | v4 b => exact hcleared b
  | v6 b => exact hcleared b

end Address

namespace Prefix

variable {p q : Prefix} {x : BitVec 128}

/-! ## Covers -/

/-- The addresses that the prefix denotes: those of its family that have its leading bits. -/
def cover (p : Prefix) : Set (BitVec 128) :=
  {x | ∃ a : Address, a.family = p.address.family ∧ (∀ i < p.length, a.bit i = p.address.bit i) ∧
    a.wide = x}

/-- How many bits of the wide form of the address count. -/
def wideLength (p : Prefix) : Nat := 128 - p.address.width + p.length

theorem wideLength_le (p : Prefix) : p.wideLength ≤ 128 := by
  have hlength := p.length_le
  have hwidth := p.address.width_le
  unfold wideLength
  omega

/-- A cover is given by leading bits of the wide form. -/
theorem mem_cover_iff :
    x ∈ p.cover ↔ ∀ i < p.wideLength, x.getMsbD i = p.address.wide.getMsbD i := by
  constructor
  · rintro ⟨a, hfamily, hbits, rfl⟩ i hi
    by_cases hfront : i < 128 - p.address.width
    · exact Address.getMsbD_wide_of_lt hfamily hfront
    · obtain ⟨k, rfl⟩ := Nat.exists_eq_add_of_le (Nat.not_lt.1 hfront)
      have hwidth : a.width = p.address.width := by rw [Address.width, hfamily, Address.width]
      rw [Address.getMsbD_wide, ← hwidth, Address.getMsbD_wide]
      exact hbits k (Nat.lt_of_add_lt_add_left hi)
  · intro h
    have hbits : ∀ {a : Address}, a.family = p.address.family → a.wide = x →
        ∀ i < p.length, a.bit i = p.address.bit i := by
      intro a hfamily hwide i hi
      have hwidth : a.width = p.address.width := by rw [Address.width, hfamily, Address.width]
      rw [← Address.getMsbD_wide, ← Address.getMsbD_wide, hwidth, hwide]
      exact h _ (Nat.add_lt_add_left hi _)
    have hsome : ∃ a : Address, a.family = p.address.family ∧ a.wide = x := by
      cases haddress : p.address with
      | v4 b =>
        obtain ⟨y, hy⟩ := Address.exists_wide_eq (b := b) (x := x) fun i hi => by
          rw [← haddress]
          refine h i (Nat.lt_add_right _ ?_)
          rw [haddress]
          exact hi
        exact ⟨.v4 y, rfl, hy⟩
      | v6 b => exact ⟨.v6 x, rfl, rfl⟩
    obtain ⟨a, hfamily, hwide⟩ := hsome
    exact ⟨a, hfamily, hbits hfamily hwide, hwide⟩

theorem wide_mem_cover (p : Prefix) : p.address.wide ∈ p.cover :=
  mem_cover_iff.2 fun _ _ => rfl

/-- A cover that is in another has at least as many leading bits. -/
theorem wideLength_le_of_cover_subset (h : p.cover ⊆ q.cover) : q.wideLength ≤ p.wideLength := by
  by_contra hless
  have hless := Nat.not_le.1 hless
  have hmost := q.wideLength_le
  -- the first bit that does not count for `p` is turned over
  let x := p.address.wide ^^^ BitVec.twoPow 128 (127 - p.wideLength)
  have hx : ∀ i < 128, x.getMsbD i = (p.address.wide.getMsbD i ^^ decide (i = p.wideLength)) := by
    intro i hi
    rw [BitVec.getMsbD_xor, BitVec.getMsbD_eq_getLsbD (BitVec.twoPow _ _), BitVec.getLsbD_twoPow]
    have hplace : 127 - p.wideLength = 128 - 1 - i ↔ i = p.wideLength := by omega
    simp [hplace, hi, show 127 - p.wideLength < 128 by omega]
  have hmem : x ∈ q.cover := by
    refine h (mem_cover_iff.2 fun i hi => ?_)
    rw [hx i (by omega), decide_eq_false (by omega), Bool.xor_false]
  have hturned := mem_cover_iff.1 hmem p.wideLength hless
  have hkept := mem_cover_iff.1 (h p.wide_mem_cover) p.wideLength hless
  rw [hx _ (by omega), hkept, decide_eq_true rfl] at hturned
  simp at hturned

/-- Equal covers have equally many leading bits, and the same. -/
theorem cover_eq_cover_iff : p.cover = q.cover ↔ p.wideLength = q.wideLength ∧
    ∀ i < q.wideLength, p.address.wide.getMsbD i = q.address.wide.getMsbD i := by
  constructor
  · intro h
    refine ⟨Nat.le_antisymm (wideLength_le_of_cover_subset h.ge)
      (wideLength_le_of_cover_subset h.le), mem_cover_iff.1 ?_⟩
    rw [← h]
    exact p.wide_mem_cover
  · rintro ⟨hlength, hbits⟩
    ext x
    rw [mem_cover_iff, mem_cover_iff, hlength]
    exact forall₂_congr fun i hi => by rw [hbits i hi]

/-! ## Normal forms -/

/-- The number of host bits stays the same. -/
theorem normalLength_add_width (p : Prefix) :
    p.normalLength + p.address.width = p.length + p.network.canonical.width := by
  obtain ⟨a, l, hl⟩ := p
  cases a with
  | v4 b => rfl
  | v6 b =>
    cases hfamily : ((Address.v6 b).truncate l).canonical.family with
    | v4 =>
      have hleast := Address.le_of_family_canonical hfamily
      simp only [normalLength, network, Address.width, hfamily]
      simp only [Address.family, Family.width, decide_true, Bool.and_true, if_true]
      omega
    | v6 =>
      simp only [normalLength, network, Address.width, hfamily]
      rfl

/-- There is a prefix of the length of the normal form. -/
theorem ofParts?_normal (p : Prefix) :
    ofParts? p.network.canonical p.normalLength = some p.normal := by
  have hle : p.normalLength ≤ p.network.canonical.width := by
    have hkept := p.normalLength_add_width
    have hlength := p.length_le
    omega
  have hparts : ofParts? p.network.canonical p.normalLength =
      some ⟨p.network.canonical, p.normalLength, hle⟩ := dif_pos hle
  have hnormal : p.normal = (ofParts? p.network.canonical p.normalLength).getD p := rfl
  rw [hnormal, hparts, Option.getD_some]

theorem address_eq_of_ofParts? {a : Address} {l : Nat} (h : ofParts? a l = some p) :
    p.address = a ∧ p.length = l := by
  unfold ofParts? at h
  split at h
  · cases h
    exact ⟨rfl, rfl⟩
  · cases h

theorem address_normal (p : Prefix) : p.normal.address = p.network.canonical :=
  (address_eq_of_ofParts? p.ofParts?_normal).1

theorem length_normal (p : Prefix) : p.normal.length = p.normalLength :=
  (address_eq_of_ofParts? p.ofParts?_normal).2

@[simp] theorem network_normal (p : Prefix) : p.normal.network = p.normal.address := by
  rw [network, address_normal, length_normal]
  exact p.truncate_normalLength

theorem length_normal_add_width (p : Prefix) :
    p.normal.length + p.address.width = p.length + p.normal.address.width := by
  rw [address_normal, length_normal]
  exact p.normalLength_add_width

theorem wideLength_normal (p : Prefix) : p.normal.wideLength = p.wideLength := by
  have hkept := p.length_normal_add_width
  have hwidth := p.address.width_le
  have hwidth' := p.normal.address.width_le
  unfold wideLength
  omega

theorem network_mem_cover (p : Prefix) : p.network.wide ∈ p.cover := by
  refine ⟨p.network, Address.family_truncate .., fun i hi => ?_, rfl⟩
  rw [network, Address.bit_truncate, decide_eq_true hi, Bool.true_and]

/-- The normal form denotes the same. -/
@[simp] theorem cover_normal (p : Prefix) : p.normal.cover = p.cover := by
  refine cover_eq_cover_iff.2 ⟨p.wideLength_normal, ?_⟩
  rw [address_normal, Address.wide_canonical]
  exact mem_cover_iff.1 p.network_mem_cover

/-- The wide form of a network is zero behind the bits that count. -/
theorem getMsbD_wide_network {i : Nat} (hi : p.wideLength ≤ i) :
    p.network.wide.getMsbD i = false := by
  obtain ⟨k, rfl⟩ := Nat.exists_eq_add_of_le hi
  have hwidth : p.network.width = p.address.width := by
    rw [Address.width, network, Address.family_truncate, Address.width]
  rw [wideLength, Nat.add_assoc, ← hwidth, Address.getMsbD_wide, network, Address.bit_truncate,
    decide_eq_false (by omega), Bool.false_and]

/-- Prefixes of the same hosts are equal if they have canonical addresses without host bits. -/
theorem eq_of_cover_eq (hp : p.network = p.address) (hq : q.network = q.address)
    (hp' : p.address.canonical = p.address) (hq' : q.address.canonical = q.address)
    (h : p.cover = q.cover) : p = q := by
  obtain ⟨hlength, hbits⟩ := cover_eq_cover_iff.1 h
  have hwide : p.address.wide = q.address.wide := by
    refine BitVec.eq_of_getMsbD_eq fun i _ => ?_
    by_cases hi : i < q.wideLength
    · exact hbits i hi
    · have hi := Nat.not_lt.1 hi
      rw [← hp, ← hq, getMsbD_wide_network hi, getMsbD_wide_network (hlength ▸ hi)]
  have haddress := Address.eq_of_wide_eq hp' hq' hwide
  refine Prefix.ext haddress ?_
  rw [wideLength, wideLength, haddress] at hlength
  omega

theorem canonical_address_normal (p : Prefix) :
    p.normal.address.canonical = p.normal.address := by
  rw [address_normal, Address.canonical_canonical]

theorem normal_eq_normal_iff : p.normal = q.normal ↔ p.cover = q.cover := by
  constructor
  · intro h
    rw [← p.cover_normal, h, q.cover_normal]
  · intro h
    refine eq_of_cover_eq p.network_normal q.network_normal p.canonical_address_normal
      q.canonical_address_normal ?_
    rw [cover_normal, cover_normal, h]

/-! ## Hosts -/

theorem wideLength_single (a : Address) : (single a).wideLength = 128 :=
  Nat.sub_add_cancel a.width_le

/-- The prefix of an address denotes it alone. -/
theorem cover_single (a : Address) : (single a).cover = {a.wide} := by
  ext x
  rw [mem_cover_iff, wideLength_single, Set.mem_singleton_iff]
  exact ⟨BitVec.eq_of_getMsbD_eq, fun h i _ => by rw [h, single]⟩

theorem cover_host (a : Address) : (host a).cover = {a.wide} := by
  rw [host, cover_single, Address.wide_canonical]

theorem network_single (a : Address) : (single a).network = a := by
  cases a with
  | v4 b => exact congrArg Address.v4 (Address.shift_eq_self fun _ => nofun)
  | v6 b => exact congrArg Address.v6 (Address.shift_eq_self fun _ => nofun)

/-- The prefix of a host is the normal form of the prefix of its address. -/
theorem host_eq_normal (a : Address) : host a = (single a).normal := by
  refine eq_of_cover_eq (network_single _) (network_normal _) (Address.canonical_canonical a)
    (canonical_address_normal _) ?_
  rw [cover_host, cover_normal, cover_single]

theorem host_eq_normal_iff {a : Address} : host a = p.normal ↔ p.cover = {a.wide} := by
  rw [host_eq_normal, normal_eq_normal_iff, cover_single, eq_comm]

end Prefix

/-! ## Keys of paths and services -/

theorem Path.destination_eq_normal_iff {path : Path} {p : Prefix} :
    path.destination = p.normal ↔ p.cover = {path.address.wide} :=
  Prefix.host_eq_normal_iff

namespace Group

variable {p q : Prefix}

/-- A service that is asked for is found by the prefixes of the same hosts. -/
theorem contains_addService (g : Group) (c : ConnectionName) (number : Nat) :
    (g.addService p c number).services.contains q.normal = true ↔
      p.cover = q.cover ∨ g.services.contains q.normal = true := by
  rw [← Prefix.normal_eq_normal_iff, eq_comm (a := p.normal), OrderedMap.contains, addService,
    OrderedMap.get?_insert]
  split
  case isTrue hsame => simp [hsame]
  case isFalse hother => simp [hother, OrderedMap.contains]

/-- Deleting a service leaves those of other hosts alone. -/
theorem cover_eq_or_get?_deleteService (g : Group) (c : ConnectionName) :
    p.cover = q.cover ∨
      (g.deleteService p c).services.get? q.normal = g.services.get? q.normal := by
  rw [← Prefix.normal_eq_normal_iff, Classical.or_iff_not_imp_left]
  intro hother
  exact OrderedMap.get?_modify_of_ne _ _ (Ne.symm hother)

end Group

/-- Two prefixes have the same normal form exactly if they denote the same addresses. The normal
form has no host bits, denotes what the prefix denotes, and is its own normal form; there is always
a prefix of its length, which has as many bits behind it as the given one. The prefix of a host is
the normal form of the prefix of its address. So a path stands under the normal form of exactly the
prefixes that denote its address alone, and a service that is asked for by a prefix is found, and
deleted, by exactly the prefixes that denote the same. -/
theorem Prefix.keys_canonical (p q : Prefix) :
    (p.normal = q.normal ↔ p.cover = q.cover) ∧
    (p.normal.network = p.normal.address ∧ p.normal.cover = p.cover ∧
      p.normal.normal = p.normal) ∧
    (ofParts? p.network.canonical p.normalLength = some p.normal ∧
      p.normal.length + p.address.width = p.length + p.normal.address.width) ∧
    (∀ a, host a = (single a).normal) ∧
    (∀ path : Path, path.destination = p.normal ↔ p.cover = {path.address.wide}) ∧
    ∀ (g : Group) (c : ConnectionName) (number : Nat),
      ((g.addService p c number).services.contains q.normal = true ↔
        p.cover = q.cover ∨ g.services.contains q.normal = true) ∧
      (p.cover = q.cover ∨
        (g.deleteService p c).services.get? q.normal = g.services.get? q.normal) :=
  ⟨normal_eq_normal_iff, ⟨p.network_normal, p.cover_normal, p.normal_normal⟩,
    ⟨p.ofParts?_normal, p.length_normal_add_width⟩, host_eq_normal,
    fun _ => Path.destination_eq_normal_iff,
    fun g c number => ⟨g.contains_addService c number, g.cover_eq_or_get?_deleteService c⟩⟩

end RouteKeeper
