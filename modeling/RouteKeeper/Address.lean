import RouteKeeper.OrderedMap

/-!
# Network addresses

An address is a number of 32 or 128 bits. An IPv6 address of the form `::ffff:a.b.c.d` stands for
the IPv4 address `a.b.c.d`; its canonical form is that address.
-/
namespace RouteKeeper

/-- The two address families. -/
inductive Family where
  | v4
  | v6
deriving DecidableEq, Repr

namespace Family

/-- The name of the family in messages. -/
def name : Family → String
  | v4 => "IPv4"
  | v6 => "IPv6"

/-- The number of bits in an address of the family. -/
def width : Family → Nat
  | v4 => 32
  | v6 => 128

end Family

/-- An IPv4 or IPv6 address. -/
inductive Address where
  | v4 (bits : BitVec 32)
  | v6 (bits : BitVec 128)
deriving DecidableEq

namespace Address

def family : Address → Family
  | v4 _ => .v4
  | v6 _ => .v6

/-- The number of bits in the address. -/
def width (a : Address) : Nat := a.family.width

/-- The address as a number. -/
def toNat : Address → Nat
  | v4 b => b.toNat
  | v6 b => b.toNat

/-- The address is all zeros. -/
def isUnspecified (a : Address) : Bool := a.toNat == 0

/-- IPv4 addresses written in IPv6 are read as IPv4; all others stay. -/
def canonical : Address → Address
  | v4 b => v4 b
  | v6 b => if b.toNat >>> 32 = 0xFFFF then v4 (BitVec.ofNat 32 b.toNat) else v6 b

@[simp] theorem canonical_v4 (b : BitVec 32) : (v4 b).canonical = v4 b := rfl

@[simp] theorem canonical_canonical (a : Address) : a.canonical.canonical = a.canonical := by
  cases a with
  | v4 b => rfl
  | v6 b =>
    by_cases h : b.toNat >>> 32 = 0xFFFF
    · rw [canonical, if_pos h]
      rfl
    · rw [canonical, if_neg h, canonical, if_neg h]

/-- Zero the bits after the first `keep`. -/
def truncate (keep : Nat) : Address → Address
  | v4 b => v4 (b >>> (32 - keep) <<< (32 - keep))
  | v6 b => v6 (b >>> (128 - keep) <<< (128 - keep))

@[simp] theorem family_truncate (keep : Nat) (a : Address) :
    (a.truncate keep).family = a.family := by
  cases a <;> rfl

/-! ## Order -/

/-- The place of an address among all: IPv4 first, then by number. -/
def rank : Address → Nat
  | v4 b => b.toNat
  | v6 b => 0x100000000 + b.toNat

theorem rank_injective (a b : Address) (h : a.rank = b.rank) : a = b := by
  cases a with
  | v4 x =>
    cases b with
    | v4 y => exact congrArg v4 (BitVec.eq_of_toNat_eq h)
    | v6 y => simp only [rank] at h; have := x.isLt; omega
  | v6 x =>
    cases b with
    | v4 y => simp only [rank] at h; have := y.isLt; omega
    | v6 y => exact congrArg v6 (BitVec.eq_of_toNat_eq (by simp only [rank] at h; omega))

instance : KeyOrder Address := KeyOrder.ofRank rank rank_injective

end Address

end RouteKeeper
