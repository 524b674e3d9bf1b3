import RouteKeeper.Address

/-!
# Network prefixes

A prefix is an address and the number of its leading bits that count. Bits after those, the host
bits, may be set; `Prefix.normal` clears them, so that prefixes of the same hosts become equal.
-/
namespace RouteKeeper

/-- An address and a number of its leading bits. -/
structure Prefix where
  address : Address
  length : Nat
  length_le : length ≤ address.width
deriving DecidableEq

namespace Prefix

@[ext] theorem ext {p q : Prefix} (h₁ : p.address = q.address) (h₂ : p.length = q.length) :
    p = q := by
  cases p; cases q; cases h₁; cases h₂; rfl

/-- The prefix of an address and a length, if the address is that long. -/
def ofParts? (address : Address) (length : Nat) : Option Prefix :=
  if h : length ≤ address.width then some ⟨address, length, h⟩ else none

/-- The prefix that holds just this address, as given. -/
def single (a : Address) : Prefix := ⟨a, a.width, Nat.le_refl _⟩

/-- The prefix that holds just this address, in canonical form. -/
def host (a : Address) : Prefix := single a.canonical

/-- The address with the host bits cleared. -/
def network (p : Prefix) : Address := p.address.truncate p.length

/-- The canonical prefix of the same hosts: host bits cleared, and IPv4 networks that are written
in IPv6 read as IPv4, which shortens the length by the 96 bits in front. -/
def normal (p : Prefix) : Prefix :=
  let network := p.network.canonical
  let length := if p.address.family = .v6 && network.family = .v4 then p.length - 96 else p.length
  (ofParts? network length).getD p

/-! ## Order -/

theorem length_le_128 (p : Prefix) : p.length ≤ 128 := by
  have h := p.length_le
  unfold Address.width Family.width at h
  split at h <;> omega

/-- The place of a prefix among all: by address, then by length. -/
def rank (p : Prefix) : Nat := p.address.rank * 129 + p.length

theorem rank_injective (p q : Prefix) (h : p.rank = q.rank) : p = q := by
  have hp := p.length_le_128
  have hq := q.length_le_128
  unfold rank at h
  exact ext (Address.rank_injective _ _ (by omega)) (by omega)

instance : KeyOrder Prefix := KeyOrder.ofRank rank rank_injective

end Prefix

end RouteKeeper
