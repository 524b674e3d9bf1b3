/-!
# Doubles by their bits

A double is kept as its 64 bits, so that two doubles are equal if and only if their bits are: zeros
with different signs stay apart, and so do the many patterns that are not a number.
-/
namespace RouteKeeper

/-- A double. -/
structure Double where
  bits : UInt64
deriving DecidableEq

namespace Double

/-- Zero, the positive one. -/
def zero : Double := ⟨0⟩

/-- The double of a float. -/
def ofFloat (x : Float) : Double := ⟨x.toBits⟩

/-- The float to calculate and compare with. -/
def toFloat (x : Double) : Float := .ofBits x.bits

/-- A count as a float, rounded to the nearest. Counts stop at the largest 64-bit number. -/
def ofCount (n : Nat) : Float := (UInt64.ofNat (min n (UInt64.size - 1))).toFloat

end Double

end RouteKeeper
