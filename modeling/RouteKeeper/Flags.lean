/-!
# Marks on routing entries

An entry carries three marks, and five bits that no rule reads but that are kept. The marks and the
spare bits together form a number below 256.
-/
namespace RouteKeeper

/-- Marks on an entry: it waits to be installed, it waits to be removed, it lost a conflict. -/
structure Flags where
  pendingAdd : Bool
  pendingDelete : Bool
  disabled : Bool
  spare : BitVec 5
deriving DecidableEq

namespace Flags

/-- No mark at all. -/
def none : Flags := ⟨false, false, false, 0⟩

/-- The marks that a number stands for; only its lowest eight bits count. -/
def ofBits (n : Nat) : Flags := ⟨n.testBit 0, n.testBit 1, n.testBit 2, BitVec.ofNat 5 (n / 8)⟩

/-- The number that the marks form. -/
def bits (f : Flags) : Nat :=
  f.pendingAdd.toNat + 2 * f.pendingDelete.toNat + 4 * f.disabled.toNat + 8 * f.spare.toNat

theorem bits_lt (f : Flags) : f.bits < 256 := by
  have h := f.spare.isLt
  have h₁ := f.pendingAdd.toNat_lt
  have h₂ := f.pendingDelete.toNat_lt
  have h₃ := f.disabled.toNat_lt
  unfold bits
  omega

/-- All marks of either. -/
def union (f g : Flags) : Flags :=
  ⟨f.pendingAdd || g.pendingAdd, f.pendingDelete || g.pendingDelete, f.disabled || g.disabled,
    f.spare ||| g.spare⟩

/-- The marks of the first that the second does not have. -/
def minus (f g : Flags) : Flags :=
  ⟨f.pendingAdd && !g.pendingAdd, f.pendingDelete && !g.pendingDelete, f.disabled && !g.disabled,
    f.spare &&& ~~~g.spare⟩

/-- Some mark is in both. -/
def meets (f g : Flags) : Bool :=
  (f.pendingAdd && g.pendingAdd) || (f.pendingDelete && g.pendingDelete) ||
    (f.disabled && g.disabled) || (f.spare &&& g.spare) != 0

/-- Wait to be removed instead of installed. -/
def toDelete (f : Flags) : Flags := { f with pendingAdd := false, pendingDelete := true }

/-- Wait to be installed instead of removed. -/
def toAdd (f : Flags) : Flags := { f with pendingAdd := true, pendingDelete := false }

/-- The names of the marks with commas between them, or a dash. -/
def text (f : Flags) : String :=
  let names := (if f.pendingAdd then ["pending-add"] else []) ++
    (if f.pendingDelete then ["pending-del"] else []) ++ (if f.disabled then ["disabled"] else [])
  if names.isEmpty then "-" else ",".intercalate names

end Flags

end RouteKeeper
