/-!
# Faults of texts and data

What keeps a text or a piece of data from being read as a value.
-/
namespace RouteKeeper

/-- Why something is not read. -/
inductive ReadFault where
  /-- It is no such value. -/
  | unreadable
  /-- It is the sum of durations that the last carry, of exactly one second, takes out of range. -/
  | overflow
deriving DecidableEq, Repr

namespace ReadFault

/-- A value that is there. -/
def ofOption {α : Type} : Option α → Except ReadFault α
  | some a => .ok a
  | none => .error unreadable

end ReadFault

end RouteKeeper
