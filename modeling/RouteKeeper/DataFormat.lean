import RouteKeeper.Duration.Text
import RouteKeeper.Fields

/-!
# Data formats

A data format says how its values are read as texts, numbers and records. The domain's types are
read once for all formats.
-/
namespace RouteKeeper

/-- How values of a format are read. -/
structure DataFormat (α : Type) where
  /-- The fields of a record. -/
  record : α → Option (Fields α)
  text : α → Option String
  integer : α → Option Int
  /-- A double; whole numbers are doubles, too. -/
  number : α → Option Float
  flag : α → Option Bool
  /-- The name of a choice that has no parts. -/
  choice : α → Option String
  /-- The value says that there is none. -/
  isNothing : α → Bool

namespace DataFormat

variable {α β : Type}

/-- A natural number up to a limit. -/
def natural (F : DataFormat α) (most : Nat) (a : α) : Option Nat :=
  match F.integer a with
  | some (.ofNat n) => if n ≤ most then some n else none
  | _ => none

/-- A duration, given as text. -/
def duration (F : DataFormat α) (a : α) : Except ReadFault Duration := do
  Duration.ofText (← ReadFault.ofOption (F.text a))

/-- A value that may be nothing. -/
def orNothing (F : DataFormat α) (read : α → Option β) (a : α) : Option (Option β) :=
  if F.isNothing a then some none else (read a).map some

/-- A record, from its fields in the order in which they are given. -/
def assign (F : DataFormat α) (known : List String) (default : β)
    (assign : String → α → β → Except ReadFault β) (a : α) : Except ReadFault β := do
  (← ReadFault.ofOption (F.record a)).assign known assign default

/-- The fields of a record with these names, each given once at most. -/
def fields? (F : DataFormat α) (known : List String) (a : α) : Option (Fields α) :=
  (F.record a).filter (·.isOnce known)

/-- A choice among named ones. -/
def oneOf (F : DataFormat α) (names : List (String × β)) (a : α) : Option β := do
  let name ← F.choice a
  return (← names.find? fun n => n.1 = name).2

end DataFormat

/-- The largest number of eight bits. -/
def most8 : Nat := 255

/-- The largest number of 32 bits. -/
def most32 : Nat := 4294967295

/-- The largest number of 64 bits. -/
def most64 : Nat := 18446744073709551615

end RouteKeeper
