import RouteKeeper.ReadFault

/-!
# Records as data

A record is given either by names, as in a table or object, or by places, as in an array; then
each field has its place. A field that is not given has a default or is missed. By name, a field
that may be empty is empty if it is not given; by place it is missed.

## Main definitions

* `Fields.required`, `Fields.withDefault`, `Fields.mayBeEmpty` — fields taken one by one.
* `Fields.assign` — fields in the order in which they are given.
-/
namespace RouteKeeper

/-- The fields of a record, given by names or by places. -/
inductive Fields (α : Type) where
  | named (entries : List (String × α))
  /-- An open list may have more items than there are fields. -/
  | placed (items : List α) (isOpen : Bool)

namespace Fields

variable {α β : Type}

/-- The value given for the field of a name and place. -/
def get? : Fields α → String → Nat → Option α
  | named entries, name, _ => (entries.find? fun e => e.1 = name).map (·.2)
  | placed items _, _, place => items[place]?

/-- No field of these names is given twice, and there are not more places than fields. -/
def isOnce (known : List String) : Fields α → Bool
  | named entries => known.all fun name => entries.countP (·.1 = name) ≤ 1
  | placed items isOpen => isOpen || items.length ≤ known.length

/-- A field that must be given. -/
def required (f : Fields α) (name : String) (place : Nat) (read : α → Option β) : Option β :=
  (f.get? name place).bind read

/-- A field with a default. -/
def withDefault (f : Fields α) (name : String) (place : Nat) (read : α → Option β) (default : β) :
    Option β :=
  match f.get? name place with
  | none => some default
  | some a => read a

/-- A field that may be empty. -/
def mayBeEmpty (f : Fields α) (name : String) (place : Nat) (read : α → Option (Option β)) :
    Option (Option β) :=
  match f, f.get? name place with
  | named _, none => some none
  | placed .., none => none
  | _, some a => read a

/-! ## Fields in order -/

/-- Assign entries in order. Those with unknown names are passed over; a name that was seen must not
come again. -/
def assignNamed (known : List String) (assign : String → α → β → Except ReadFault β) :
    List String → List (String × α) → β → Except ReadFault β
  | _, [], b => .ok b
  | seen, (name, a) :: rest, b => do
    if seen.contains name then throw .unreadable
    else if known.contains name then
      assignNamed known assign (name :: seen) rest (← assign name a b)
    else assignNamed known assign seen rest b

/-- Assign items in order to the fields of the given names. -/
def assignPlaced (isOpen : Bool) (assign : String → α → β → Except ReadFault β) :
    List String → List α → β → Except ReadFault β
  | name :: names, a :: rest, b => do assignPlaced isOpen assign names rest (← assign name a b)
  | [], _ :: _, b => if isOpen then .ok b else .error .unreadable
  | _, [], b => .ok b

/-- Assign the fields of the given names in the order in which they are given, so that of several
faults the first one counts. -/
def assign (f : Fields α) (known : List String) (assign : String → α → β → Except ReadFault β)
    (b : β) : Except ReadFault β :=
  match f with
  | named entries => assignNamed known assign [] entries b
  | placed items isOpen => assignPlaced isOpen assign known items b

end Fields

end RouteKeeper
