import RouteKeeper.DataFormat

/-!
# JSON values

Values as they are read. A number that is out of the range of doubles and a text with half of a
surrogate pair can be passed over but not read; such a value is unreadable, and so is an object with
such a text as a key.

## Main definitions

* `Json` — values.
* `Json.dataFormat` — how records are read from them.
-/
namespace RouteKeeper

/-- A JSON value. -/
inductive Json where
  | null
  | boolean (b : Bool)
  /-- A whole number of 64 bits, with or without sign. -/
  | integer (i : Int)
  | float (x : Float)
  | text (s : String)
  | array (items : List Json)
  | object (entries : List (String × Json))
  | unreadable

namespace Json

mutual

/-- Everything in a value can be read, and arrays and objects are nested less than so deep. -/
def isReadable (depth : Nat) : Json → Bool
  | unreadable => false
  | array items => 0 < depth && areReadable (depth - 1) items
  | object entries => 0 < depth && haveReadable (depth - 1) entries
  | _ => true

/-- All items can be read. -/
def areReadable (depth : Nat) : List Json → Bool
  | [] => true
  | item :: rest => item.isReadable depth && areReadable depth rest

/-- All entries can be read. -/
def haveReadable (depth : Nat) : List (String × Json) → Bool
  | [] => true
  | (_, value) :: rest => value.isReadable depth && haveReadable depth rest

end

/-- A record may be given as an object, where a field must not be given twice, or as an array. A
choice may be given as an object with one key, for nothing. -/
def dataFormat : DataFormat Json where
  record
    | object entries => some (.named entries)
    | array items => some (.placed items false)
    | _ => none
  text
    | text s => some s
    | _ => none
  integer
    | integer i => some i
    | _ => none
  number
    | float x => some x
    | integer i => some (Float.ofInt i)
    | _ => none
  flag
    | boolean b => some b
    | _ => none
  choice
    | text s => some s
    | object [(name, null)] => some name
    | _ => none
  isNothing
    | null => true
    | _ => false

end Json

end RouteKeeper
