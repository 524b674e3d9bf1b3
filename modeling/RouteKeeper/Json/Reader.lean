import RouteKeeper.Address.Text
import RouteKeeper.Decimal.Binary64
import RouteKeeper.Json
import RouteKeeper.Text.Reader

/-!
# Reading JSON

Numbers without a point and an exponent are integers if they fit into 64 bits. All others are
doubles: as many leading digits as fit into 64 bits are scaled by a power of ten in double
arithmetic, which is not always the nearest double.

## Main definitions

* `Json.number` — numbers.
* `Json.parse?` — a text from end to end.
* `Json.readText` — a text as a value of a type.
-/
namespace RouteKeeper.Json

open Text Text.Reader

/-- White space between tokens. -/
def space : Reader Unit := do
  discard (takeWhile fun c => c = ' ' || c = '\n' || c = '\t' || c = '\r')

def isDigit (c : Char) : Bool := 48 ≤ c.toNat && c.toNat ≤ 57

/-! ## Numbers -/

/-- A power of ten as a double. -/
def powerOfTen (n : Nat) : Float := Binary64.ofDecimal false 1 n

/-- Scale a double by a power of ten; `none` if it becomes infinite. Powers beyond the largest
double are taken in steps. -/
def scale : Nat → Float → Int → Option Float
  | 0, x, _ => some x
  | fuel + 1, x, e =>
    if e.natAbs ≤ 308 then
      if e ≥ 0 then
        let y := x * powerOfTen e.natAbs
        if y.isInf then none else some y
      else some (x / powerOfTen e.natAbs)
    else if x == 0.0 then some x
    else if e ≥ 0 then none
    else scale fuel (x / powerOfTen 308) (e + 308)

/-- The double of digits that fit into 64 bits times a power of ten. Three steps bring any such
number to zero. -/
def scaled (negative : Bool) (digits : Nat) (e : Int) : Json :=
  match scale 4 (UInt64.ofNat digits).toFloat e with
  | some x => float (if negative then -x else x)
  | none => unreadable

/-- The leading digits that fit into 64 bits as a number, and how many digits are left over. -/
def significand : List Char → Nat → Nat × Nat
  | [], n => (n, 0)
  | d :: rest, n =>
    let next := n * 10 + (d.toNat - 48)
    if next ≤ most64 then significand rest next else (n, rest.length + 1)

/-- The value of a number's parts: its whole digits, the digits after its point, and its exponent.
-/
def ofParts (negative : Bool) (whole : List Char) (places : Option (List Char))
    (exponent : Option Int) : Json :=
  let (n, dropped) := significand whole 0
  match places, exponent, dropped with
  | none, none, 0 =>
    if negative then
      if n = 0 || n > 0x8000000000000000 then float (-(UInt64.ofNat n).toFloat) else integer (-n)
    else integer n
  | places, exponent, _ =>
    let places := places.getD []
    let (m, left) := significand places n
    let e : Int := dropped - ((places.length - left : Nat) : Int)
    match exponent with
    | none => scaled negative m e
    | some x =>
      if x.natAbs ≥ 0x80000000 then
        if m ≠ 0 && x > 0 then unreadable else float (if negative then -0.0 else 0.0)
      else scaled negative m (e + x)

/-- The digits of a whole number, without a leading zero. -/
def wholeDigits : Reader (List Char) := do
  let ds ← takeWhile1 isDigit
  if ds.head? = some '0' && ds.length > 1 then failure else return ds

/-- The exponent of a number. -/
def exponent : Reader Int := do
  discard (satisfy fun c => c = 'e' || c = 'E')
  let mark ← optional (satisfy fun c => c = '+' || c = '-')
  let ds ← takeWhile1 isDigit
  let n : Int := (ds.foldl (fun n c => n * 10 + (c.toNat - 48)) 0 : Nat)
  return if mark = some '-' then -n else n

/-- A part that must be complete once it has begun. -/
def startedBy {α : Type} (p : Char → Bool) (r : Reader α) : Reader (Option α) := do
  match ← peek with
  | some c => if p c then return some (← r) else return none
  | none => return none

/-- A number. -/
def number : Reader Json := do
  let negative := (← optional (char '-')).isSome
  let whole ← wholeDigits
  let places ← startedBy (· = '.') (do char '.'; takeWhile1 isDigit)
  let e ← startedBy (fun c => c = 'e' || c = 'E') exponent
  return ofParts negative whole places e

/-! ## Texts -/

/-- Sixteen bits from four hexadecimal digits. -/
def unit16 : Reader Nat := do
  let ds ← exactlyMany (fun c => (Address.digit? 16 c).isSome) 4
  return Address.ofDigits 16 ds

/-- A piece of a text. -/
inductive Piece where
  | char (c : Char)
  /-- Half of a surrogate pair. -/
  | half (n : Nat)

/-- A character, an escape, or half of one. -/
def piece : Reader Piece := do
  match ← satisfy fun c => c ≠ '"' && c.toNat ≥ 0x20 with
  | '\\' =>
    match ← satisfy fun _ => true with
    | '"' => return .char '"'
    | '\\' => return .char '\\'
    | '/' => return .char '/'
    | 'b' => return .char '\x08'
    | 'f' => return .char '\x0C'
    | 'n' => return .char '\n'
    | 'r' => return .char '\r'
    | 't' => return .char '\t'
    | 'u' =>
      let n ← unit16
      return if 0xD800 ≤ n && n ≤ 0xDFFF then .half n else .char (Char.ofNat n)
    | _ => failure
  | c => return .char c

/-- The text of pieces, halves in pairs; `none` if one is left alone. -/
def join : List Piece → Option (List Char)
  | [] => some []
  | .char c :: rest => (join rest).map (c :: ·)
  | .half high :: .half low :: rest =>
    if high < 0xDC00 && 0xDC00 ≤ low then
      (join rest).map (Char.ofNat (0x10000 + (high - 0xD800) * 1024 + (low - 0xDC00)) :: ·)
    else none
  | .half _ :: _ => none

/-- A text, `none` if it cannot be read. -/
def string : Reader (Option String) := do
  char '"'
  let pieces ← many piece
  char '"'
  return (join pieces).map String.ofList

/-! ## Values -/

/-- Items between brackets. -/
def listed {α : Type} (opening closing : Char) (item : Reader α) : Reader (List α) := do
  char opening
  space
  match ← optional (char closing) with
  | some () => return []
  | none =>
    let items ← separated item (char ',')
    char closing
    return items

/-- A key and its value, given how values are read. -/
def entry (value : Reader Json) : Reader (Option (String × Json)) := do
  space
  let name ← string
  space
  char ':'
  let v ← value
  return name.map fun name => (name, v)

/-- An array, given how its items are read. -/
def arrayOf (value : Reader Json) : Reader Json := do return array (← listed '[' ']' value)

/-- An object, given how its values are read. -/
def objectOf (value : Reader Json) : Reader Json := do
  let entries ← listed '{' '}' (entry value)
  return ((entries.mapM id).map object).getD unreadable

/-- A value that starts with the next character, given how its parts are read. -/
def valueHere (part : Reader Json) : Reader Json := do
  match ← peek with
  | some '"' => return ((← string).map Json.text).getD unreadable
  | some '[' => arrayOf part
  | some '{' => objectOf part
  | some 'n' => do exactly "null"; return null
  | some 't' => do exactly "true"; return boolean true
  | some 'f' => do exactly "false"; return boolean false
  | _ => number

/-- A value nested less than so deep, with the white space around it. -/
def value : Nat → Reader Json
  | 0 => failure
  | depth + 1 => do
    space
    let v ← valueHere (value depth)
    space
    return v

/-- Read a text as one value. Values cannot be nested deeper than there are characters. -/
def parse? (s : String) : Option Json := Reader.all? (value (s.length + 1)) s.toList

/-! ## Texts that break off -/

/-- The outermost array or object of a text up to where the text breaks off. -/
def front (depth : Nat) : Reader Json := do
  space
  match ← peek with
  | some '[' =>
    char '['
    return array ((← optional (separated (value depth) (char ','))).getD [])
  | some '{' =>
    char '{'
    let entries := (← optional (separated (entry (value depth)) (char ','))).getD []
    return object ((entries.takeWhile Option.isSome).filterMap id)
  | _ => return unreadable

/-- Read a text as a value of a type. Values are read one by one as the text goes on, so that an
overflow in what comes first counts more than a defect of what follows. -/
def readText {β : Type} (read : Json → Except ReadFault β) (s : String) : Except ReadFault β :=
  match ReadFault.ofOption (parse? s) >>= read with
  | .ok a => .ok a
  | .error .overflow => .error .overflow
  | .error .unreadable =>
    match (front (s.length + 1)).run' s.toList |>.map read with
    | some (.error .overflow) => .error .overflow
    | _ => .error .unreadable

end RouteKeeper.Json
