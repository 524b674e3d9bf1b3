import RouteKeeper.Duration
import RouteKeeper.ReadFault
import RouteKeeper.Text.Words

/-!
# Durations as text

A duration is written as its parts from years down to nanoseconds, each with a unit, those that
are zero left out. A year is 31 557 600 seconds and a month 2 630 016. Reading takes items in any
order and adds them up; an item may have a decimal fraction if that makes it a whole number of
nanoseconds or, for hours and longer, of seconds. Every number on the way must fit into 64 bits.
-/
namespace RouteKeeper.Duration

/-! ## Writing -/

/-- A part with its unit, or nothing for zero. -/
def part (n : Nat) (unit : String) : List String := if n = 0 then [] else [toString n ++ unit]

/-- A part whose unit has a plural. -/
def partPlural (n : Nat) (unit : String) : List String :=
  part n (if n > 1 then unit ++ "s" else unit)

/-- The standard text of a duration. -/
def text (d : Duration) : String :=
  let s := d.wholeSeconds
  let n := d.subsecond
  let inYear := s % 31557600
  let inMonth := inYear % 2630016
  let inDay := inMonth % 86400
  let parts :=
    partPlural (s / 31557600) "year" ++ partPlural (inYear / 2630016) "month" ++
      partPlural (inMonth / 86400) "day" ++ part (inDay / 3600) "h" ++
      part (inDay % 3600 / 60) "m" ++ part (inDay % 60) "s" ++ part (n / 1000000) "ms" ++
      part (n / 1000 % 1000) "us" ++ part (n % 1000) "ns"
  if parts.isEmpty then "0s" else " ".intercalate parts

/-- Diagnostic text: one number in the largest of `s`, `ms`, `µs` and `ns` that is not more than it,
with as many decimal places as it needs. -/
def diagnostic (d : Duration) : String :=
  let write (whole rest places : Nat) (unit : String) : String :=
    let ds := Nat.toDigits 10 rest
    let padded := List.replicate (places - ds.length) '0' ++ ds
    let kept := (padded.reverse.dropWhile (· = '0')).reverse
    toString whole ++ (if kept.isEmpty then "" else "." ++ String.ofList kept) ++ unit
  let n := d.nanos
  if n ≥ 1000000000 then write (n / 1000000000) (n % 1000000000) 9 "s"
  else if n ≥ 1000000 then write (n / 1000000) (n % 1000000) 6 "ms"
  else if n ≥ 1000 then write (n / 1000) (n % 1000) 3 "µs"
  else write n 0 0 "ns"

/-! ## Reading -/

/-- What a unit measures in: nanoseconds, seconds with nanoseconds for fractions, or whole
seconds. -/
inductive Unit where
  | nanoseconds (scale : Nat)
  | seconds (scale : Nat)
  | wholeSeconds (scale : Nat)
deriving DecidableEq

/-- The unit of a name. -/
def unit? (name : String) : Option Unit :=
  if ["nanos", "nsec", "ns"].contains name then some (.nanoseconds 1)
  else if ["usec", "us", "µs"].contains name then some (.nanoseconds 1000)
  else if ["millis", "msec", "ms"].contains name then some (.nanoseconds 1000000)
  else if ["seconds", "second", "secs", "sec", "s"].contains name then some (.seconds 1)
  else if ["minutes", "minute", "min", "mins", "m"].contains name then some (.seconds 60)
  else if ["hours", "hour", "hr", "hrs", "h"].contains name then some (.wholeSeconds 3600)
  else if ["days", "day", "d"].contains name then some (.wholeSeconds 86400)
  else if ["weeks", "week", "wk", "wks", "w"].contains name then some (.wholeSeconds 604800)
  else if ["months", "month", "M"].contains name then some (.wholeSeconds 2630016)
  else if ["years", "year", "yr", "yrs", "y"].contains name then some (.wholeSeconds 31557600)
  else none

/-- A number that fits into 64 bits. -/
def word? (n : Nat) : Option Nat := if n < UInt64.size then some n else none

/-- An exact quotient. -/
def exactly? (n d : Nat) : Option Nat := if d ≠ 0 && n % d = 0 then some (n / d) else none

/-- The number that digits stand for, if it fits into 64 bits. -/
def word64OfDigits? (ds : List Char) : Option Nat :=
  word? (ds.foldl (fun n c => n * 10 + (c.toNat - 48)) 0)

/-- Seconds and nanoseconds. -/
abbrev Parts := Nat × Nat

/-- The value of a whole number with its unit. -/
def Unit.whole? (n : Nat) : Unit → Option Parts
  | .nanoseconds scale => (word? (n * scale)).map fun nanos => (0, nanos)
  | .seconds scale | .wholeSeconds scale => (word? (n * scale)).map fun seconds => (seconds, 0)

/-- The value of a fraction with its unit: a number, and the power of ten that it is to be divided
by. A nanosecond has no fractions. -/
def Unit.fraction? (n d : Nat) : Unit → Option Parts
  | .nanoseconds scale => do
    if scale = 1 then none
    else return (0, ← exactly? (← word? (n * scale)) d)
  | .seconds scale => do return (0, ← exactly? (← word? (n * (scale * 1000000000))) d)
  | .wholeSeconds scale => do return (← exactly? (← word? (n * scale)) d, 0)

/-- The sum of what was read so far and a further part. Nanoseconds beyond a second are carried to
the part's seconds before these are added; exactly one second of them is carried last, when only the
longest count of seconds has no room for it. -/
def addParts (sum part : Parts) : Except ReadFault Parts := do
  let nanos ← ReadFault.ofOption (word? (sum.2 + part.2))
  if nanos > 1000000000 then
    let carried ← ReadFault.ofOption (word? (part.1 + nanos / 1000000000))
    return (← ReadFault.ofOption (word? (sum.1 + carried)), nanos % 1000000000)
  else
    let seconds ← ReadFault.ofOption (word? (sum.1 + part.1))
    if nanos < 1000000000 then return (seconds, nanos)
    else if seconds + 1 < UInt64.size then return (seconds + 1, 0)
    else throw .overflow

/-- A character of a unit's name. -/
def isUnitLetter (c : Char) : Bool :=
  ('a'.toNat ≤ c.toNat && c.toNat ≤ 'z'.toNat) || ('A'.toNat ≤ c.toNat && c.toNat ≤ 'Z'.toNat) ||
    c = 'µ'

def isDigit (c : Char) : Bool := '0'.toNat ≤ c.toNat && c.toNat ≤ '9'.toNat

/-- Digits with white space among and after them. -/
def readDigits (cs : List Char) : List Char × List Char :=
  let run := cs.takeWhile fun c => isDigit c || Text.isBlank c
  (run.filter isDigit, cs.drop run.length)

/-- A fraction: the number after the point, and the power of ten that it is to be divided by. -/
def readFraction? : List Char → Option (Option (Nat × Nat) × List Char)
  | '.' :: cs => do
    let (ds, rest) := readDigits cs
    if ds.isEmpty then none
    else return (some (← word64OfDigits? ds, ← word? (Nat.pow 10 ds.length)), rest)
  | cs => some (none, cs)

/-- A number, perhaps with a fraction, and its unit. -/
structure Item where
  whole : Nat
  fraction : Option (Nat × Nat)
  unit : Unit

/-- Read an item. It starts with a digit, and white space, a digit or nothing follows it. -/
def readItem? (cs : List Char) : Option (Item × List Char) := do
  let (whole, rest) := readDigits cs
  let whole ← word64OfDigits? whole
  let (fraction, rest) ← readFraction? rest
  let letters := rest.takeWhile isUnitLetter
  let unit ← unit? (String.ofList letters)
  let rest := rest.drop letters.length
  if rest.head?.all fun c => isDigit c || Text.isBlank c then return (⟨whole, fraction, unit⟩, rest)
  else none

/-- Add an item, the whole number before the fraction. -/
def Item.addTo (item : Item) (sum : Parts) : Except ReadFault Parts := do
  let sum ← addParts sum (← ReadFault.ofOption (item.unit.whole? item.whole))
  match item.fraction with
  | none => return sum
  | some (n, d) => addParts sum (← ReadFault.ofOption (item.unit.fraction? n d))

/-- Items one after the other, white space before each at will. After the first `most` there must be
nothing left. -/
def readItems : Nat → Parts → List Char → Except ReadFault Parts
  | 0, sum, cs => if cs.all Text.isBlank then .ok sum else .error .unreadable
  | most + 1, sum, cs =>
    match cs.dropWhile Text.isBlank with
    | [] => .ok sum
    | c :: rest =>
      if isDigit c then do
        let (item, rest) ← ReadFault.ofOption (readItem? (c :: rest))
        readItems most (← item.addTo sum) rest
      else .error .unreadable

/-- Read a duration. A zero needs no unit; any other text needs an item. -/
def ofText (s : String) : Except ReadFault Duration :=
  let cs := s.toList
  if cs = ['0'] then .ok .zero
  else if cs.all Text.isBlank then .error .unreadable
  else do
    let (seconds, nanos) ← readItems cs.length (0, 0) cs
    ReadFault.ofOption (ofNanos? (seconds * 1000000000 + nanos))

end RouteKeeper.Duration
