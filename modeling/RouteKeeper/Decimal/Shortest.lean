import RouteKeeper.Decimal.Binary64

/-!
# The shortest decimal that reads back

Every double is the rounding of an interval of reals. The shortest decimal is the one with the
fewest digits in that interval and, of those, the nearest to the double; a tie goes up.
-/
namespace RouteKeeper.Decimal

/-- The decimal `digits * 10 ^ exponent`. -/
structure Scientific where
  digits : Nat
  exponent : Int
deriving DecidableEq

/-- The interval of reals that round to a double, over one denominator: the double is
`value / den`, the ends are `low / den` and `high / den`. -/
structure Interval where
  value : Nat
  low : Nat
  high : Nat
  den : Nat
  /-- The ends themselves round to the double. -/
  closed : Bool

/-- The interval of `mantissa * 2 ^ exponent`. The gap below a power of two is half as wide as the
gap above, except at the smallest exponent. -/
def Interval.of (mantissa : Nat) (exponent : Int) : Interval :=
  let up := 1 <<< (exponent - 2).toNat
  let below := if mantissa = 1 <<< 52 && exponent > -1074 then 1 else 2
  { value := 4 * mantissa * up
    low := (4 * mantissa - below) * up
    high := (4 * mantissa + 2) * up
    den := 1 <<< (2 - exponent).toNat
    closed := mantissa % 2 = 0 }

/-- The decimal lies in the interval. -/
def Interval.contains (i : Interval) (s : Scientific) : Bool :=
  let point := s.digits * Nat.pow 10 s.exponent.toNat * i.den
  let low := i.low * Nat.pow 10 (-s.exponent).toNat
  let high := i.high * Nat.pow 10 (-s.exponent).toNat
  if i.closed then low ≤ point && point ≤ high else low < point && point < high

/-- The number of digits before the point; for values below one, minus the number of zeros that
follow the point. -/
def Interval.magnitude (i : Interval) : Int :=
  if i.value ≥ i.den then ((Nat.toDigits 10 (i.value / i.den)).length : Int)
  else
    match (List.range 400).find? fun z => i.value * Nat.pow 10 (z + 1) ≥ i.den with
    | some z => -(z : Int)
    | none => 0

/-- The nearest point of the grid `10 ^ exponent` in the interval, if the grid has one there. -/
def Interval.onGrid (i : Interval) (exponent : Int) : Option Scientific :=
  let num := i.value * Nat.pow 10 (-exponent).toNat
  let den := i.den * Nat.pow 10 exponent.toNat
  let below : Scientific := ⟨num / den, exponent⟩
  let above : Scientific := ⟨num / den + 1, exponent⟩
  match i.contains below, i.contains above with
  | false, false => none
  | true, false => some below
  | false, true => some above
  | true, true => if 2 * (num % den) < den then some below else some above

/-- Drop the zeros at the end of the digits. -/
def Scientific.trim (s : Scientific) : Scientific :=
  if s.digits = 0 then ⟨0, 0⟩
  else if s.digits % 10 = 0 then Scientific.trim ⟨s.digits / 10, s.exponent + 1⟩
  else s
termination_by s.digits
decreasing_by exact Nat.div_lt_self (by omega) (by omega)

/-- The shortest decimal of the double `mantissa * 2 ^ exponent`; seventeen digits always do. -/
def shortest (mantissa : Nat) (exponent : Int) : Scientific :=
  if mantissa = 0 then ⟨0, 0⟩
  else
    let i := Interval.of mantissa exponent
    let top := i.magnitude
    match (List.range 17).findSome? fun (n : Nat) => i.onGrid (top - 1 - n) with
    | some s => s.trim
    | none => ⟨0, 0⟩

/-! ## Writing doubles -/

/-- How a family of texts writes doubles. -/
structure FloatFormat where
  /-- Whole numbers get a point and a zero. -/
  pointed : Bool
  nan : String
  /-- Decimal exponents, of the first digit, from which numbers are written with an `e`: at least
  the second component, or less than the first. -/
  scientific : Option (Int × Int)

/-- The digits of a natural number. -/
def digitText (n : Nat) : String := String.ofList (Nat.toDigits 10 n)

/-- Zeros. -/
def zeros (n : Nat) : String := String.ofList (List.replicate n '0')

/-- Positional writing: all digits, with zeros where the point needs them. -/
def Scientific.positional (s : Scientific) (pointed : Bool) : String :=
  if s.exponent ≥ 0 then
    digitText s.digits ++ zeros s.exponent.toNat ++ (if pointed then ".0" else "")
  else
    let ds := Nat.toDigits 10 s.digits
    let places := (-s.exponent).toNat
    let padded := List.replicate (places + 1 - ds.length) '0' ++ ds
    let whole := padded.length - places
    String.ofList (padded.take whole) ++ "." ++ String.ofList (padded.drop whole)

/-- Writing with an exponent: one digit before the point, no point if it is the only one. -/
def Scientific.exponential (s : Scientific) : String :=
  let ds := Nat.toDigits 10 s.digits
  let rest := ds.drop 1
  String.ofList (ds.take 1) ++ (if rest.isEmpty then "" else "." ++ String.ofList rest) ++ "e" ++
    toString (s.exponent + (ds.length - 1 : Nat))

/-- A double as the shortest decimal, in the given format. -/
def FloatFormat.write (f : FloatFormat) (x : Float) : String :=
  match Binary64.ofFloat x with
  | .nan => f.nan
  | .infinite negative => if negative then "-inf" else "inf"
  | .finite negative m e =>
    let s := shortest m e
    let first : Int := s.exponent + ((Nat.toDigits 10 s.digits).length - 1 : Nat)
    let exponential := m ≠ 0 && match f.scientific with
      | some (low, high) => decide (first < low) || decide (first ≥ high)
      | none => false
    (if negative then "-" else "") ++
      if exponential then s.exponential else s.positional f.pointed

/-- Plain text: whole numbers without a point, never an exponent. -/
def plain : FloatFormat := ⟨false, "NaN", none⟩

/-- Diagnostic text: a point always, an exponent below `10 ^ -4` and from `10 ^ 16` on. -/
def diagnostic : FloatFormat := ⟨true, "NaN", some (-4, 16)⟩

end RouteKeeper.Decimal
