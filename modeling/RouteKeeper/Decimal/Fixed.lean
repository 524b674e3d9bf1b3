import RouteKeeper.Decimal.Binary64

/-!
# Doubles with one decimal place

The exact value of the double is rounded to tenths, a tie to the even tenth.
-/
namespace RouteKeeper.Decimal

/-- The nearest number of tenths to `mantissa * 2 ^ exponent`. -/
def tenths (mantissa : Nat) (exponent : Int) : Nat :=
  Binary64.divEven ((mantissa * 10) <<< exponent.toNat) (1 <<< (-exponent).toNat)

/-- A double with one decimal place; a negative sign stays even where the digits are zero. -/
def oneDecimal (x : Float) : String :=
  match Binary64.ofFloat x with
  | .nan => "NaN"
  | .infinite negative => if negative then "-inf" else "inf"
  | .finite negative m e =>
    let t := tenths m e
    (if negative then "-" else "") ++ toString (t / 10) ++ "." ++ toString (t % 10)

end RouteKeeper.Decimal
