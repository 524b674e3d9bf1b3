/-!
# Doubles as exact numbers

A double is taken apart into sign, mantissa and power of two, and a ratio of natural numbers is
rounded to the nearest double, a tie going to the even mantissa. Everything is exact arithmetic on
natural numbers.
-/
namespace RouteKeeper

/-- The value of a double: `finite s m e` is `m * 2 ^ e`, negated if `s`. -/
inductive Binary64 where
  | nan
  | infinite (negative : Bool)
  | finite (negative : Bool) (mantissa : Nat) (exponent : Int)
deriving DecidableEq

namespace Binary64

/-- The value that a pattern of 64 bits stands for. -/
def ofBits (bits : Nat) : Binary64 :=
  let negative := (bits >>> 63) % 2 == 1
  let field : Nat := (bits >>> 52) % 2048
  let fraction : Nat := bits % (1 <<< 52)
  if field = 2047 then
    if fraction = 0 then infinite negative else nan
  else if field = 0 then finite negative fraction (-1074)
  else finite negative ((1 <<< 52) + fraction) ((field : Int) - 1075)

/-- The value of a float. -/
def ofFloat (x : Float) : Binary64 := ofBits x.toBits.toNat

/-- Integer quotient rounded to the nearest, a tie to the even one. -/
def divEven (n d : Nat) : Nat :=
  let q := n / d
  let r := n % d
  if 2 * r > d || (2 * r == d && q % 2 == 1) then q + 1 else q

/-- The bits of infinity. -/
def infinityBits : Nat := 2047 <<< 52

/-- Bits of the double nearest to `num / den`. A mantissa that rounds up to `2 ^ 53` carries into
the exponent field by itself, since the field stands directly above the fraction. -/
def roundBits (num den : Nat) : Nat :=
  if num = 0 || den = 0 then 0
  else
    let guess : Int := (num.log2 : Int) - den.log2 - 53
    let scaledBy (e : Int) : Nat × Nat :=
      if e ≥ 0 then (num, den <<< e.toNat) else (num <<< (-e).toNat, den)
    let low := scaledBy guess
    let e := Max.max (if low.1 / low.2 < 1 <<< 53 then guess else guess + 1) (-1074)
    let scaled := scaledBy e
    Min.min (((e + 1074).toNat <<< 52) + divEven scaled.1 scaled.2) infinityBits

/-- The double nearest to `digits * 10 ^ exponent`, negated on request. Beyond the range of doubles
the answer is known from the magnitude alone. -/
def ofDecimal (negative : Bool) (digits : Nat) (exponent : Int) : Float :=
  let size : Int := (Nat.toDigits 10 digits).length + exponent
  let bits :=
    if digits = 0 || size < -400 then 0
    else if size > 400 then infinityBits
    else if exponent ≥ 0 then roundBits (digits * Nat.pow 10 exponent.toNat) 1
    else roundBits digits (Nat.pow 10 (-exponent).toNat)
  Float.ofBits (UInt64.ofNat (if negative then (1 <<< 63) + bits else bits))

end Binary64

end RouteKeeper
