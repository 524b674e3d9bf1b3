import Mathlib
import RouteKeeper.Double

/-!
# Quotients of doubles

A count below `2 ^ 53` is a double, a larger one is rounded to one. The quotient of two doubles is
cut off after 53 or 54 bits, two more bits tell what is left, and by these the mantissa is rounded.
Here the steps are followed: the result is a double nearest to the exact quotient.

## Main definitions

* `Double.Normal` — a float is `m * 2 ^ e` with a mantissa of 53 bits.
* `Double.Cut` — a quotient that is cut off, with the bits for what is left.
* `Double.Settles` — a float is `r * 2 ^ e`, with a mantissa of 53 bits or the next power of two.
* `Double.Rounds` — a float is a double nearest to a ratio.

## Main statements

* `Double.Cut.nearest` — rounding by the two bits is rounding to the nearest.
* `Double.exists_normal_ofCount` — counts are doubles with a mantissa of 53 bits.
* `Double.Normal.div` — what dividing such doubles gives.
* `Double.rounds_div` — what dividing small counts gives.
-/
namespace RouteKeeper.Double

open Float.Model (Format totalExponent UnpackedFloat)
open Float.Model.UnpackedFloat

/-! ## Doubles with a mantissa of 53 bits -/

/-- Keeping the bits keeps the float. -/
@[simp]
theorem toFloat_ofFloat (x : Float) : (ofFloat x).toFloat = x := Float.ofBits_toBits x

/-- The leading bit, which is not stored, in front of the others. -/
theorem toNat_one_append (m : BitVec 52) : (1#1 ++ m).toNat = 2 ^ 52 + m.toNat := by
  rw [BitVec.toNat_append, ← Nat.shiftLeft_add_eq_or_of_lt m.isLt]
  rfl

/-- A number with a mantissa of 53 bits is read back as it was stored. -/
theorem unpack_pack_finite {m : Nat} {e : Int} (hlow : 2 ^ 52 ≤ m) (hhigh : m < 2 ^ 53)
    (hleast : -1000 ≤ e) (hmost : e ≤ 900) (h : 0 < m) :
    UnpackedFloat.unpack Format.binary64
        (UnpackedFloat.pack Format.binary64 (.finite .positive m e h)) = .finite .positive m e h := by
  have hlog : m.log2 = 52 := (Nat.log2_eq_iff (by omega)).2 ⟨hlow, hhigh⟩
  obtain ⟨biased, hbiased⟩ : ∃ biased : Nat, (biased : Int) = e + 1075 :=
    ⟨(e + 1075).toNat, by omega⟩
  have hstored : (e + Format.binary64.exponentBias +
      Format.binary64.mantissaBitsWithoutImplicit).toNat = biased := by
    simp only [Format.exponentBias]
    omega
  have hpack : UnpackedFloat.pack Format.binary64 (.finite .positive m e h) =
      packComponents Format.binary64 .positive (BitVec.ofNat 11 biased) (BitVec.ofNat 52 m) := by
    simp only [UnpackedFloat.pack, hstored, hlog]
    rw [if_neg (by omega), if_pos (by rfl)]
  have hexponent : (BitVec.ofNat 11 biased).toNat = biased := by
    rw [BitVec.toNat_ofNat, Nat.mod_eq_of_lt (by omega)]
  -- The largest exponent is that of infinity, the smallest that of numbers with shorter mantissas.
  have hfinite : BitVec.ofNat 11 biased ≠ -1#11 := by
    intro heq
    rw [heq] at hexponent
    have htop : (-1#11).toNat = 2047 := by decide
    omega
  have hnormal : BitVec.ofNat 11 biased ≠ 0#11 := by
    intro heq
    rw [heq] at hexponent
    have hbottom : (0#11).toNat = 0 := by decide
    omega
  have hmantissa : (1#1 ++ BitVec.ofNat 52 m).toNat = m := by
    rw [toNat_one_append, BitVec.toNat_ofNat]
    omega
  rw [hpack]
  simp only [UnpackedFloat.unpack, unpackExponent_packComponents, unpackMantissa_packComponents,
    unpackSign_packComponents, if_neg hfinite, if_neg hnormal, hmantissa, hexponent]
  congr 1
  simp only [Format.exponentBias]
  omega

theorem lt_iff_compare {x y : Float} :
    x < y ↔ x.toModel.unpack.compare y.toModel.unpack = some .lt :=
  (iff_of_eq decide_eq_true_eq).trans beq_iff_eq

/-- The float is `m * 2 ^ e`, where the mantissa `m` has 53 bits. -/
structure Normal (x : Float) (m : Nat) (e : Int) : Prop where
  low : 2 ^ 52 ≤ m
  high : m < 2 ^ 53
  unpack : ∃ h, x.toModel.unpack = .finite .positive m e h

namespace Normal

variable {x y : Float} {m n : Nat} {e f : Int}

theorem of_pack {u : UnpackedFloat} (hlow : 2 ^ 52 ≤ m) (hhigh : m < 2 ^ 53) (hleast : -1000 ≤ e)
    (hmost : e ≤ 900) (hu : ∃ h, u = .finite .positive m e h) (hx : x.toModel = .pack u) :
    Normal x m e := by
  obtain ⟨h, rfl⟩ := hu
  exact ⟨hlow, hhigh, h, hx ▸ unpack_pack_finite hlow hhigh hleast hmost h⟩

/-- The larger power makes the larger number. -/
theorem lt_iff (hx : Normal x m e) (hy : Normal y n f) : x < y ↔ e < f ∨ e = f ∧ m < n := by
  obtain ⟨-, -, _, hx⟩ := hx
  obtain ⟨-, -, _, hy⟩ := hy
  rw [lt_iff_compare, hx, hy, UnpackedFloat.compare, Option.some.injEq, Ordering.then_eq_lt,
    Int.compare_eq_lt, Int.compare_eq_eq, Nat.compare_eq_lt]

end Normal

/-! ## Cutting off a quotient -/

/-- The number is an integer nearest to the quotient. -/
def Nearest (num den r : Nat) : Prop :=
  2 * (r * den) ≤ 2 * num + den ∧ 2 * num ≤ 2 * (r * den) + den

namespace Nearest

variable {num den c r : Nat}

theorem of_mul_right (hc : 0 < c) (h : Nearest (num * c) (den * c) r) : Nearest num den r := by
  obtain ⟨hle, hge⟩ := h
  refine ⟨Nat.le_of_mul_le_mul_right ?_ hc, Nat.le_of_mul_le_mul_right ?_ hc⟩
  · calc 2 * (r * den) * c = 2 * (r * (den * c)) := by ring
      _ ≤ 2 * (num * c) + den * c := hle
      _ = (2 * num + den) * c := by ring
  · calc 2 * num * c = 2 * (num * c) := by ring
      _ ≤ 2 * (r * (den * c)) + den * c := hge
      _ = (2 * (r * den) + den) * c := by ring

/-- Rounding leaves the range of 53 bits at most by one. -/
theorem bounds (h : Nearest num den r) (hlow : 2 ^ 52 * den ≤ num) (hhigh : num < 2 ^ 53 * den) :
    2 ^ 52 ≤ r ∧ r ≤ 2 ^ 53 := by
  obtain ⟨hle, hge⟩ := h
  constructor
  · by_contra! hlt
    have hmul := Nat.mul_le_mul_right den hlt
    rw [Nat.succ_mul] at hmul
    omega
  · by_contra! hlt
    have hmul := Nat.mul_le_mul_right den hlt
    rw [Nat.succ_mul] at hmul
    omega

end Nearest

/-- The mantissa is a quotient rounded down. Of the two bits, the first tells that what is left is
no less than a half, the second that it is something else than nothing and a half. -/
structure Cut (num den : Nat) (em : ExtendedMantissa) (rest : Nat) : Prop where
  split : num = em.mantissa * den + rest
  rest_lt : rest < den
  roundBit : em.roundBit = true ↔ den ≤ 2 * rest
  stickyBit : em.stickyBit = true ↔ rest ≠ 0 ∧ 2 * rest ≠ den

@[simp] theorem mantissa_ofMantissaAndAccuracy (m : Nat) (accuracy : Accuracy) :
    (ExtendedMantissa.ofMantissaAndAccuracy m accuracy).mantissa = m := by
  rcases accuracy with _ | side
  · rfl
  · cases side <;> rfl

theorem cut_div {num den : Nat} (h : 0 < den) :
    Cut num den (ExtendedMantissa.ofMantissaAndAccuracy (num / den)
      (accuracyOfFraction (num % den) den)) (num % den) := by
  have hrest := Nat.mod_lt num h
  refine ⟨?_, hrest, ?_, ?_⟩
  · rw [mantissa_ofMantissaAndAccuracy]
    exact (Nat.div_add_mod' num den).symm
  all_goals
    unfold accuracyOfFraction
    split
    case isTrue hzero =>
      simp only [ExtendedMantissa.ofMantissaAndAccuracy, Bool.false_eq_true, false_iff]
      omega
    case isFalse hzero =>
      cases hside : compare (2 * (num % den)) den with
      | lt =>
        rw [Nat.compare_eq_lt] at hside
        simp only [ExtendedMantissa.ofMantissaAndAccuracy, Bool.false_eq_true, true_iff, false_iff]
        omega
      | eq =>
        rw [Nat.compare_eq_eq] at hside
        simp only [ExtendedMantissa.ofMantissaAndAccuracy, Bool.false_eq_true, true_iff, false_iff]
        omega
      | gt =>
        rw [Nat.compare_eq_gt] at hside
        simp only [ExtendedMantissa.ofMantissaAndAccuracy, true_iff]
        omega

namespace Cut

variable {num den rest : Nat} {em : ExtendedMantissa}

/-- The last bit of the mantissa can be cut off too. -/
theorem shiftRightOne (h : Cut num den em rest) :
    Cut num (2 * den) em.shiftRightOne (em.mantissa % 2 * den + rest) := by
  obtain ⟨hsplit, hrest, hround, hsticky⟩ := h
  have hhalves : em.mantissa * den = em.mantissa / 2 * (2 * den) + em.mantissa % 2 * den := by
    conv_lhs => rw [← Nat.div_add_mod' em.mantissa 2]
    ring
  have hquotient : num = em.mantissa / 2 * (2 * den) + (em.mantissa % 2 * den + rest) := by omega
  rcases Nat.mod_two_eq_zero_or_one em.mantissa with heven | hodd
  · rw [heven] at hquotient ⊢
    refine ⟨hquotient, by omega, ?_, ?_⟩
    · simp only [ExtendedMantissa.shiftRightOne, heven, bne_self_eq_false, Bool.false_eq_true,
        false_iff]
      omega
    · simp only [ExtendedMantissa.shiftRightOne, Bool.or_eq_true, hround, hsticky]
      omega
  · rw [hodd] at hquotient ⊢
    refine ⟨hquotient, by omega, ?_, ?_⟩
    · simp only [ExtendedMantissa.shiftRightOne, hodd, bne_iff_ne]
      omega
    · simp only [ExtendedMantissa.shiftRightOne, Bool.or_eq_true, hround, hsticky]
      omega

/-- Rounding by the two bits gives an integer nearest to the quotient. -/
theorem nearest (h : Cut num den em rest) : Nearest num den em.roundedMantissa := by
  obtain ⟨hsplit, hrest, hround, hsticky⟩ := h
  obtain ⟨m, roundBit, stickyBit⟩ := em
  have hnext : (m + 1) * den = m * den + den := Nat.succ_mul m den
  simp only [Nearest, ExtendedMantissa.roundedMantissa] at *
  cases roundBit <;> cases stickyBit <;>
    simp only [ExtendedMantissa.accuracy, Accuracy.roundToNearestEven, true_iff,
      Bool.false_eq_true, false_iff] at *
  · omega
  · omega
  · -- A half is left: both integers are nearest.
    rcases Nat.mod_two_eq_zero_or_one m with heven | hodd
    · rw [heven, Nat.add_zero]
      omega
    · rw [hodd]
      omega
  · omega

end Cut

/-! ## Rounding -/

/-- Rounding by the two bits adds one at most. -/
theorem roundedMantissa_bounds (em : ExtendedMantissa) :
    em.mantissa ≤ em.roundedMantissa ∧ em.roundedMantissa ≤ em.mantissa + 1 := by
  obtain ⟨m, roundBit, stickyBit⟩ := em
  have hodd : m % 2 < 2 := Nat.mod_lt m Nat.two_pos
  cases roundBit <;> cases stickyBit <;>
    simp only [ExtendedMantissa.roundedMantissa, ExtendedMantissa.accuracy,
      Accuracy.roundToNearestEven] <;>
    omega

@[simp] theorem mantissa_shiftRight (em : ExtendedMantissa) (i : Nat) :
    (em >>> i).mantissa = em.mantissa / 2 ^ i := by
  induction i with
  | zero => exact (Nat.div_one _).symm
  | succ i ih =>
    have hstep : (em >>> (i + 1)).mantissa = (em >>> i).mantissa / 2 := rfl
    rw [hstep, ih, Nat.div_div_eq_div_mul, Nat.pow_succ]

section Shift

/-- The exponent that leaves a mantissa of 53 bits. -/
theorem targetExponent_eq {total target : Int} (htotal : total = target + 53)
    (htarget : -1074 ≤ target) : Format.binary64.targetExponent total = target := by
  simp only [Format.targetExponent, Format.mantissaBits, Format.minExponent]
  omega

variable {m : Nat} {e : Int} (accuracy : Accuracy)

/-- Of a mantissa with more than 53 bits the others are cut off. -/
theorem shiftToTargetExponent_eq (i : Nat) (hlow : 2 ^ (52 + i) ≤ m)
    (hhigh : m < 2 ^ (52 + i + 1)) (he : -1000 ≤ e + i) :
    shiftToTargetExponent Format.binary64 m e accuracy =
      (ExtendedMantissa.ofMantissaAndAccuracy m accuracy >>> i, e + i) := by
  have hpos : 0 < m := Nat.lt_of_lt_of_le (Nat.two_pow_pos _) hlow
  have hlog : m.log2 = 52 + i := (Nat.log2_eq_iff (Nat.ne_of_gt hpos)).2 ⟨hlow, hhigh⟩
  have htotal : totalExponent m e = e + i + 53 := by
    rw [totalExponent, hlog]
    omega
  have hshift : (e + i - e).toNat = i := by omega
  simp only [shiftToTargetExponent, targetExponent_eq htotal (by omega), shiftToExponent, hshift]

/-- A mantissa of 53 bits stays. -/
theorem shiftToTargetExponent_stays (hlow : 2 ^ 52 ≤ m) (hhigh : m < 2 ^ 53) (he : -1000 ≤ e) :
    shiftToTargetExponent Format.binary64 m e accuracy =
      (ExtendedMantissa.ofMantissaAndAccuracy m accuracy, e) := by
  have hshift := shiftToTargetExponent_eq accuracy 0 hlow hhigh (by omega : -1000 ≤ e + (0 : Nat))
  rwa [Int.natCast_zero, Int.add_zero] at hshift

end Shift

/-- Rounding shifts twice: the second shift is for a mantissa that rounding made too long. -/
theorem roundWithAccuracy_eq_finite {m : Nat} {exponent e e' : Int} {accuracy : Accuracy}
    {em em' : ExtendedMantissa}
    (hfirst : shiftToTargetExponent Format.binary64 m exponent accuracy = (em, e))
    (hsecond : shiftToTargetExponent Format.binary64 em.roundedMantissa e .exact = (em', e'))
    (h : 0 < em'.mantissa) :
    roundWithAccuracy Format.binary64 .positive m exponent accuracy =
      .finite .positive em'.mantissa e' h := by
  simp only [roundWithAccuracy, hfirst, hsecond]
  exact dif_neg (Nat.ne_of_gt h)

/-- The float is `r * 2 ^ e`, with a mantissa of 53 bits or the next power of two. -/
def Settles (x : Float) (r : Nat) (e : Int) : Prop :=
  Normal x r e ∨ r = 2 ^ 53 ∧ Normal x (2 ^ 52) (e + 1)

namespace Settles

variable {x : Float} {r m : Nat} {e exponent : Int}

theorem exists_normal (h : Settles x r e) : ∃ m f, Normal x m f ∧ e ≤ f ∧ f ≤ e + 1 := by
  rcases h with h | ⟨-, h⟩
  · exact ⟨_, _, h, le_refl _, by omega⟩
  · exact ⟨_, _, h, by omega, le_refl _⟩

/-- A mantissa that is cut off to 53 bits and rounded. -/
theorem of_pack {accuracy : Accuracy} {em : ExtendedMantissa}
    (hshift : shiftToTargetExponent Format.binary64 m exponent accuracy = (em, e))
    (hlow : 2 ^ 52 ≤ em.mantissa) (hhigh : em.mantissa < 2 ^ 53) (hleast : -1000 ≤ e)
    (hmost : e ≤ 899)
    (hx : x.toModel = .pack (roundWithAccuracy Format.binary64 .positive m exponent accuracy)) :
    Settles x em.roundedMantissa e := by
  obtain ⟨hdown, hup⟩ := roundedMantissa_bounds em
  rcases Nat.lt_or_eq_of_le (by omega : em.roundedMantissa ≤ 2 ^ 53) with hlt | heq
  · have hpos : 0 < em.roundedMantissa := by omega
    have hstays := shiftToTargetExponent_stays .exact (by omega) hlt hleast
    exact .inl (.of_pack (by omega) hlt hleast (by omega)
      ⟨hpos, roundWithAccuracy_eq_finite hshift hstays hpos⟩ hx)
  · have hhalves : shiftToTargetExponent Format.binary64 em.roundedMantissa e .exact =
        (⟨2 ^ 52, false, false⟩, e + 1) := by
      rw [heq, shiftToTargetExponent_eq .exact 1 (by omega) (by omega) (by omega)]
      rfl
    exact .inr ⟨heq, .of_pack (by omega) (by omega) (by omega) (by omega)
      ⟨by decide, roundWithAccuracy_eq_finite hshift hhalves (by decide)⟩ hx⟩

end Settles

/-! ## Counts -/

/-- A count is converted by rounding the number that it stops at. -/
theorem toModel_ofCount {n : Nat} (hpos : 0 < n) :
    (ofCount n).toModel = .pack
      (UnpackedFloat.round Format.binary64 .positive (min n (UInt64.size - 1)) 0) := by
  have hword : (UInt64.ofNat (min n (UInt64.size - 1))).toNat = min n (UInt64.size - 1) :=
    UInt64.toNat_ofNat_of_lt (by simp only [UInt64.size]; omega)
  have hsign : compare ((min n (UInt64.size - 1) : Nat) : Int) 0 = .gt :=
    Int.compare_eq_gt.2 (by simp only [UInt64.size]; omega)
  have hunpacked : ofUInt64 Format.binary64 (UInt64.ofNat (min n (UInt64.size - 1))) =
      UnpackedFloat.round Format.binary64 .positive (min n (UInt64.size - 1)) 0 := by
    rw [ofUInt64, hword, UnpackedFloat.ofNat, UnpackedFloat.ofInt, UnpackedFloat.normalize, hsign]
    rfl
  rw [← hunpacked]
  rfl

/-- A count of at most 53 bits is a double: its bits are shifted to the front of the mantissa. -/
theorem normal_ofCount {n : Nat} (hpos : 0 < n) (hn : n < 2 ^ 53) :
    Normal (ofCount n) (n * 2 ^ (52 - n.log2)) (-(52 - n.log2 : Nat)) := by
  have hlog : n.log2 < 53 := (Nat.log2_lt (by omega)).2 hn
  generalize hk : 52 - n.log2 = k
  have hlow : 2 ^ 52 ≤ n * 2 ^ k := by
    calc 2 ^ 52 = 2 ^ n.log2 * 2 ^ k := by
          rw [← Nat.pow_add]
          congr 1
          omega
      _ ≤ n * 2 ^ k := Nat.mul_le_mul_right _ (Nat.log2_self_le (by omega))
  have hhigh : n * 2 ^ k < 2 ^ 53 := by
    calc n * 2 ^ k < 2 ^ (n.log2 + 1) * 2 ^ k :=
          Nat.mul_lt_mul_of_pos_right Nat.lt_log2_self (Nat.two_pow_pos _)
      _ = 2 ^ 53 := by
          rw [← Nat.pow_add]
          congr 1
          omega
  have hmantissa : 0 < n * 2 ^ k := by omega
  have hround : UnpackedFloat.round Format.binary64 .positive n 0 =
      .finite .positive (n * 2 ^ k) (-(k : Int)) hmantissa := by
    have htarget : Format.binary64.targetExponent (totalExponent n 0) = -(k : Int) := by
      refine targetExponent_eq ?_ (by omega)
      rw [totalExponent]
      omega
    have hshift : (0 - -(k : Int)).toNat = k := by omega
    have hexponent : 0 - (k : Int) = -(k : Int) := Int.zero_sub _
    have hstays := shiftToTargetExponent_stays .exact hlow hhigh (by omega : -1000 ≤ -(k : Int))
    simp only [UnpackedFloat.round, htarget, decreaseExponent, hshift, Nat.shiftLeft_eq, hexponent]
    exact roundWithAccuracy_eq_finite hstays hstays hmantissa
  refine .of_pack hlow hhigh (by omega) (by omega) ⟨hmantissa, ?_⟩ (toModel_ofCount hpos)
  rw [Nat.min_eq_left (by simp only [UInt64.size]; omega)]
  exact hround

/-- All counts but zero are doubles with a mantissa of 53 bits; of a longer one the last bits are
cut off and the others rounded. -/
theorem exists_normal_ofCount {n : Nat} (hpos : 0 < n) :
    ∃ m e, Normal (ofCount n) m e ∧ -52 ≤ e ∧ e ≤ 12 := by
  rcases Nat.lt_or_ge n (2 ^ 53) with hshort | hlong
  · exact ⟨_, _, normal_ofCount hpos hshort, by omega, by omega⟩
  have hx := toModel_ofCount hpos
  obtain ⟨c, hc⟩ : ∃ c, min n (UInt64.size - 1) = c := ⟨_, rfl⟩
  rw [hc] at hx
  have hclow : 2 ^ 53 ≤ c := by
    simp only [UInt64.size] at hc
    omega
  have hchigh : c < 2 ^ 64 := by
    simp only [UInt64.size] at hc
    omega
  have hlow : 53 ≤ c.log2 := (Nat.le_log2 (by omega)).2 hclow
  have hhigh : c.log2 < 64 := (Nat.log2_lt (by omega)).2 hchigh
  obtain ⟨i, hi⟩ : ∃ i, c.log2 = 52 + i := ⟨c.log2 - 52, by omega⟩
  have hbounds : 2 ^ (52 + i) ≤ c ∧ c < 2 ^ (52 + i + 1) :=
    (Nat.log2_eq_iff (by omega)).1 hi
  have hround : UnpackedFloat.round Format.binary64 .positive c 0 =
      roundWithAccuracy Format.binary64 .positive c 0 .exact := by
    have htarget : Format.binary64.targetExponent (totalExponent c 0) = (i : Int) := by
      refine targetExponent_eq ?_ (by omega)
      rw [totalExponent]
      omega
    have hshift : (0 - (i : Int)).toNat = 0 := by omega
    simp only [UnpackedFloat.round, htarget, decreaseExponent, hshift, Nat.shiftLeft_zero,
      Int.natCast_zero, Int.sub_zero]
  rw [hround] at hx
  have hcut := shiftToTargetExponent_eq .exact i hbounds.1 hbounds.2 (by omega : -1000 ≤ 0 + (i : Int))
  have hmantissa : 2 ^ 52 ≤ c / 2 ^ i ∧ c / 2 ^ i < 2 ^ 53 := by
    rw [Nat.le_div_iff_mul_le (Nat.two_pow_pos i), Nat.div_lt_iff_lt_mul (Nat.two_pow_pos i),
      ← Nat.pow_add, ← Nat.pow_add]
    exact ⟨hbounds.1, by rw [Nat.add_right_comm] at hbounds; exact hbounds.2⟩
  have hsettles := Settles.of_pack hcut (by simpa using hmantissa.1) (by simpa using hmantissa.2)
    (by omega) (by omega) hx
  obtain ⟨m, e, hnormal, hleast, hmost⟩ := hsettles.exists_normal
  exact ⟨m, e, hnormal, by omega, by omega⟩

/-! ## Quotients -/

theorem divCore_eq {m n : Nat} {e f : Int} (hm : 2 ^ 52 ≤ m ∧ m < 2 ^ 53)
    (hn : 2 ^ 52 ≤ n ∧ n < 2 ^ 53) (h : -900 ≤ e - f) :
    divCore Format.binary64 m e n f =
      (m * 2 ^ 53 / n, e - f - 53, accuracyOfFraction (m * 2 ^ 53 % n) n) := by
  have hlogm : m.log2 = 52 := (Nat.log2_eq_iff (by omega)).2 hm
  have hlogn : n.log2 = 52 := (Nat.log2_eq_iff (by omega)).2 hn
  have htotal : totalExponent m e - totalExponent n f = e - f - 53 + 53 := by
    rw [totalExponent, totalExponent, hlogm, hlogn]
    omega
  have htarget : min (e - f) (e - f - 53) = e - f - 53 := by omega
  have hshift : (e - f - (e - f - 53)).toNat = 53 := by omega
  simp only [divCore, targetExponent_eq htotal (by omega), htarget, hshift, Nat.shiftLeft_eq]

/-- The float is a double nearest to the ratio of `num` and `den`, both scaled to a quotient of 53
bits. -/
structure Rounded (x : Float) (num den : Nat) (e : Int) (r : Nat) : Prop where
  low : 2 ^ 52 * den ≤ num
  high : num < 2 ^ 53 * den
  nearest : Nearest num den r
  settles : Settles x r e

namespace Normal

variable {x y : Float} {m n : Nat} {e f : Int}

/-- Dividing gives the mantissas' quotient with 53 bits more, cut off and rounded. -/
theorem toModel_div (hx : Normal x m e) (hy : Normal y n f) (h : -900 ≤ e - f) :
    (x / y).toModel = .pack (roundWithAccuracy Format.binary64 .positive (m * 2 ^ 53 / n)
      (e - f - 53) (accuracyOfFraction (m * 2 ^ 53 % n) n)) := by
  obtain ⟨hlowm, hhighm, _, hx⟩ := hx
  obtain ⟨hlown, hhighn, _, hy⟩ := hy
  have hdiv : (x / y).toModel =
      .pack (UnpackedFloat.div Format.binary64 x.toModel.unpack y.toModel.unpack) := rfl
  rw [hdiv, hx, hy, UnpackedFloat.div, divCore_eq ⟨hlowm, hhighm⟩ ⟨hlown, hhighn⟩ h]
  rfl

/-- The quotient of two doubles is a double nearest to the exact quotient. Divided, the mantissas
have 53 bits, or 54 of which one more is cut off. -/
theorem div (hx : Normal x m e) (hy : Normal y n f) (hleast : -900 ≤ e - f) (hmost : e - f ≤ 900) :
    ∃ i r : Nat, i ≤ 1 ∧ Rounded (x / y) (m * 2 ^ 53) (n * 2 ^ i) (e - f - 53 + i) r := by
  have hdiv := hx.toModel_div hy hleast
  obtain ⟨hxlow, hxhigh, -⟩ := hx
  obtain ⟨hylow, hyhigh, -⟩ := hy
  have hden : 0 < n := by omega
  have hcut : Cut (m * 2 ^ 53) n _ _ := cut_div hden
  have hlow : 2 ^ 52 ≤ m * 2 ^ 53 / n := by
    rw [Nat.le_div_iff_mul_le hden]
    omega
  have hhigh : m * 2 ^ 53 / n < 2 ^ 54 := by
    rw [Nat.div_lt_iff_lt_mul hden]
    omega
  rcases Nat.lt_or_ge (m * 2 ^ 53 / n) (2 ^ 53) with hshort | hlong
  · have hstays := shiftToTargetExponent_stays (accuracyOfFraction (m * 2 ^ 53 % n) n) hlow hshort
      (by omega : -1000 ≤ e - f - 53)
    have hsettles := Settles.of_pack hstays (by simpa using hlow) (by simpa using hshort) (by omega)
      (by omega) hdiv
    have hrounded : Rounded (x / y) (m * 2 ^ 53) n (e - f - 53) _ :=
      ⟨(Nat.le_div_iff_mul_le hden).1 hlow, (Nat.div_lt_iff_lt_mul hden).1 hshort, hcut.nearest,
        hsettles⟩
    exact ⟨0, _, Nat.zero_le 1, by simpa using hrounded⟩
  · have hhalves := shiftToTargetExponent_eq (accuracyOfFraction (m * 2 ^ 53 % n) n) 1 hlong hhigh
      (by omega : -1000 ≤ e - f - 53 + (1 : Nat))
    have hsettles := Settles.of_pack hhalves
      (by rw [mantissa_shiftRight, mantissa_ofMantissaAndAccuracy]; omega)
      (by rw [mantissa_shiftRight, mantissa_ofMantissaAndAccuracy]; omega) (by omega) (by omega) hdiv
    have hlong := (Nat.le_div_iff_mul_le hden).1 hlong
    have hhigh := (Nat.div_lt_iff_lt_mul hden).1 hhigh
    have hnearest := hcut.shiftRightOne.nearest
    rw [Nat.mul_comm 2] at hnearest
    exact ⟨1, _, le_refl 1, ⟨by omega, by omega, hnearest, hsettles⟩⟩

end Normal

/-- The float is a double nearest to the ratio of `a` and `b`, scaled by `2 ^ k` to 53 bits. -/
def Rounds (x : Float) (a b k r : Nat) : Prop := Rounded x (a * 2 ^ k) b (-(k : Int)) r

/-- The quotient of two counts of at most 53 bits, of which the first is not the larger one, is a
double nearest to their ratio. -/
theorem rounds_div {a b : Nat} (ha : 0 < a) (hab : a ≤ b) (hb : b < 2 ^ 53) :
    ∃ k r, Rounds (ofCount a / ofCount b) a b k r := by
  have hx := normal_ofCount ha (Nat.lt_of_le_of_lt hab hb)
  have hy := normal_ofCount (Nat.lt_of_lt_of_le ha hab) hb
  have hlog : a.log2 ≤ b.log2 :=
    (Nat.le_log2 (by omega)).2 ((Nat.log2_self_le (by omega)).trans hab)
  generalize hs : 52 - a.log2 = s at *
  generalize ht : 52 - b.log2 = t at *
  obtain ⟨i, r, hi, hlow, hhigh, hnearest, hsettles⟩ := hx.div hy (by omega) (by omega)
  obtain ⟨k, hk⟩ : ∃ k, s + 53 = k + (t + i) := ⟨s + 53 - (t + i), by omega⟩
  have hexponent : -(s : Int) - -(t : Int) - 53 + i = -(k : Int) := by omega
  have hc : 0 < 2 ^ (t + i) := Nat.two_pow_pos _
  have hnum : a * 2 ^ s * 2 ^ 53 = a * 2 ^ k * 2 ^ (t + i) := by
    rw [Nat.mul_assoc, Nat.mul_assoc, ← Nat.pow_add, ← Nat.pow_add, hk]
  have hden : b * 2 ^ t * 2 ^ i = b * 2 ^ (t + i) := by rw [Nat.mul_assoc, ← Nat.pow_add]
  rw [hnum, hden] at hlow hhigh hnearest
  rw [← Nat.mul_assoc] at hlow hhigh
  exact ⟨k, r, Nat.le_of_mul_le_mul_right hlow hc, Nat.lt_of_mul_lt_mul_right hhigh,
    hnearest.of_mul_right hc, hexponent ▸ hsettles⟩

end RouteKeeper.Double
