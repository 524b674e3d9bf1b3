import RouteKeeper.Proofs.FirstLeast
import RouteKeeper.Proofs.Quotients
import RouteKeeper.Window

/-!
# Shares compared as doubles

The share of lost rounds is a quotient of two counts, so it is zero or a double with a mantissa of
53 bits. Such doubles stand in one order, and shares that are neither less nor greater are the same
double. Rounding can make one double of different ratios; but out of one number of slots, as long as
it is no more than `2 ^ 52`, a round more that is lost makes a larger double.

## Main definitions

* `Double.Stands` — where a double stands among the doubles.
* `Window.Compares` — a comparison of losses is that of a total preorder.
* `Window.CountsHits` — out of so many slots a comparison of losses is that of the lost rounds.

## Main statements

* `Double.Rounds.place_lt` — rounding keeps the order of ratios out of one number of slots.
* `Window.compares_lessShare` — shares compare in an order, whatever the windows.
* `Window.lessShare_eq_false_and_iff` — neither share is less exactly if they are the same double.
* `Window.countsHits_lessShare` — out of at most `2 ^ 52` slots shares compare as the lost rounds
  do.
-/
namespace RouteKeeper

namespace Double

open Float.Model (UnpackedFloat)

/-! ## The order of doubles -/

/-- Doubles with a mantissa of 53 bits stand in the order of these numbers, which rise by one from
each double to the next. -/
def place (e : Int) (r : Nat) : Int := 2 ^ 52 * e + r

/-- Where a double stands: zero below all that have a mantissa of 53 bits, and these in their
places. -/
inductive Stands (x : Float) : WithBot Int → Prop
  | zero (h : x.toModel.unpack = .zero .positive) : Stands x ⊥
  | normal {m : Nat} {e : Int} (h : Normal x m e) : Stands x (place e m)

namespace Stands

variable {x y : Float} {p q : WithBot Int}

theorem lt_iff (hx : Stands x p) (hy : Stands y q) : x < y ↔ p < q := by
  cases hx with
  | zero hx =>
    cases hy with
    | zero hy =>
      rw [lt_iff_compare, hx, hy]
      exact iff_of_false (by decide) (lt_irrefl _)
    | normal hy =>
      obtain ⟨-, -, _, hy⟩ := hy
      rw [lt_iff_compare, hx, hy]
      exact iff_of_true rfl (WithBot.bot_lt_coe _)
  | normal hx =>
    cases hy with
    | zero hy =>
      obtain ⟨-, -, _, hx⟩ := hx
      rw [lt_iff_compare, hx, hy]
      refine iff_of_false ?_ not_lt_bot
      intro hless
      cases hless
    | normal hy =>
      rw [hx.lt_iff hy, WithBot.coe_lt_coe, place, place]
      have := hx.low
      have := hx.high
      have := hy.low
      have := hy.high
      omega

/-- In one place stands one double. -/
theorem eq (hx : Stands x p) (hy : Stands y p) : x = y := by
  have hunpack : x.toModel.unpack = y.toModel.unpack := by
    cases hx with
    | zero hx =>
      generalize hbot : (⊥ : WithBot Int) = p at hy
      cases hy with
      | zero hy => rw [hx, hy]
      | normal hy => exact absurd hbot WithBot.bot_ne_coe
    | @normal m e hx =>
      generalize hplace : (place e m : WithBot Int) = p at hy
      cases hy with
      | zero hy => exact absurd hplace WithBot.coe_ne_bot
      | @normal n f hy =>
        rw [WithBot.coe_inj, place, place] at hplace
        obtain ⟨hmlow, hmhigh, _, hx⟩ := hx
        obtain ⟨hnlow, hnhigh, _, hy⟩ := hy
        obtain rfl : e = f := by omega
        obtain rfl : m = n := by omega
        rw [hx, hy]
  have hbits := (UnpackedFloat.unpack_inj_of_valid x.toModel.valid y.toModel.valid).1 hunpack
  rw [← Float.ofBits_toBits x, ← Float.ofBits_toBits y]
  exact congrArg Float.ofBits (UInt64.toBitVec_inj.1 hbits)

end Stands

theorem Settles.stands {x : Float} {r : Nat} {e : Int} (h : Settles x r e) :
    Stands x (place e r) := by
  rcases h with h | ⟨rfl, h⟩
  · exact .normal h
  · have hplace : place e (2 ^ 53) = place (e + 1) (2 ^ 52) := by
      simp only [place]
      omega
    exact hplace ▸ .normal h

/-! ## Quotients of counts -/

/-- Nothing divided by something is zero. -/
theorem unpack_zero_div {y : Float} {n : Nat} {f : Int} (hy : Normal y n f) :
    (ofCount 0 / y).toModel.unpack = .zero .positive := by
  obtain ⟨-, -, _, hy⟩ := hy
  have hdiv : (ofCount 0 / y).toModel = .pack (.zero .positive) := by
    change Float.Model.pack (UnpackedFloat.div _ _ y.toModel.unpack) = _
    rw [hy]
    rfl
  rw [hdiv]
  rfl

/-- The quotient of two counts stands in a place, unless the second is zero. -/
theorem exists_stands_div (a : Nat) {b : Nat} (hb : 0 < b) :
    ∃ p, Stands (ofCount a / ofCount b) p := by
  obtain ⟨n, f, hy, hyleast, hymost⟩ := exists_normal_ofCount hb
  rcases Nat.eq_zero_or_pos a with rfl | ha
  · exact ⟨_, .zero (unpack_zero_div hy)⟩
  · obtain ⟨m, e, hx, hxleast, hxmost⟩ := exists_normal_ofCount ha
    obtain ⟨_, r, -, hrounded⟩ := hx.div hy (by omega) (by omega)
    exact ⟨_, hrounded.settles.stands⟩

/-! ## Quotients by one count -/

namespace Rounds

variable {x y : Float} {a b c i k l r s : Nat}

theorem bounds (h : Rounds x a b k r) : 2 ^ 52 ≤ r ∧ r ≤ 2 ^ 53 := h.nearest.bounds h.low h.high

/-- A ratio of at most one is scaled up. -/
theorem le_scale (h : Rounds x a b k r) (hab : a ≤ b) (hb : 0 < b) : 52 ≤ k := by
  have hscale : 2 ^ 52 * b ≤ 2 ^ k * b := by
    calc 2 ^ 52 * b ≤ a * 2 ^ k := h.low
      _ ≤ b * 2 ^ k := Nat.mul_le_mul_right _ hab
      _ = 2 ^ k * b := Nat.mul_comm ..
  exact (Nat.pow_le_pow_iff_right (by decide)).1 (Nat.le_of_mul_le_mul_right hscale hb)

/-- A ratio below one is scaled up further. -/
theorem lt_scale (h : Rounds x a b k r) (hab : a < b) : 52 < k := by
  have hscale : 2 ^ 52 * b < 2 ^ k * b := by
    calc 2 ^ 52 * b ≤ a * 2 ^ k := h.low
      _ < b * 2 ^ k := Nat.mul_lt_mul_of_pos_right hab (Nat.two_pow_pos k)
      _ = 2 ^ k * b := Nat.mul_comm ..
  exact (Nat.pow_lt_pow_iff_right (by decide)).1 (Nat.lt_of_mul_lt_mul_right hscale)

/-- A larger ratio is scaled by no more. -/
theorem scale_le (hx : Rounds x a b k r) (hy : Rounds y c b l s) (h : a ≤ c) : l ≤ k := by
  by_contra! hlt
  have hpow : 2 * 2 ^ k ≤ 2 ^ l := by
    rw [← Nat.pow_succ']
    exact Nat.pow_le_pow_right Nat.two_pos hlt
  have hloop : 2 ^ 53 * b < 2 ^ 53 * b := by
    calc 2 ^ 53 * b = 2 * (2 ^ 52 * b) := by ring
      _ ≤ 2 * (a * 2 ^ k) := Nat.mul_le_mul_left 2 hx.low
      _ = a * (2 * 2 ^ k) := by ring
      _ ≤ c * 2 ^ l := Nat.mul_le_mul h hpow
      _ < 2 ^ 53 * b := hy.high
  exact Nat.lt_irrefl _ hloop

/-- Rounding moves two ratios towards each other by half a step each. -/
theorem gap (hx : Rounds x a b (l + i) r) (hy : Rounds y c b l s) (h : a < c) :
    2 * (r * b) + 2 * (2 ^ i * 2 ^ l) ≤ 2 ^ i * ((2 * s + 1) * b) + b := by
  have hr := hx.nearest.1
  have hs := Nat.mul_le_mul_left (2 ^ i) hy.nearest.2
  have hratio : (a + 1) * (2 * (2 ^ i * 2 ^ l)) ≤ c * (2 * (2 ^ i * 2 ^ l)) :=
    Nat.mul_le_mul_right _ h
  rw [Nat.pow_add] at hr
  calc 2 * (r * b) + 2 * (2 ^ i * 2 ^ l)
      ≤ 2 * (a * (2 ^ l * 2 ^ i)) + b + 2 * (2 ^ i * 2 ^ l) := Nat.add_le_add_right hr _
    _ = (a + 1) * (2 * (2 ^ i * 2 ^ l)) + b := by ring
    _ ≤ c * (2 * (2 ^ i * 2 ^ l)) + b := Nat.add_le_add_right hratio _
    _ = 2 ^ i * (2 * (c * 2 ^ l)) + b := by ring
    _ ≤ 2 ^ i * (2 * (s * b) + b) + b := Nat.add_le_add_right hs _
    _ = 2 ^ i * ((2 * s + 1) * b) + b := by ring

/-- The smaller of two ratios with one denominator is rounded to the smaller double. -/
theorem place_lt (hx : Rounds x a b k r) (hy : Rounds y c b l s) (hac : a < c) (hcb : c ≤ b)
    (hb : b ≤ 2 ^ 52) : place (-(k : Int)) r < place (-(l : Int)) s := by
  obtain ⟨i, rfl⟩ := Nat.exists_eq_add_of_le (hx.scale_le hy (Nat.le_of_lt hac))
  have hgap := hx.gap hy hac
  have hk := hx.lt_scale (Nat.lt_of_lt_of_le hac hcb)
  have hl := hy.le_scale hcb (Nat.lt_of_lt_of_le (Nat.zero_lt_of_lt hac) hcb)
  obtain ⟨-, hr⟩ := hx.bounds
  obtain ⟨hs, -⟩ := hy.bounds
  by_contra! hle
  unfold place at hle
  -- Only neighbouring powers are close enough, and then only at their common end.
  have hi : i = 0 ∧ s ≤ r ∨ i = 1 ∧ s = 2 ^ 52 ∧ r = 2 ^ 53 := by omega
  rcases hi with ⟨rfl, hsr⟩ | ⟨rfl, rfl, rfl⟩
  · have hpow : 2 ^ 53 ≤ 2 ^ l := Nat.pow_le_pow_right Nat.two_pos hk
    have hmul := Nat.mul_le_mul_right b hsr
    have hstep : (2 * s + 1) * b = 2 * (s * b) + b := by ring
    rw [hstep, Nat.pow_zero, Nat.one_mul, Nat.one_mul] at hgap
    omega
  · have hpow : 2 ^ 52 ≤ 2 ^ l := Nat.pow_le_pow_right Nat.two_pos hl
    omega

end Rounds

/-- The quotients of two counts by a third one, which is no less and no more than `2 ^ 52`, compare
as the counts do. -/
theorem div_lt_div_of_lt {a b c : Nat} (hac : a < c) (hcb : c ≤ b) (hb : b ≤ 2 ^ 52) :
    ofCount a / ofCount b < ofCount c / ofCount b := by
  have hc : 0 < c := Nat.zero_lt_of_lt hac
  have hb' : b < 2 ^ 53 := Nat.lt_of_le_of_lt hb (by decide)
  obtain ⟨l, s, hy⟩ := rounds_div hc hcb hb'
  rcases Nat.eq_zero_or_pos a with rfl | ha
  · have hx := Stands.zero (unpack_zero_div (normal_ofCount (Nat.lt_of_lt_of_le hc hcb) hb'))
    exact (hx.lt_iff hy.settles.stands).2 (WithBot.bot_lt_coe _)
  · obtain ⟨k, r, hx⟩ := rounds_div ha (Nat.le_trans (Nat.le_of_lt hac) hcb) hb'
    exact (hx.settles.stands.lt_iff hy.settles.stands).2
      (WithBot.coe_lt_coe.2 (hx.place_lt hy hac hcb hb))

end Double

/-! ## Shares of windows -/

namespace Window

/-- A comparison of losses is that of a total preorder of windows. -/
abbrev Compares (less : Loss → Loss → Bool) : Prop :=
  Comparison fun v w : Window => less v.loss w.loss

/-- Out of so many slots, the loss is less exactly if fewer rounds are lost. -/
def CountsHits (less : Loss → Loss → Bool) (capacity : Nat) : Prop :=
  ∀ v w : Window, v.capacity = capacity → w.capacity = capacity →
    (less v.loss w.loss = true ↔ v.lossHits < w.lossHits)

theorem lossHits_le (w : Window) : w.lossHits ≤ w.capacity := by
  have hslots : w.lossHits ≤ w.slots.toList.length := List.countP_le_length
  rw [Array.length_toList] at hslots
  exact hslots.trans w.size_le

/-! ### Exact ratios -/

theorem compares_less : Compares Loss.less where
  asymm {v w} h := by
    simp only [Loss.less, decide_eq_true_eq, decide_eq_false_iff_not, Nat.not_lt] at h ⊢
    exact Nat.le_of_lt h
  chain {u v w} hvu hwv := by
    simp only [Loss.less, decide_eq_false_iff_not, Nat.not_lt] at hvu hwv ⊢
    refine Nat.le_of_mul_le_mul_right ?_ v.capacity_pos
    calc u.loss.hits * w.capacity * v.capacity
        = u.loss.hits * v.capacity * w.capacity := Nat.mul_right_comm ..
      _ ≤ v.loss.hits * u.capacity * w.capacity := Nat.mul_le_mul_right _ hvu
      _ = v.loss.hits * w.capacity * u.capacity := Nat.mul_right_comm ..
      _ ≤ w.loss.hits * v.capacity * u.capacity := Nat.mul_le_mul_right _ hwv
      _ = w.loss.hits * u.capacity * v.capacity := Nat.mul_right_comm ..

theorem countsHits_less (capacity : Nat) : CountsHits Loss.less capacity := by
  intro v w hv hw
  exact Loss.less_iff_of_slots_eq (hv.trans hw.symm) w.capacity_pos

/-! ### Doubles -/

theorem toFloat_share (w : Window) :
    w.loss.share.toFloat = Double.ofCount w.lossHits / Double.ofCount w.capacity :=
  Double.toFloat_ofFloat _

/-- The share of a window stands in a place. -/
theorem exists_stands (w : Window) : ∃ p, Double.Stands w.loss.share.toFloat p := by
  rw [toFloat_share]
  exact Double.exists_stands_div _ w.capacity_pos

theorem lessShare_iff {v w : Window} :
    v.loss.lessShare w.loss = true ↔ v.loss.share.toFloat < w.loss.share.toFloat :=
  decide_eq_true_iff

theorem lessShare_eq_false_iff {v w : Window} :
    v.loss.lessShare w.loss = false ↔ ¬ v.loss.share.toFloat < w.loss.share.toFloat :=
  decide_eq_false_iff_not

theorem compares_lessShare : Compares Loss.lessShare where
  asymm {v w} h := by
    obtain ⟨p, hv⟩ := v.exists_stands
    obtain ⟨q, hw⟩ := w.exists_stands
    rw [lessShare_iff, hv.lt_iff hw] at h
    rw [lessShare_eq_false_iff, hw.lt_iff hv]
    exact h.asymm
  chain {u v w} hvu hwv := by
    obtain ⟨p, hu⟩ := u.exists_stands
    obtain ⟨q, hv⟩ := v.exists_stands
    obtain ⟨o, hw⟩ := w.exists_stands
    rw [lessShare_eq_false_iff, hv.lt_iff hu, not_lt] at hvu
    rw [lessShare_eq_false_iff, hw.lt_iff hv, not_lt] at hwv
    rw [lessShare_eq_false_iff, hw.lt_iff hu, not_lt]
    exact hvu.trans hwv

/-- Neither share is less exactly if both are the same double. -/
theorem lessShare_eq_false_and_iff {v w : Window} :
    v.loss.lessShare w.loss = false ∧ w.loss.lessShare v.loss = false ↔
      v.loss.share = w.loss.share := by
  constructor
  · rintro ⟨hvw, hwv⟩
    obtain ⟨p, hv⟩ := v.exists_stands
    obtain ⟨q, hw⟩ := w.exists_stands
    rw [lessShare_eq_false_iff, hv.lt_iff hw, not_lt] at hvw
    rw [lessShare_eq_false_iff, hw.lt_iff hv, not_lt] at hwv
    obtain rfl := le_antisymm hwv hvw
    have hsame := hv.eq hw
    rw [toFloat_share, toFloat_share] at hsame
    exact congrArg Double.ofFloat hsame
  · intro hsame
    have hself := compares_lessShare.irrefl w
    simp only [Loss.lessShare] at hself ⊢
    rw [hsame]
    exact ⟨hself, hself⟩

/-- Out of at most `2 ^ 52` slots, the share is a smaller double exactly if fewer rounds are lost.
-/
theorem countsHits_lessShare {capacity : Nat} (h : capacity ≤ 2 ^ 52) :
    CountsHits Loss.lessShare capacity := by
  intro v w hv hw
  have hless : ∀ {v w : Window}, v.capacity = capacity → w.capacity = capacity →
      v.lossHits < w.lossHits → v.loss.lessShare w.loss = true := by
    intro v w hv hw hhits
    have hmost : w.lossHits ≤ capacity := hw ▸ w.lossHits_le
    rw [lessShare_iff, toFloat_share, toFloat_share, hv, hw]
    exact Double.div_lt_div_of_lt hhits hmost h
  refine ⟨fun hshare => ?_, hless hv hw⟩
  by_contra hhits
  rcases Nat.lt_or_eq_of_le (Nat.le_of_not_lt hhits) with hmore | hsame
  · rw [compares_lessShare.asymm (hless hw hv hmore)] at hshare
    cases hshare
  · have hloss : v.loss = w.loss := by rw [loss, loss, hsame, hv, hw]
    rw [hloss, compares_lessShare.irrefl w] at hshare
    cases hshare

/-- Where the rounds count, both comparisons of losses are the same. -/
theorem lessShare_eq_less {capacity : Nat} (h : CountsHits Loss.lessShare capacity) {v w : Window}
    (hv : v.capacity = capacity) (hw : w.capacity = capacity) :
    v.loss.lessShare w.loss = v.loss.less w.loss :=
  Bool.eq_iff_iff.2 ((h v w hv hw).trans (countsHits_less capacity v w hv hw).symm)

end Window

end RouteKeeper
