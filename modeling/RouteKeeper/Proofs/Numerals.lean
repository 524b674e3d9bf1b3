import Mathlib.Data.List.Basic
import RouteKeeper.Proofs.Readers
import RouteKeeper.Settings.File

/-!
# Written numbers are read back

A number is tried as a date, a double and an integer, in this order. What is written as an integer
is read as none of the others, and what is written as a double is no date. Whether the decimal
digits of a finite double are read as that double again is left open here; infinities are.

## Main definitions

* `Numeral` — decimal digits as they are written.
* `Toml.DecimalReadsBack` — the decimal text of a double is read as the double.

## Main statements

* `Toml.decimalFloat_append` — how a text with a point is read.
* `Toml.scalar_toString`, `Toml.scalar_write` — integers and doubles are read back.
-/
namespace RouteKeeper

open Text Text.Reader

/-! ## Decimal digits -/

/-- Decimal digits without a leading zero, unless zero is the only one. -/
structure Numeral (ds : List Char) : Prop where
  ne_nil : ds ≠ []
  digits : ∀ c ∈ ds, c.isDigit = true
  zero : ds.head? = some '0' → ds = ['0']

/-- What is no digit differs from all ten of them. -/
theorem Numeral.stops {ds : List Char} (h : Numeral ds) {p : Char → Bool}
    (hp : ∀ k < 10, p (Nat.digitChar k) = false) (rest : List Char) : Stops p (ds ++ rest) := by
  obtain ⟨hne, hdigits, -⟩ := h
  cases ds with
  | nil => exact absurd rfl hne
  | cons c ds =>
    have hrange : 48 ≤ c.toNat ∧ c.toNat ≤ 57 :=
      Char.isDigit_iff_toNat.1 (hdigits c List.mem_cons_self)
    have hc : Nat.digitChar (c.toNat - 48) = c := by
      refine Char.toNat_inj.1 ?_
      rw [Nat.toNat_digitChar_of_lt_ten (by omega)]
      omega
    exact stops_cons (hc ▸ hp (c.toNat - 48) (by omega))

/-- The digits of a number are a numeral. -/
theorem numeral_toDigits (n : Nat) : Numeral (Nat.toDigits 10 n) where
  ne_nil := Nat.toDigits_ne_nil
  digits _ := Nat.isDigit_of_mem_toDigits (by decide) (by decide)
  zero := by
    have hsingle : ∀ m < 10, Nat.digitChar m = '0' → m = 0 := by decide
    -- the first digit of a number is that of what is left without its last digit
    have hfirst : 0 < n → (Nat.toDigits 10 n).head? ≠ some '0' := by
      induction n using Nat.base_induction 10 (by decide) with
      | single m hm =>
        intro hpos hzero
        rw [Nat.toDigits_of_lt_base hm, List.head?_cons, Option.some_inj] at hzero
        exact absurd (hsingle m hm hzero) (Nat.ne_of_gt hpos)
      | digit m k hk hm ih =>
        intro _
        rw [← Nat.toDigits_append_toDigits (by decide) hm hk, List.head?_append,
          List.head?_eq_some_head Nat.toDigits_ne_nil, Option.some_or, ← List.head?_eq_some_head]
        exact ih hm
    intro hzero
    rcases Nat.eq_zero_or_pos n with rfl | hpos
    · exact Nat.toDigits_zero 10
    · exact absurd hzero (hfirst hpos)

/-- The digits of a number, taken up one by one, make the number. -/
theorem foldl_toDigits (n : Nat) :
    (Nat.toDigits 10 n).foldl (fun n c => n * 10 + (c.toNat - 48)) 0 = n := by
  have hdigits := Nat.ofDigitChars_ten_toDigits (n := n)
  rw [Nat.ofDigitChars_eq_foldl] at hdigits
  simp only [Nat.mul_comm 10] at hdigits
  exact hdigits

/-! ## Decimals -/

namespace Decimal.Scientific

/-- Without zeros at the end, zero has one form. -/
theorem trim_of_digits_eq_zero {s : Scientific} (h : s.trim.digits = 0) : s.trim = ⟨0, 0⟩ := by
  fun_induction trim s with
  | case1 => rfl
  | case2 s hpos hzeros ih => exact ih h
  | case3 s hpos => exact absurd h hpos

theorem isDigit_of_mem_zeros {n : Nat} {ds : List Char} (hds : ∀ c ∈ ds, c.isDigit = true) {c : Char}
    (h : c ∈ List.replicate n '0' ∨ c ∈ ds) : c.isDigit = true := by
  rcases h with h | h
  · rw [List.eq_of_mem_replicate h]
    rfl
  · exact hds c h

/-- Digits that are filled up with zeros to one more than there are places start with a numeral. -/
theorem numeral_take_padded {ds padded : List Char} (h : Numeral ds) {places : Nat}
    (hplaces : 1 ≤ places)
    (hpadded : padded = List.replicate (places + 1 - ds.length) '0' ++ ds) :
    Numeral (padded.take (padded.length - places)) ∧
      (padded.drop (padded.length - places)).length = places ∧
      ∀ c ∈ padded, c.isDigit = true := by
  have hdigits : ∀ c ∈ padded, c.isDigit = true := by
    intro c hc
    rw [hpadded] at hc
    exact isDigit_of_mem_zeros h.digits (List.mem_append.1 hc)
  have hlength : padded.length = max (places + 1) ds.length := by
    rw [hpadded, List.length_append, List.length_replicate]
    omega
  refine ⟨⟨?_, fun c hc => hdigits c (List.mem_of_mem_take hc), ?_⟩, ?_, hdigits⟩
  · rw [← List.length_pos_iff, List.length_take]
    omega
  · intro hzero
    -- a zero in front was filled in, so that there is one digit before the places
    have hone : padded.length - places = 1 := by
      by_contra hlong
      have hnone : places + 1 - ds.length = 0 := by omega
      rw [hnone, List.replicate_zero, List.nil_append] at hpadded
      rw [List.head?_take, if_neg (by omega), hpadded] at hzero
      rw [hpadded, h.zero hzero, List.length_singleton] at hlength
      omega
    rw [hone] at hzero ⊢
    cases padded with
    | nil => cases hzero
    | cons c padded =>
      rw [List.take_succ_cons, List.head?_cons] at hzero
      rw [List.take_succ_cons, List.take_zero, Option.some.inj hzero]
  · rw [List.length_drop]
    omega

/-- A decimal is written as a numeral, a point and at least one digit. -/
theorem exists_positional {s : Scientific} (h : s.digits = 0 → s.exponent = 0) :
    ∃ whole places, (s.positional true).toList = whole ++ '.' :: places ∧ Numeral whole ∧
      places ≠ [] ∧ ∀ c ∈ places, c.isDigit = true := by
  have hdigits := numeral_toDigits s.digits
  have hzero : Nat.toDigits 10 s.digits = ['0'] → s.exponent = 0 := by
    intro heq
    have hvalue := foldl_toDigits s.digits
    rw [heq] at hvalue
    exact h hvalue.symm
  rw [positional, digitText]
  generalize Nat.toDigits 10 s.digits = ds at hdigits hzero ⊢
  by_cases hexponent : s.exponent ≥ 0
  · rw [if_pos hexponent]
    refine ⟨ds ++ List.replicate s.exponent.toNat '0', ['0'], by simp [zeros],
      ⟨by simp [hdigits.ne_nil], ?_, ?_⟩, List.cons_ne_nil _ _, List.forall_mem_singleton.2 rfl⟩
    · intro c hc
      exact isDigit_of_mem_zeros hdigits.digits (List.mem_append.1 hc).symm
    · intro hfirst
      rw [List.head?_append, List.head?_eq_some_head hdigits.ne_nil, Option.some_or,
        ← List.head?_eq_some_head] at hfirst
      rw [hzero (hdigits.zero hfirst), hdigits.zero hfirst]
      rfl
  · rw [if_neg hexponent]
    dsimp only
    have hplaces : 1 ≤ (-s.exponent).toNat := by omega
    obtain ⟨hwhole, hlength, hall⟩ := numeral_take_padded hdigits hplaces rfl
    have hne := List.length_pos_iff.1 (Nat.lt_of_lt_of_eq hplaces hlength.symm)
    refine ⟨_, _, ?_, hwhole, hne, fun c hc => hall c (List.mem_of_mem_drop hc)⟩
    simp only [String.toList_append, String.toList_ofList, List.append_assoc]
    rfl

end Decimal.Scientific

/-- The shortest decimal of zero has no exponent. -/
theorem Decimal.exponent_shortest {mantissa : Nat} {exponent : Int}
    (h : (shortest mantissa exponent).digits = 0) : (shortest mantissa exponent).exponent = 0 := by
  rw [shortest] at h ⊢
  split at h
  case isTrue hzero => rw [if_pos hzero]
  case isFalse hpos =>
    rw [if_neg hpos]
    dsimp only at h ⊢
    split at h
    case h_1 s hs => rw [Scientific.trim_of_digits_eq_zero h]
    case h_2 => rfl

/-! ## Doubles that are not finite -/

namespace Binary64

/-- A double is its bits. -/
theorem eq_of_toBits_eq {x y : Float} (h : x.toBits = y.toBits) : x = y := by
  obtain ⟨⟨bits, hx⟩⟩ := x
  obtain ⟨⟨bits', hy⟩⟩ := y
  cases h
  rfl

theorem ofFloat_eq_infinite {x : Float} {negative : Bool} (h : ofFloat x = .infinite negative) :
    x = if negative then -(1.0 / 0.0) else 1.0 / 0.0 := by
  have hplus : (1.0 / 0.0 : Float).toBits.toNat = 9218868437227405312 := by decide +kernel
  have hminus : (-(1.0 / 0.0) : Float).toBits.toNat = 18442240474082181120 := by decide +kernel
  have hlow : x.toBits.toNat < UInt64.size := x.toBits.toNat_lt
  simp only [ofFloat, ofBits, Nat.shiftRight_eq_div_pow] at h
  split at h
  case isFalse => split at h <;> cases h
  case isTrue hfield =>
    split at h
    case isFalse => cases h
    case isTrue hfraction =>
      simp only [UInt64.size] at hlow
      simp only [Nat.reducePow, Nat.reduceShiftLeft] at hfield hfraction
      have hsign : (x.toBits.toNat / 9223372036854775808 % 2 == 1) = negative :=
        Binary64.infinite.inj h
      refine eq_of_toBits_eq (UInt64.toNat_inj.1 ?_)
      cases negative with
      | false =>
        rw [beq_eq_false_iff_ne] at hsign
        rw [if_neg Bool.false_ne_true, hplus]
        omega
      | true =>
        rw [beq_iff_eq] at hsign
        rw [if_pos rfl, hminus]
        omega

/-- There is one double that is not a number. -/
theorem ofFloat_eq_nan {x : Float} (h : ofFloat x = .nan) : x = 0.0 / 0.0 := by
  have hpacked : (0.0 / 0.0 : Float).toBits.toBitVec =
      Float.Model.UnpackedFloat.packedNaN .binary64 := by decide +kernel
  simp only [ofFloat, ofBits] at h
  split at h
  case isFalse => split at h <;> cases h
  case isTrue hfield =>
    split at h
    case isTrue => cases h
    case isFalse hfraction =>
      have hexponent :
          @Float.Model.UnpackedFloat.unpackExponent .binary64 x.toBits.toBitVec = -1#_ := by
        refine BitVec.eq_of_toNat_eq ?_
        simpa [Float.Model.UnpackedFloat.unpackExponent] using hfield
      have hmantissa :
          @Float.Model.UnpackedFloat.unpackMantissa .binary64 x.toBits.toBitVec ≠ 0#_ := by
        intro hzero
        refine hfraction ?_
        simpa [Float.Model.UnpackedFloat.unpackMantissa] using congrArg BitVec.toNat hzero
      have hbits := x.toModel.valid.eq_packedNaN hexponent hmantissa
      exact eq_of_toBits_eq (UInt64.toBitVec_inj.1 (hbits.trans hpacked.symm))

end Binary64

namespace Toml

/-- The decimal digits and their values. -/
theorem digitValue?_ten (c : Char) :
    digitValue? 10 c = if c.isDigit then some (c.toNat - 48) else none := by
  have hdigit : c.isDigit = true ↔ 48 ≤ c.toNat ∧ c.toNat ≤ 57 := Char.isDigit_iff_toNat
  simp only [digitValue?, Bool.and_eq_true, decide_eq_true_eq]
  by_cases h : 48 ≤ c.toNat ∧ c.toNat ≤ 57
  · rw [if_pos h, if_pos (hdigit.2 h), if_pos (by omega)]
  · rw [if_neg h, if_neg (mt hdigit.1 h)]
    refine if_neg ?_
    split
    · omega
    · split <;> omega

@[simp] theorem isDigitIn_ten : isDigitIn 10 = Char.isDigit := by
  funext c
  rw [isDigitIn, digitValue?_ten]
  cases c.isDigit <;> rfl

theorem numberOf_toDigits (n : Nat) : numberOf 10 (Nat.toDigits 10 n) = n := by
  refine Eq.trans (List.foldl_ext _ _ 0 fun m c hc => ?_) (foldl_toDigits n)
  rw [digitValue?_ten, if_pos (Nat.isDigit_of_mem_toDigits (by decide) (by decide) hc),
    Option.getD_some]

/-! ## Parts of numbers -/

section Parts

variable {ds rest : List Char}

/-- The text starts with nothing that continues the digits. -/
def EndsDigits (rest : List Char) : Prop := Stops (fun c => c.isDigit || c = '_') rest

theorem digits_append (hne : ds ≠ []) (hds : ∀ c ∈ ds, c.isDigit = true) (hrest : EndsDigits rest) :
    digits 10 (ds ++ rest) = some (ds, rest) := by
  have hstop : ((satisfy Char.isDigit) <|> (do char '_'; satisfy Char.isDigit)) rest = none := by
    refine (orElse_of_none (satisfy_of_stops hrest.left)).trans (bind_of_none (char_of_stops ?_))
    exact hrest.right
  rw [digits, isDigitIn_ten]
  cases ds with
  | nil => exact absurd rfl hne
  | cons c ds =>
    refine (bind_of_eq (satisfy_cons (hds c List.mem_cons_self))).trans ?_
    exact bind_of_eq (Chain.satisfy_append (fun d hd => hds d (List.mem_cons_of_mem c hd)) hstop).many

theorem digits_of_stops (h : Stops Char.isDigit rest) : digits 10 rest = none := by
  rw [digits, isDigitIn_ten]
  exact bind_of_none (satisfy_of_stops h)

theorem decimalDigits_append (h : Numeral ds) (hrest : EndsDigits rest) :
    decimalDigits (ds ++ rest) = some (ds, rest) := by
  by_cases hzero : ds.head? = some '0'
  · rw [h.zero hzero]
    rfl
  · refine Eq.trans ?_ (digits_append h.ne_nil h.digits hrest)
    have hpeek : peek (ds ++ rest) = some (ds.head?, ds ++ rest) := by
      cases ds with
      | nil => exact absurd rfl h.ne_nil
      | cons c ds => rfl
    rw [decimalDigits]
    refine (bind_of_eq hpeek).trans (congrFun ?_ _)
    split
    case h_1 heq => exact absurd heq hzero
    case h_2 => rfl

theorem decimalDigits_of_stops (h : Stops Char.isDigit rest) : decimalDigits rest = none := by
  rw [decimalDigits]
  refine (bind_of_eq (rfl : peek rest = some (rest.head?, rest))).trans ?_
  refine (congrFun ?_ rest).trans (digits_of_stops h)
  split
  case h_1 heq => exact absurd (h '0' heq) (by decide)
  case h_2 => rfl

theorem sign_of_stops (h : Stops (fun c => c = '+' || c = '-') rest) :
    sign rest = some (false, rest) := by
  rw [sign]
  exact bind_of_eq (optional_of_none (satisfy_of_stops h))

end Parts

/-! ## Dates and times -/

section Dates

variable {ds rest : List Char}

/-- The first number of a date or a time leaves nothing that starts with the character after it. -/
theorem fixedNumber_stops {count low high n : Nat} {left : List Char} {c : Char}
    (hds : ∀ c ∈ ds, c.isDigit = true) (hrest : Stops Char.isDigit rest) (hc : c.isDigit = false)
    (hstops : Stops (· = c) rest) (h : fixedNumber count low high (ds ++ rest) = some (n, left)) :
    Stops (· = c) left := by
  rw [fixedNumber, isDigitIn_ten] at h
  obtain ⟨read, next, hread, hrange⟩ := bind_eq_some_iff.1 h
  obtain ⟨more, hmore, rfl⟩ := exactlyMany_eq_some hds hrest hread
  split at hrange
  case isFalse => cases hrange
  case isTrue =>
    cases hrange
    cases more with
    | nil => exact hstops
    | cons d more =>
      refine stops_cons (decide_eq_false ?_)
      rintro rfl
      rw [hmore d List.mem_cons_self] at hc
      cases hc

/-- Digits before anything but a hyphen or a colon are no date and no time. -/
theorem dateTime_digits_append (hds : ∀ c ∈ ds, c.isDigit = true) (hrest : Stops Char.isDigit rest)
    (hhyphen : Stops (· = '-') rest) (hcolon : Stops (· = ':') rest) :
    dateTime (ds ++ rest) = none := by
  have hdate : date (ds ++ rest) = none := by
    rw [date]
    cases hyear : fixedNumber 4 0 9999 (ds ++ rest) with
    | none => exact bind_of_none hyear
    | some year =>
      refine (bind_of_eq hyear).trans (bind_of_none (char_of_stops ?_))
      exact fixedNumber_stops hds hrest (by decide) hhyphen hyear
  refine (orElse_of_none (bind_of_none hdate)).trans ?_
  rw [time]
  cases hhour : fixedNumber 2 0 23 (ds ++ rest) with
  | none => exact bind_of_none (discard_of_none hhour)
  | some hour =>
    refine (bind_of_eq (discard_of_eq hhour)).trans (bind_of_none (char_of_stops ?_))
    exact fixedNumber_stops hds hrest (by decide) hcolon hhour

theorem fixedNumber_of_stops {count low high : Nat} (h : Stops Char.isDigit rest) :
    fixedNumber (count + 1) low high rest = none := by
  rw [fixedNumber, isDigitIn_ten]
  exact bind_of_none (bind_of_none (satisfy_of_stops h))

theorem dateTime_of_stops (h : Stops Char.isDigit rest) : dateTime rest = none := by
  refine (orElse_of_none (bind_of_none (bind_of_none (fixedNumber_of_stops h)))).trans ?_
  exact bind_of_none (discard_of_none (fixedNumber_of_stops h))

end Dates

/-! ## Doubles -/

section Doubles

variable {whole places rest : List Char}

/-- A minus in front of a negative number, and nothing else. -/
def signText (negative : Bool) : List Char := if negative then ['-'] else []

theorem sign_append (negative : Bool) (h : Stops (fun c => c = '+' || c = '-') rest) :
    sign (signText negative ++ rest) = some (negative, rest) := by
  cases negative with
  | false => exact sign_of_stops h
  | true => rfl

/-- A text with a point is read as the double nearest to it, unless that is too large. -/
theorem decimalFloat_append (negative : Bool) (hwhole : Numeral whole) (hne : places ≠ [])
    (hplaces : ∀ c ∈ places, c.isDigit = true) (hends : EndsDigits rest)
    (hexponent : Stops (fun c => c = 'e' || c = 'E') rest) :
    decimalFloat (signText negative ++ (whole ++ '.' :: (places ++ rest))) =
      let x := Binary64.ofDecimal negative (numberOf 10 (whole ++ places)) (0 - places.length)
      if Binary64.ofFloat x = .infinite false then none else some (x, rest) := by
  have hsign : Stops (fun c => c = '+' || c = '-') (whole ++ '.' :: (places ++ rest)) :=
    hwhole.stops (by decide) _
  have hfraction : fraction ('.' :: (places ++ rest)) = some (places, rest) :=
    (bind_of_eq char_self).trans (digits_append hne hplaces hends)
  have hnone : exponent rest = none := bind_of_none (discard_of_none (satisfy_of_stops hexponent))
  rw [decimalFloat]
  refine (bind_of_eq (sign_append negative hsign)).trans ?_
  refine (bind_of_eq (decimalDigits_append hwhole (stops_cons rfl))).trans ?_
  refine (bind_of_eq (optional_of_eq hfraction)).trans ?_
  refine (bind_of_eq (bind_of_eq (optional_of_none hnone))).trans ?_
  dsimp only [Option.getD_some, Option.getD_none]
  split <;> rfl

/-- Digits before anything but a point or an exponent are no double. -/
theorem decimalFloat_digits_append (h : Numeral whole) (hends : EndsDigits rest)
    (hpoint : Stops (· = '.') rest) (hexponent : Stops (fun c => c = 'e' || c = 'E') rest) :
    decimalFloat (whole ++ rest) = none := by
  have hsign : Stops (fun c => c = '+' || c = '-') (whole ++ rest) := h.stops (by decide) rest
  rw [decimalFloat]
  refine (bind_of_eq (sign_of_stops hsign)).trans ?_
  refine (bind_of_eq (decimalDigits_append h hends)).trans ?_
  refine (bind_of_eq (optional_of_none (bind_of_none (char_of_stops hpoint)))).trans ?_
  exact bind_of_none (bind_of_none (discard_of_none (satisfy_of_stops hexponent)))

theorem decimalFloat_of_stops (negative : Bool) (hdigit : Stops Char.isDigit rest)
    (hsign : Stops (fun c => c = '+' || c = '-') rest) :
    decimalFloat (signText negative ++ rest) = none := by
  rw [decimalFloat]
  refine (bind_of_eq (sign_append negative hsign)).trans ?_
  exact bind_of_none (decimalDigits_of_stops hdigit)

theorem namedFloat_inf (negative : Bool) (rest : List Char) :
    namedFloat (signText negative ++ 'i' :: 'n' :: 'f' :: rest) =
      some (if negative then -(1.0 / 0.0) else 1.0 / 0.0, rest) := by
  have hname : exactly "inf" ('i' :: 'n' :: 'f' :: rest) = some ((), rest) := exactly_append "inf" rest
  rw [namedFloat]
  refine (bind_of_eq (sign_append negative (stops_cons rfl))).trans ?_
  exact bind_of_eq (orElse_of_eq (bind_of_eq hname))

theorem namedFloat_nan (rest : List Char) :
    namedFloat ('n' :: 'a' :: 'n' :: rest) = some (0.0 / 0.0, rest) := by
  have hother : exactly "inf" ('n' :: 'a' :: 'n' :: rest) = none :=
    bind_of_none (char_of_stops (stops_cons rfl))
  have hname : exactly "nan" ('n' :: 'a' :: 'n' :: rest) = some ((), rest) := exactly_append "nan" rest
  rw [namedFloat]
  refine (bind_of_eq (sign_of_stops (stops_cons rfl))).trans ?_
  exact bind_of_eq ((orElse_of_none (bind_of_none hother)).trans (bind_of_eq hname))

end Doubles

/-! ## Integers -/

theorem namedFloat_digits_append {ds : List Char} (h : Numeral ds) (rest : List Char) :
    namedFloat (ds ++ rest) = none := by
  have hsign : Stops (fun c => c = '+' || c = '-') (ds ++ rest) := h.stops (by decide) rest
  rw [namedFloat]
  refine (bind_of_eq (sign_of_stops hsign)).trans (bind_of_none ?_)
  refine (orElse_of_none (bind_of_none ?_)).trans (bind_of_none ?_)
  · exact bind_of_none (char_of_stops (h.stops (by decide) rest))
  · exact bind_of_none (char_of_stops (h.stops (by decide) rest))

/-- No mark of a base starts a numeral. -/
theorem not_prefix_of_numeral {ds rest : List Char} (h : Numeral ds) {mark : Char}
    (hmark : Stops (· = mark) rest) : ¬ ['0', mark] <+: ds ++ rest := by
  intro hprefix
  cases ds with
  | nil => exact h.ne_nil rfl
  | cons d ds =>
    obtain ⟨hzero, hafter⟩ := List.cons_prefix_cons.1 hprefix
    obtain ⟨-, rfl⟩ := List.cons.inj (h.zero (congrArg some hzero.symm))
    cases rest with
    | nil => simp at hafter
    | cons c rest =>
      obtain ⟨hc, -⟩ := List.cons_prefix_cons.1 hafter
      exact absurd hc.symm (of_decide_eq_false (hmark c rfl))

/-- A numeral of at most 63 bits is read as a decimal integer. -/
theorem integer_append {ds rest : List Char} (h : Numeral ds) (hends : EndsDigits rest)
    (hx : Stops (· = 'x') rest) (ho : Stops (· = 'o') rest) (hb : Stops (· = 'b') rest)
    (hsmall : numberOf 10 ds ≤ Settings.largestInteger) :
    integer (ds ++ rest) = some ((numberOf 10 ds : Int), rest) := by
  have hsign : Stops (fun c => c = '+' || c = '-') (ds ++ rest) := h.stops (by decide) rest
  have hwithin : within64 (numberOf 10 ds : Int) = some (numberOf 10 ds : Int) := by
    rw [within64, if_pos]
    rw [Settings.largestInteger] at hsmall
    simp only [Bool.and_eq_true, decide_eq_true_eq]
    omega
  have hbased {mark : String} {c : Char} (hmark : mark.toList = ['0', c]) (hc : Stops (· = c) rest)
      (f : Unit → Reader Int) : (exactly mark >>= f) (ds ++ rest) = none := by
    refine bind_of_none (exactly_eq_none ?_)
    rw [hmark]
    exact not_prefix_of_numeral h hc
  rw [integer]
  refine (bind_of_eq (?_ : _ = some ((numberOf 10 ds : Int), rest))).trans ?_
  · refine (orElse_of_none (hbased rfl hx _)).trans ?_
    refine (orElse_of_none (hbased rfl ho _)).trans ?_
    refine (orElse_of_none (hbased rfl hb _)).trans ?_
    refine (bind_of_eq (sign_of_stops hsign)).trans ?_
    exact bind_of_eq (decimalDigits_append h hends)
  · rw [hwithin]
    rfl

/-! ## Values -/

section Values

variable {cs rest : List Char}

/-- What a scalar is tried as that is neither a string nor a truth value. -/
def numberOrDate : Reader Value :=
  (do dateTime; return .dateTime) <|> (do return .float (← decimalFloat)) <|>
    (do return .float (← namedFloat)) <|> (do return .integer (← integer))

theorem scalar_of_stops (h : Stops (fun c => c = '"' || c = '\'' || c = 't' || c = 'f') cs) :
    scalar cs = numberOrDate cs := by
  rw [scalar]
  refine (bind_of_eq (rfl : peek cs = some (cs.head?, cs))).trans (congrFun ?_ cs)
  split
  case h_5 => rfl
  all_goals
    rename_i hfirst
    exact absurd (h _ hfirst) (by decide)

theorem scalar_string {q : Char} (hq : q = '"' ∨ q = '\'') {s : String}
    (h : string (q :: cs) = some (s, rest)) : scalar (q :: cs) = some (.text s, rest) := by
  rw [scalar]
  refine (bind_of_eq (rfl : peek (q :: cs) = some (some q, q :: cs))).trans ?_
  rcases hq with rfl | rfl <;> exact bind_of_eq h

/-- An integer of at most 63 bits is read back at the end of its line. -/
theorem scalar_toString {n : Nat} (h : n ≤ Settings.largestInteger) (rest : List Char) :
    scalar ((toString n).toList ++ '\n' :: rest) = some (.integer n, '\n' :: rest) := by
  have hnumeral := numeral_toDigits n
  have hvalue := numberOf_toDigits n
  rw [Nat.toString_eq_ofList_toDigits, String.toList_ofList]
  generalize Nat.toDigits 10 n = ds at hnumeral hvalue
  subst hvalue
  have hend {p : Char → Bool} (hp : p '\n' = false) : Stops p ('\n' :: rest) := stops_cons hp
  have hfirst : Stops (fun c => c = '"' || c = '\'' || c = 't' || c = 'f') (ds ++ '\n' :: rest) :=
    hnumeral.stops (by decide) _
  have hdate := dateTime_digits_append hnumeral.digits (hend rfl) (hend rfl) (hend rfl)
  have hfloat := decimalFloat_digits_append hnumeral (hend rfl) (hend rfl) (hend rfl)
  have hinteger := integer_append hnumeral (hend rfl) (hend rfl) (hend rfl) (hend rfl) h
  rw [scalar_of_stops hfirst, numberOrDate]
  refine (orElse_of_none (bind_of_none hdate)).trans ?_
  refine (orElse_of_none (bind_of_none hfloat)).trans ?_
  refine (orElse_of_none (bind_of_none (namedFloat_digits_append hnumeral _))).trans ?_
  exact bind_of_eq hinteger

/-- The decimal text of the double, if it is finite, is read as the double. -/
def DecimalReadsBack (x : Float) : Prop :=
  ∀ negative mantissa exponent, Binary64.ofFloat x = .finite negative mantissa exponent →
    decimalFloat (Settings.floatFormat.write x).toList = some (x, [])

/-- A finite double is written with a point and without an exponent. -/
theorem exists_write_finite {x : Float} {negative : Bool} {mantissa : Nat} {exponent : Int}
    (h : Binary64.ofFloat x = .finite negative mantissa exponent) :
    ∃ whole places,
      (Settings.floatFormat.write x).toList = signText negative ++ (whole ++ '.' :: places) ∧
      Numeral whole ∧ places ≠ [] ∧ ∀ c ∈ places, c.isDigit = true := by
  have hzero : (Decimal.shortest mantissa exponent).digits = 0 →
      (Decimal.shortest mantissa exponent).exponent = 0 := Decimal.exponent_shortest
  obtain ⟨whole, places, htext, hparts⟩ := Decimal.Scientific.exists_positional hzero
  refine ⟨whole, places, ?_, hparts⟩
  have hwrite : Settings.floatFormat.write x =
      (if negative then "-" else "") ++ (Decimal.shortest mantissa exponent).positional true := by
    rw [Decimal.FloatFormat.write, h]
    simp only [Settings.floatFormat, Bool.and_false, Bool.false_eq_true, if_false]
  rw [hwrite, String.toList_append, htext]
  cases negative <;> rfl

theorem write_infinite {x : Float} {negative : Bool} (h : Binary64.ofFloat x = .infinite negative) :
    (Settings.floatFormat.write x).toList = signText negative ++ ['i', 'n', 'f'] := by
  rw [Decimal.FloatFormat.write, h]
  cases negative <;> rfl

theorem write_nan {x : Float} (h : Binary64.ofFloat x = .nan) :
    (Settings.floatFormat.write x).toList = ['n', 'a', 'n'] := by
  rw [Decimal.FloatFormat.write, h]
  rfl

/-- A double starts with a minus, a digit, or the first letter of a name. -/
theorem stops_write (x : Float) {p : Char → Bool} (hdigits : ∀ k < 10, p (Nat.digitChar k) = false)
    (hminus : p '-' = false) (hinf : p 'i' = false) (hnan : p 'n' = false) (rest : List Char) :
    Stops p ((Settings.floatFormat.write x).toList ++ rest) := by
  cases hx : Binary64.ofFloat x with
  | nan =>
    rw [write_nan hx]
    exact stops_cons hnan
  | infinite negative =>
    rw [write_infinite hx]
    cases negative with
    | false => exact stops_cons hinf
    | true => exact stops_cons hminus
  | finite negative mantissa exponent =>
    obtain ⟨whole, places, htext, hwhole, -⟩ := exists_write_finite hx
    rw [htext, List.append_assoc, List.append_assoc]
    cases negative with
    | false => exact hwhole.stops hdigits _
    | true => exact stops_cons hminus

/-- A double is read back at the end of its line, if its decimal text is. -/
theorem scalar_write {x : Float} (h : DecimalReadsBack x) (rest : List Char) :
    scalar ((Settings.floatFormat.write x).toList ++ '\n' :: rest) =
      some (.float x, '\n' :: rest) := by
  refine (scalar_of_stops (stops_write x (by decide) rfl rfl rfl _)).trans ?_
  cases hx : Binary64.ofFloat x with
  | nan =>
    rw [write_nan hx, Binary64.ofFloat_eq_nan hx]
    refine (orElse_of_none (bind_of_none (dateTime_of_stops (stops_cons rfl)))).trans ?_
    refine (orElse_of_none (bind_of_none ?_)).trans (orElse_of_eq (bind_of_eq (namedFloat_nan _)))
    exact decimalFloat_of_stops false (stops_cons rfl) (stops_cons rfl)
  | infinite negative =>
    rw [write_infinite hx, Binary64.ofFloat_eq_infinite hx, List.append_assoc]
    have hdigit : Stops Char.isDigit (signText negative ++ 'i' :: 'n' :: 'f' :: '\n' :: rest) := by
      cases negative <;> exact stops_cons rfl
    refine (orElse_of_none (bind_of_none (dateTime_of_stops hdigit))).trans ?_
    refine (orElse_of_none (bind_of_none ?_)).trans
      (orElse_of_eq (bind_of_eq (namedFloat_inf negative _)))
    exact decimalFloat_of_stops negative (stops_cons rfl) (stops_cons rfl)
  | finite negative mantissa exponent =>
    obtain ⟨whole, places, htext, hwhole, hne, hplaces⟩ := exists_write_finite hx
    have hread := h negative mantissa exponent hx
    -- whatever follows the text, the same double is read
    have hshort := decimalFloat_append negative hwhole hne hplaces stops_nil stops_nil
    have hlong := decimalFloat_append negative hwhole hne hplaces
      (stops_cons rfl : EndsDigits ('\n' :: rest)) (stops_cons rfl)
    simp only [List.append_nil] at hshort
    rw [htext, hshort] at hread
    have hvalue :
        Binary64.ofDecimal negative (numberOf 10 (whole ++ places)) (0 - places.length) = x := by
      split at hread
      · cases hread
      · exact (Prod.mk.inj (Option.some.inj hread)).1
    dsimp only at hlong
    rw [hvalue, hx, if_neg nofun] at hlong
    rw [htext, List.append_assoc, List.append_assoc, List.cons_append]
    have hdate :
        dateTime (signText negative ++ (whole ++ '.' :: (places ++ '\n' :: rest))) = none := by
      cases negative with
      | false =>
        rw [signText, if_neg Bool.false_ne_true, List.nil_append]
        exact dateTime_digits_append hwhole.digits (stops_cons rfl) (stops_cons rfl) (stops_cons rfl)
      | true => exact dateTime_of_stops (stops_cons rfl)
    refine (orElse_of_none (bind_of_none hdate)).trans ?_
    exact orElse_of_eq (bind_of_eq hlong)

end Values

end Toml

end RouteKeeper
