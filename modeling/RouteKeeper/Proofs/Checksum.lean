import Mathlib.Logic.Function.Iterate
import RouteKeeper.Echo

/-!
# The internet checksum

In one's complement a carry out of the highest bit of a sum is added back at the lowest one. Adding
all words first and bringing the carries back at the end comes to the same, as long as the sum fits
its 32 bits. There are two zeros, 0 and 65535; a sum is 0 only if every word is, so a message that
carries its checksum sums to 65535, and its own checksum is 0.

## Main definitions

* `onesAdd`, `onesSum` — addition with the carry brought back, and the sum of the words of a string.
* `StandsFor` — a 16-bit word is what a total comes to in one's complement.

## Main statements

* `StandsFor.unique` — a total comes to one word only.
* `checksum_add_onesSum` — the checksum is the complement of the one's complement sum.
* `checksum_stored` — a string that holds its checksum has the checksum 0.
* `checksum_complements` — all of this, up to the length at which the sum could overflow; and the
  requests, of any length.
-/
namespace RouteKeeper

/-! ## One's complement sums -/

/-- The sum of two 16-bit words, with the carry out of the highest bit added at the lowest. -/
def onesAdd (a b : Nat) : Nat := (a + b) % 65536 + (a + b) / 65536

/-- The 16-bit words of a byte string, the high byte first; a zero follows an odd last byte. -/
def wordsOf : List UInt8 → List Nat
  | [] => []
  | [hi] => [ofBigEndian [hi, 0]]
  | hi :: lo :: rest => ofBigEndian [hi, lo] :: wordsOf rest

/-- The one's complement sum of the words of a byte string. -/
def onesSum (data : List UInt8) : Nat := (wordsOf data).foldl onesAdd 0

/-- What a total comes to in one's complement: a word that leaves the same remainder by 65535, and
that is zero only for the total zero. -/
structure StandsFor (word total : Nat) : Prop where
  lt : word < 65536
  mod : word % 65535 = total % 65535
  zero : word = 0 ↔ total = 0

namespace StandsFor

variable {a b s t : Nat}

theorem unique (ha : StandsFor a s) (hb : StandsFor b s) : a = b := by
  obtain ⟨halt, hamod, hazero⟩ := ha
  obtain ⟨hblt, hbmod, hbzero⟩ := hb
  omega

theorem of_lt (h : a < 65536) : StandsFor a a := ⟨h, rfl, Iff.rfl⟩

theorem onesAdd (ha : StandsFor a s) (hb : StandsFor b t) :
    StandsFor (onesAdd a b) (s + t) := by
  obtain ⟨halt, hamod, hazero⟩ := ha
  obtain ⟨hblt, hbmod, hbzero⟩ := hb
  unfold RouteKeeper.onesAdd
  exact ⟨by omega, by omega, by omega⟩

end StandsFor

/-- The value of a 16-bit word. -/
theorem ofBigEndian_pair (hi lo : UInt8) : ofBigEndian [hi, lo] = hi.toNat * 256 + lo.toNat := by
  simp [ofBigEndian]

theorem ofBigEndian_pair_lt (hi lo : UInt8) : ofBigEndian [hi, lo] < 65536 := by
  have hhi := hi.toNat_lt
  have hlo := lo.toNat_lt
  rw [ofBigEndian_pair]
  omega

theorem standsFor_foldl_onesAdd {a t : Nat} (h : StandsFor a t) (data : List UInt8) :
    StandsFor ((wordsOf data).foldl onesAdd a) (t + wordSum data) := by
  fun_induction wordSum data generalizing a t with
  | case1 => exact h
  | case2 hi =>
    have hword := h.onesAdd (.of_lt (ofBigEndian_pair_lt hi 0))
    rw [ofBigEndian_pair] at hword
    simpa [wordsOf, ofBigEndian_pair] using hword
  | case3 hi lo rest ih =>
    have hword := ih (h.onesAdd (.of_lt (ofBigEndian_pair_lt hi lo)))
    rw [wordsOf, List.foldl_cons, ← ofBigEndian_pair, ← Nat.add_assoc]
    exact hword

/-- The one's complement sum is what the plain sum comes to. -/
theorem standsFor_onesSum (data : List UInt8) : StandsFor (onesSum data) (wordSum data) := by
  have h := standsFor_foldl_onesAdd (.of_lt (a := 0) (by decide)) data
  rwa [Nat.zero_add] at h

/-! ## Bringing the carries back -/

/-- Add what is above sixteen bits to what is below, once. -/
def carryOnce (sum : Nat) : Nat := sum % 65536 + sum / 65536

theorem foldCarry_of_lt {sum : Nat} (h : sum < 65536) : foldCarry sum = sum := by
  rw [foldCarry, if_pos h]

theorem foldCarry_of_le {sum : Nat} (h : 65536 ≤ sum) : foldCarry sum = foldCarry (carryOnce sum) := by
  rw [foldCarry, if_neg (by omega), carryOnce]

theorem standsFor_foldCarry (sum : Nat) : StandsFor (foldCarry sum) sum := by
  fun_induction foldCarry sum with
  | case1 sum h => exact .of_lt h
  | case2 sum h ih =>
    obtain ⟨hlt, hmod, hzero⟩ := ih
    exact ⟨hlt, by omega, by omega⟩

/-- For a sum of 32 bits the carries are brought back twice at most. -/
theorem exists_foldCarry_eq {sum : Nat} (h : sum < 4294967296) :
    ∃ k ≤ 2, (∀ j < k, 65536 ≤ carryOnce^[j] sum) ∧ carryOnce^[k] sum < 65536 ∧
      foldCarry sum = carryOnce^[k] sum := by
  by_cases h₀ : sum < 65536
  · exact ⟨0, by omega, by simp, h₀, foldCarry_of_lt h₀⟩
  have hfirst := foldCarry_of_le (Nat.not_lt.1 h₀)
  by_cases h₁ : carryOnce sum < 65536
  · refine ⟨1, by omega, ?_, h₁, hfirst.trans (foldCarry_of_lt h₁)⟩
    intro j hj
    obtain rfl : j = 0 := by omega
    exact Nat.not_lt.1 h₀
  · have h₂ : carryOnce (carryOnce sum) < 65536 := by
      unfold carryOnce
      omega
    refine ⟨2, Nat.le_refl 2, ?_, h₂, ?_⟩
    · intro j hj
      obtain rfl | rfl : j = 0 ∨ j = 1 := by omega
      · exact Nat.not_lt.1 h₀
      · exact Nat.not_lt.1 h₁
    · rw [hfirst, foldCarry_of_le (Nat.not_lt.1 h₁), foldCarry_of_lt h₂]
      rfl

/-! ## Sums of words -/

/-- So many bytes have half as many words, each of 65535 at most. -/
theorem wordSum_le (data : List UInt8) : wordSum data ≤ 65535 * ((data.length + 1) / 2) := by
  fun_induction wordSum data with
  | case1 => omega
  | case2 hi =>
    have hhi := hi.toNat_lt
    simp only [List.length_cons, List.length_nil]
    omega
  | case3 hi lo rest ih =>
    have hhi := hi.toNat_lt
    have hlo := lo.toNat_lt
    simp only [List.length_cons]
    omega

theorem wordSum_append {front : List UInt8} (heven : front.length % 2 = 0) (back : List UInt8) :
    wordSum (front ++ back) = wordSum front + wordSum back := by
  fun_induction wordSum front with
  | case1 => simp
  | case2 hi => simp at heven
  | case3 hi lo rest ih =>
    simp only [List.length_cons] at heven
    rw [List.cons_append, List.cons_append, wordSum, ih (by omega)]
    omega

theorem wordSum_bigEndian {word : Nat} (h : word < 65536) (back : List UInt8) :
    wordSum (bigEndian 2 word ++ back) = word + wordSum back := by
  have hbytes : bigEndian 2 word = [UInt8.ofNat (word / 256), UInt8.ofNat word] := rfl
  have hword : ofBigEndian (bigEndian 2 word) = word := by
    rw [ofBigEndian_bigEndian]
    exact Nat.mod_eq_of_lt h
  rw [hbytes] at hword ⊢
  rw [List.cons_append, List.cons_append, List.nil_append, wordSum, ← ofBigEndian_pair, hword]

@[simp] theorem wordSum_replicate_zero (n : Nat) : wordSum (List.replicate n 0) = 0 := by
  induction n using Nat.strongRecOn with
  | ind n ih =>
    match n with
    | 0 => rfl
    | 1 => rfl
    | n + 2 =>
      rw [List.replicate_succ, List.replicate_succ, wordSum, ih n (by omega)]
      rfl

/-! ## The checksum -/

variable {data front back : List UInt8}

theorem checksum_of_wordSum_lt (h : wordSum data < 4294967296) :
    checksum data = 65535 - foldCarry (wordSum data) := by
  rw [checksum, Nat.mod_eq_of_lt h]

/-- The checksum is the complement of the one's complement sum. -/
theorem checksum_add_onesSum (h : wordSum data < 4294967296) :
    checksum data + onesSum data = 65535 := by
  have hsame := (standsFor_foldCarry (wordSum data)).unique (standsFor_onesSum data)
  have hlt := foldCarry_lt (wordSum data)
  rw [checksum_of_wordSum_lt h, ← hsame]
  omega

/-- A string that holds its checksum at an even place, and was summed with zeros there, has the
checksum 0: the sum with the checksum leaves no remainder and is not zero. -/
theorem checksum_stored (heven : front.length % 2 = 0)
    (hfits : wordSum front + wordSum back ≤ 4294901760) :
    checksum (front ++ (bigEndian 2 (checksum (front ++ 0 :: 0 :: back)) ++ back)) = 0 := by
  have hblank : wordSum (front ++ 0 :: 0 :: back) = wordSum front + wordSum back := by
    rw [wordSum_append heven, wordSum]
    simp
  have hsum := standsFor_foldCarry (wordSum front + wordSum back)
  have hchecksum : checksum (front ++ 0 :: 0 :: back) =
      65535 - foldCarry (wordSum front + wordSum back) := by
    rw [checksum_of_wordSum_lt (by omega), hblank]
  obtain ⟨hlt, hmod, hzero⟩ := hsum
  rw [hchecksum]
  generalize foldCarry (wordSum front + wordSum back) = sum at hlt hmod hzero ⊢
  have hstored : wordSum (front ++ (bigEndian 2 (65535 - sum) ++ back)) =
      wordSum front + (65535 - sum + wordSum back) := by
    rw [wordSum_append heven, wordSum_bigEndian (by omega)]
  rw [checksum_of_wordSum_lt (by omega), hstored]
  have hall := standsFor_foldCarry (wordSum front + (65535 - sum + wordSum back))
  have hfull : StandsFor 65535 (wordSum front + (65535 - sum + wordSum back)) :=
    ⟨by decide, by omega, by omega⟩
  rw [hall.unique hfull]

namespace EchoRequest

theorem wordSum_body_le (q : EchoRequest) (payloadSize : Nat) :
    wordSum (q.body payloadSize) ≤ 655350 := by
  have hfields := wordSum_le (bigEndian 2 q.identifier.toNat ++ bigEndian 2 q.sequence.toNat ++
    bigEndian 8 q.tracker.toNat ++ bigEndian 8 q.sentAt.toNat)
  simp only [List.length_append, length_bigEndian] at hfields
  rw [body, wordSum_append (by simp), wordSum_replicate_zero]
  omega

/-- An IPv4 request carries its checksum. The padding adds nothing to the sum, however long it is.
-/
theorem exists_encode_checksum (q : EchoRequest) {payloadSize : Nat}
    (h : leastPayload ≤ payloadSize) :
    ∃ packet, q.encode .v4 payloadSize = .ok packet ∧ checksum packet = 0 := by
  have hbody := q.wordSum_body_le payloadSize
  have hfits : wordSum [Family.v4.requestType, 0] + wordSum (q.body payloadSize) ≤ 4294901760 := by
    have htype : wordSum [Family.v4.requestType, 0] = 2048 := rfl
    omega
  refine ⟨_, ?_, checksum_stored rfl hfits⟩
  rw [encode, if_neg (by omega)]
  rfl

end EchoRequest

/-- For a string of at most 131 074 bytes no sum on the way exceeds 32 bits, bringing back the
carries ends after two rounds at most, and the checksum is the complement of the one's complement
sum of the words. If such a string has two zeros at an even place, its checksum put there gives a
string with the checksum 0; and so has every IPv4 request, whatever its length. -/
theorem checksum_complements :
    (∀ data : List UInt8, data.length ≤ 131074 →
      (∀ front, front <+: data → wordSum front < 4294967296) ∧
      (∃ k ≤ 2, (∀ j < k, 65536 ≤ carryOnce^[j] (wordSum data)) ∧
        carryOnce^[k] (wordSum data) < 65536 ∧
        foldCarry (wordSum data) = carryOnce^[k] (wordSum data)) ∧
      checksum data + onesSum data = 65535) ∧
    (∀ front back : List UInt8, front.length % 2 = 0 →
      (front ++ 0 :: 0 :: back).length ≤ 131074 →
      checksum (front ++ (bigEndian 2 (checksum (front ++ 0 :: 0 :: back)) ++ back)) = 0) ∧
    ∀ (q : EchoRequest) (payloadSize : Nat), 16 ≤ payloadSize →
      ∃ packet, q.encode .v4 payloadSize = .ok packet ∧ checksum packet = 0 := by
  refine ⟨fun data hlength => ?_, fun front back heven hlength => ?_, fun q payloadSize h => ?_⟩
  · have hfits : ∀ front, front <+: data → wordSum front < 4294967296 := by
      intro front hfront
      have hle := wordSum_le front
      have hshorter := hfront.length_le
      omega
    have hall := hfits data List.prefix_rfl
    exact ⟨hfits, exists_foldCarry_eq hall, checksum_add_onesSum hall⟩
  · refine checksum_stored heven ?_
    have hle := wordSum_le (front ++ back)
    rw [wordSum_append heven, List.length_append] at hle
    simp only [List.length_append, List.length_cons] at hlength
    omega
  · exact q.exists_encode_checksum h

/-- A string of odd length whose sum has a carry; a string of odd length that holds its checksum;
and a request that is longer than the strings whose sums are sure to fit. -/
theorem checksum_complements_odd :
    ([0xFF, 0xFE, 0x80].length ≤ 131074 ∧ checksum [0xFF, 0xFE, 0x80] = 0x8000) ∧
      ([8, 0].length % 2 = 0 ∧ ([8, 0] ++ 0 :: 0 :: [0xFF, 0xFF, 7]).length ≤ 131074 ∧
        checksum ([8, 0] ++ (bigEndian 2 (checksum ([8, 0] ++ 0 :: 0 :: [0xFF, 0xFF, 7])) ++
          [0xFF, 0xFF, 7])) = 0) ∧
      (16 ≤ 200000 ∧ ∃ packet, (EchoRequest.mk 65535 7 3 42000000).encode .v4 200000 = .ok packet ∧
        checksum packet = 0) := by
  obtain ⟨hsum, hstored, hrequest⟩ := checksum_complements
  have hones : onesSum [0xFF, 0xFE, 0x80] = 0x7FFF := by decide
  obtain ⟨-, -, hcomplement⟩ := hsum [0xFF, 0xFE, 0x80] (by decide)
  refine ⟨⟨by decide, by omega⟩, ⟨by decide, by decide, ?_⟩, by decide, ?_⟩
  · exact hstored [8, 0] [0xFF, 0xFF, 7] (by decide) (by decide)
  · exact hrequest ⟨65535, 7, 3, 42000000⟩ 200000 (by decide)

end RouteKeeper
