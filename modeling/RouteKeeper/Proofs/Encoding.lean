import RouteKeeper.Text.Utf8

/-!
# Texts as bytes

The bytes of a text in UTF-8 are well-formed, and reading them gives the text. A character takes one
to four bytes; the first of them says how many, and each of the others holds six bits of it.

## Main statements

* `Text.Utf8.pieces_utf8EncodeChar_append` — one character is read back.
* `Text.Utf8.decode?_toByteArray` — a text is read back.
-/
namespace RouteKeeper.Text.Utf8

theorem toNat_ofNat {n : Nat} (h : n < 256) : (UInt8.ofNat n).toNat = n := by
  rw [UInt8.toNat_ofNat', Nat.mod_eq_of_lt h]

/-- A byte that follows the first adds six bits, if it is in the range. -/
theorem extend_cons {n low high point bits : Nat} {rest : List UInt8}
    (hlow : low ≤ bits % 64 + 128) (hhigh : bits % 64 + 128 ≤ high) :
    extend (n + 1) low high point (UInt8.ofNat (bits % 64 + 128) :: rest) =
      extend n 128 191 (point * 64 + bits % 64) rest := by
  have hbyte : (UInt8.ofNat (bits % 64 + 128)).toNat = bits % 64 + 128 := toNat_ofNat (by omega)
  have hbits : (bits % 64 + 128) % 64 = bits % 64 := by omega
  rw [extend, hbyte, hbits, if_pos]
  simp only [hlow, hhigh, decide_true, Bool.and_self]

/-! ## First bytes -/

section FirstBytes

variable {v : Nat}

/-- The first byte of a character from 128 on allows any second byte. -/
theorem continuation_two (hleast : 0x7F < v) (hmost : v ≤ 0x7FF) :
    continuation (v / 64 % 32 + 192) = some (1, 128, 191) := by
  simp only [continuation, Bool.and_eq_true, decide_eq_true_eq]
  rw [if_pos (by omega)]

/-- The first byte of a character from 2048 on allows its second byte, as it is no surrogate. -/
theorem continuation_three (hleast : 0x7FF < v) (hmost : v ≤ 0xFFFF)
    (hvalid : v < 0xD800 ∨ 0xDFFF < v) :
    ∃ low high, continuation (v / 4096 % 16 + 224) = some (2, low, high) ∧
      low ≤ v / 64 % 64 + 128 ∧ v / 64 % 64 + 128 ≤ high := by
  simp only [continuation, Bool.and_eq_true, decide_eq_true_eq]
  rw [if_neg (by omega)]
  split
  · exact ⟨_, _, rfl, by omega, by omega⟩
  · split
    · exact ⟨_, _, rfl, by omega, by omega⟩
    · exact ⟨_, _, if_pos (by omega), by omega, by omega⟩

/-- The first byte of a character from 65536 on allows its second byte. -/
theorem continuation_four (hleast : 0xFFFF < v) (hmost : v < 0x110000) :
    ∃ low high, continuation (v / 262144 % 8 + 240) = some (3, low, high) ∧
      low ≤ v / 4096 % 64 + 128 ∧ v / 4096 % 64 + 128 ≤ high := by
  simp only [continuation, Bool.and_eq_true, decide_eq_true_eq]
  rw [if_neg (by omega), if_neg (by omega), if_neg (by omega), if_neg (by omega)]
  split
  · exact ⟨_, _, rfl, by omega, by omega⟩
  · split
    · exact ⟨_, _, rfl, by omega, by omega⟩
    · exact ⟨_, _, if_pos (by omega), by omega, by omega⟩

end FirstBytes

/-! ## Characters -/

/-- A first byte that more bytes follow makes a character with them. -/
theorem pieces_of_extend {first n low high point : Nat} {bs rest : List UInt8} {c : Char}
    (hfirst : 128 ≤ first ∧ first < 256) (hcontinuation : continuation first = some (n, low, high))
    (hextend : extend n low high (leadBits first n) bs = (some point, rest))
    (hpoint : point = c.toNat) : pieces (UInt8.ofNat first :: bs) = some c :: pieces rest := by
  rw [pieces, toNat_ofNat hfirst.2, if_neg (Nat.not_lt.2 hfirst.1), hcontinuation]
  dsimp only
  rw [hextend, Option.map_some, hpoint, Char.ofNat_toNat]

/-- The bytes of one character are read as the character. -/
theorem pieces_utf8EncodeChar_append (c : Char) (rest : List UInt8) :
    pieces (String.utf8EncodeChar c ++ rest) = some c :: pieces rest := by
  have hvalid : c.toNat < 0xD800 ∨ (0xDFFF < c.toNat ∧ c.toNat < 0x110000) := c.valid
  fun_cases String.utf8EncodeChar c
  case case1 v hone =>
    change c.toNat ≤ 0x7F at hone
    change pieces (UInt8.ofNat c.toNat :: rest) = _
    rw [pieces, toNat_ofNat (by omega), if_pos (by omega), Char.ofNat_toNat]
  case case2 v hone htwo =>
    change ¬ c.toNat ≤ 0x7F at hone
    change c.toNat ≤ 0x7FF at htwo
    have hfirst := continuation_two (Nat.lt_of_not_le hone) htwo
    refine pieces_of_extend (by omega) hfirst (extend_cons (by omega) (by omega)) ?_
    have hv : v = c.toNat := rfl
    simp only [leadBits, Nat.reduceSub, Nat.reduceShiftLeft]
    omega
  case case3 v _ htwo hthree =>
    change ¬ c.toNat ≤ 0x7FF at htwo
    change c.toNat ≤ 0xFFFF at hthree
    obtain ⟨low, high, hfirst, hlow, hhigh⟩ :=
      continuation_three (Nat.lt_of_not_le htwo) hthree (hvalid.imp_right And.left)
    refine pieces_of_extend (by omega) hfirst
      ((extend_cons hlow hhigh).trans (extend_cons (by omega) (by omega))) ?_
    have hv : v = c.toNat := rfl
    simp only [leadBits, Nat.reduceSub, Nat.reduceShiftLeft]
    omega
  case case4 v _ _ hthree =>
    change ¬ c.toNat ≤ 0xFFFF at hthree
    obtain ⟨low, high, hfirst, hlow, hhigh⟩ :=
      continuation_four (Nat.lt_of_not_le hthree) (by omega)
    refine pieces_of_extend (by omega) hfirst ((extend_cons hlow hhigh).trans
      ((extend_cons (by omega) (by omega)).trans (extend_cons (by omega) (by omega)))) ?_
    have hv : v = c.toNat := rfl
    simp only [leadBits, Nat.reduceSub, Nat.reduceShiftLeft]
    omega

/-! ## Texts -/

/-- The bytes of a text. -/
theorem toList_toByteArray (s : String) :
    s.toByteArray.data.toList = s.toList.flatMap String.utf8EncodeChar := by
  rw [← String.utf8Encode_toList]
  exact List.toList_data_toByteArray

/-- A text is read back from its bytes. -/
theorem decode?_toByteArray (s : String) :
    decode? s.toByteArray.data.toList = some s.toList := by
  rw [toList_toByteArray, decode?]
  induction s.toList with
  | nil =>
    rw [List.flatMap_nil, pieces]
    rfl
  | cons c cs ih =>
    rw [List.flatMap_cons, pieces_utf8EncodeChar_append, List.mapM_cons, ih]
    rfl

end RouteKeeper.Text.Utf8
