/-!
# Reading UTF-8

A well-formed sequence is one to four bytes; which second bytes are allowed depends on the first, so
that overlong forms, surrogates and numbers past the last code point are no sequences. Where a
sequence breaks off, the bytes read so far form one ill-formed piece.
-/
namespace RouteKeeper.Text.Utf8

/-- How many continuation bytes follow a first byte, and the range of the first of them. -/
def continuation (first : Nat) : Option (Nat × Nat × Nat) :=
  if 0xC2 ≤ first && first ≤ 0xDF then some (1, 0x80, 0xBF)
  else if first = 0xE0 then some (2, 0xA0, 0xBF)
  else if first = 0xED then some (2, 0x80, 0x9F)
  else if 0xE1 ≤ first && first ≤ 0xEF then some (2, 0x80, 0xBF)
  else if first = 0xF0 then some (3, 0x90, 0xBF)
  else if 0xF1 ≤ first && first ≤ 0xF3 then some (3, 0x80, 0xBF)
  else if first = 0xF4 then some (3, 0x80, 0x8F)
  else none

/-- Read further continuation bytes into a code point; `none` where the sequence breaks off. The
bytes after what was read are returned in both cases. -/
def extend : Nat → Nat → Nat → Nat → List UInt8 → Option Nat × List UInt8
  | 0, _, _, point, rest => (some point, rest)
  | n + 1, low, high, point, b :: rest =>
    if low ≤ b.toNat && b.toNat ≤ high then extend n 0x80 0xBF (point * 64 + b.toNat % 64) rest
    else (none, b :: rest)
  | _ + 1, _, _, _, [] => (none, [])

/-- The bits of the code point that a first byte holds, for the number of bytes that follow. -/
def leadBits (first : Nat) (following : Nat) : Nat := first % (1 <<< (6 - following))

theorem length_extend_le (n low high point : Nat) (bs : List UInt8) :
    (extend n low high point bs).2.length ≤ bs.length := by
  induction n generalizing low high point bs with
  | zero => simp [extend]
  | succ n ih =>
    cases bs with
    | nil => simp [extend]
    | cons b r =>
      unfold extend
      split
      · exact Nat.le_succ_of_le (ih _ _ _ _)
      · simp

/-- Cut bytes into characters and, as `none`, ill-formed pieces. -/
def pieces : List UInt8 → List (Option Char)
  | [] => []
  | b :: rest =>
    if b.toNat < 0x80 then some (Char.ofNat b.toNat) :: pieces rest
    else
      match continuation b.toNat with
      | none => none :: pieces rest
      | some (n, low, high) =>
        (extend n low high (leadBits b.toNat n) rest).1.map Char.ofNat ::
          pieces (extend n low high (leadBits b.toNat n) rest).2
termination_by bs => bs.length
decreasing_by
  · simp
  · simp
  · have := length_extend_le n low high (leadBits b.toNat n) rest
    simp only [List.length_cons]
    omega

/-- Read bytes as text if they are well-formed throughout. -/
def decode? (bs : List UInt8) : Option (List Char) := (pieces bs).mapM id

/-- Read bytes as text, each ill-formed piece as the replacement character. -/
def decodeLossy (bs : List UInt8) : List Char := (pieces bs).map (·.getD '\uFFFD')

end RouteKeeper.Text.Utf8
