import RouteKeeper.Error

/-!
# Echo messages

A request carries, after the eight bytes of its header, a tracker that tells whose it is, the time
at which it was sent, and zeros up to the payload size; all numbers have their highest byte first.
A reply is the same message with another type. In front of an IPv4 reply there may be an IP
header.

## Main definitions

* `bigEndian`, `ofBigEndian` — numbers as bytes.
* `checksum` — the complement of the one's complement sum of the 16-bit words.
* `EchoRequest.encode`, `EchoReply.decode` — messages as bytes.
-/
namespace RouteKeeper

/-! ## Numbers as bytes -/

/-- A number as so many bytes, the highest first; what does not fit is cut off. -/
def bigEndian : Nat → Nat → List UInt8
  | 0, _ => []
  | k + 1, n => bigEndian k (n / 256) ++ [UInt8.ofNat n]

/-- The number that bytes stand for, the highest first. -/
def ofBigEndian (bs : List UInt8) : Nat := bs.foldl (fun n b => n * 256 + b.toNat) 0

@[simp] theorem length_bigEndian (k n : Nat) : (bigEndian k n).length = k := by
  induction k generalizing n with
  | zero => rfl
  | succ k ih => simp [bigEndian, ih]

theorem ofBigEndian_concat (bs : List UInt8) (b : UInt8) :
    ofBigEndian (bs ++ [b]) = ofBigEndian bs * 256 + b.toNat := by
  simp [ofBigEndian, List.foldl_append]

@[simp] theorem ofBigEndian_bigEndian (k n : Nat) :
    ofBigEndian (bigEndian k n) = n % (1 <<< (8 * k)) := by
  rw [Nat.one_shiftLeft, Nat.pow_mul]
  induction k generalizing n with
  | zero => simp [bigEndian, ofBigEndian, Nat.mod_one]
  | succ k ih =>
    rw [bigEndian, ofBigEndian_concat, ih, UInt8.toNat_ofNat']
    have h : n % 256 ^ (k + 1) = n % 256 + 256 * (n / 256 % 256 ^ k) := by
      rw [Nat.pow_succ, Nat.mul_comm (256 ^ k) 256, Nat.mod_mul]
    have h' : (2 : Nat) ^ 8 = 256 := rfl
    rw [h, h']
    omega

/-! ## Checksum -/

/-- The sum of the 16-bit words of a byte string; an odd last byte is the high byte of a word. -/
def wordSum : List UInt8 → Nat
  | [] => 0
  | [hi] => hi.toNat * 256
  | hi :: lo :: rest => hi.toNat * 256 + lo.toNat + wordSum rest

/-- Add what is above sixteen bits to what is below until nothing is above. -/
def foldCarry (sum : Nat) : Nat :=
  if sum < 65536 then sum else foldCarry (sum % 65536 + sum / 65536)
termination_by sum
decreasing_by omega

theorem foldCarry_lt (sum : Nat) : foldCarry sum < 65536 := by
  fun_induction foldCarry sum with
  | case1 => assumption
  | case2 _ _ ih => exact ih

/-- The internet checksum. The sum is kept in 32 bits, which 131 074 bytes cannot exceed. -/
def checksum (data : List UInt8) : Nat := 65535 - foldCarry (wordSum data % 0x100000000)

/-! ## Messages -/

/-- The bytes of the header of an echo message. -/
def echoHeaderLength : Nat := 8

/-- The smallest payload: the tracker and the time. -/
def leastPayload : Nat := 16

/-- The largest payload that fits into memory: a message has fewer than `2 ^ 63` bytes. -/
def mostPayload : Nat := 9223372036854775799

namespace Family

/-- The type byte of a request. -/
def requestType : Family → UInt8
  | v4 => 8
  | v6 => 128

/-- The type byte of a reply. -/
def replyType : Family → UInt8
  | v4 => 0
  | v6 => 129

end Family

/-- What a request carries. Times are nanoseconds since the prober was made. -/
structure EchoRequest where
  identifier : UInt16
  sequence : UInt16
  tracker : UInt64
  sentAt : UInt64
deriving DecidableEq

namespace EchoRequest

/-- The message after its checksum. -/
def body (r : EchoRequest) (payloadSize : Nat) : List UInt8 :=
  bigEndian 2 r.identifier.toNat ++ bigEndian 2 r.sequence.toNat ++ bigEndian 8 r.tracker.toNat ++
    bigEndian 8 r.sentAt.toNat ++ List.replicate (payloadSize - leastPayload) 0

/-- The bytes of a request. The checksum of IPv6 is left to the system. -/
def encode (r : EchoRequest) (family : Family) (payloadSize : Nat) :
    Except ProbeError (List UInt8) :=
  if payloadSize < leastPayload then .error (.payloadTooSmall payloadSize leastPayload)
  else
    let body := r.body payloadSize
    let sum := match family with
      | .v4 => checksum (family.requestType :: 0 :: 0 :: 0 :: body)
      | .v6 => 0
    .ok (family.requestType :: 0 :: (bigEndian 2 sum ++ body))

end EchoRequest

/-- What a reply brings back, and the hop limit left in its IP header if there was one. -/
structure EchoReply where
  identifier : UInt16
  sequence : UInt16
  tracker : UInt64
  sentAt : UInt64
  ttl : Option UInt8
deriving DecidableEq

namespace EchoReply

/-- The number in `count` bytes from `start` on. -/
def field (message : List UInt8) (start count : Nat) : Nat :=
  ofBigEndian ((message.drop start).take count)

/-- Take an IPv4 header off a datagram. A reply starts with the type zero, so a first half-byte of
four can only be that of an IP header. -/
def stripHeader (family : Family) (datagram : List UInt8) :
    Except ProbeError (Option UInt8 × List UInt8) :=
  match family, datagram with
  | .v4, b :: _ =>
    if b.toNat / 16 = 4 then
      let length := b.toNat % 16 * 4
      if length < 20 || datagram.length < length then
        .error (.malformed s!"truncated IPv4 header ({datagram.length} bytes)")
      else .ok (datagram[8]?, datagram.drop length)
    else .ok (none, datagram)
  | _, _ => .ok (none, datagram)

/-- Read a datagram as a reply; other kinds of message are no replies and no errors. -/
def decode (family : Family) (datagram : List UInt8) : Except ProbeError (Option EchoReply) := do
  let (ttl, message) ← stripHeader family datagram
  if message.length < echoHeaderLength then
    .error (.malformed s!"short ICMP message ({message.length} bytes)")
  else if message.take 2 ≠ [family.replyType, 0] then .ok none
  else if message.length < echoHeaderLength + leastPayload then
    .error (.malformed s!"echo payload too short ({message.length - echoHeaderLength} bytes)")
  else
    .ok (some
      { identifier := UInt16.ofNat (field message 4 2)
        sequence := UInt16.ofNat (field message 6 2)
        tracker := UInt64.ofNat (field message 8 8)
        sentAt := UInt64.ofNat (field message 16 8)
        ttl })

end EchoReply

end RouteKeeper
