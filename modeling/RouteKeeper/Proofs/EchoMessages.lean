import RouteKeeper.Echo

/-!
# Reading echo messages

A reply is told by the first bytes of its datagram: an IP header of at most sixty bytes, the header
of the message, the tracker and the time. What comes after is not looked at, so it does not matter
whether a buffer holds it. And what a request carries is found again in its echo.

## Main definitions

* `StartsHeader` — a datagram starts with an IP header.
* `EchoReply.ofMessage` — what the fields of a message say.
* `EchoReply.reach` — how many bytes of a datagram are looked at.
* `EchoReply.IsForeign` — a datagram that is no reply to a prober.
* `EchoRequest.IsEcho` — a datagram that answers a request.

## Main statements

* `EchoReply.decode_eq_some_iff` — which datagrams are replies.
* `EchoReply.decode_take` — a buffer that holds the first bytes is enough.
* `EchoRequest.decode_echo` — an echo is read as what its request carries.
-/
namespace RouteKeeper

/-- A datagram starts with the first byte of an IPv4 header: the version and the number of words of
the header, which is so many bytes long. -/
def StartsHeader (bs : List UInt8) (length : Nat) : Prop :=
  ∃ b, bs.head? = some b ∧ b.toNat / 16 = 4 ∧ length = b.toNat % 16 * 4

@[simp] theorem startsHeader_cons {b : UInt8} {rest : List UInt8} {length : Nat} :
    StartsHeader (b :: rest) length ↔ b.toNat / 16 = 4 ∧ length = b.toNat % 16 * 4 := by
  simp [StartsHeader]

theorem StartsHeader.le {bs : List UInt8} {length : Nat} (h : StartsHeader bs length) :
    length ≤ 60 := by
  obtain ⟨b, -, -, rfl⟩ := h
  omega

namespace EchoReply

variable {family : Family} {bs cs message : List UInt8} {ttl : Option UInt8} {reply : EchoReply}

/-- Headers of IPv4 are taken off, and other datagrams stay. -/
theorem stripHeader_eq_ok_iff :
    stripHeader family bs = .ok (ttl, message) ↔
      ((family = .v4 → ∀ length, ¬ StartsHeader bs length) ∧ ttl = none ∧ message = bs) ∨
        ∃ length, family = .v4 ∧ StartsHeader bs length ∧ 20 ≤ length ∧ length ≤ bs.length ∧
          ttl = bs[8]? ∧ message = bs.drop length := by
  cases family with
  | v6 => simp [stripHeader, eq_comm]
  | v4 =>
    cases bs with
    | nil => simp [stripHeader, StartsHeader, eq_comm]
    | cons b rest =>
      by_cases hb : b.toNat / 16 = 4
      case neg =>
        simp only [stripHeader, hb, if_false, startsHeader_cons, Except.ok.injEq, Prod.mk.injEq,
          false_and]
        simp [eq_comm]
      case pos =>
        simp only [stripHeader, hb, if_true, startsHeader_cons]
        split
        case isTrue hshort =>
          simp only [Bool.or_eq_true, decide_eq_true_eq] at hshort
          simp only [reduceCtorEq, true_and, forall_const, false_iff]
          rintro (⟨hnone, -⟩ | ⟨length, rfl, hleast, hfits, -⟩)
          · exact hnone _ rfl
          · omega
        case isFalse hlong =>
          simp only [Bool.or_eq_true, decide_eq_true_eq, not_or, Nat.not_lt,
            List.length_cons] at hlong
          simp [hlong, eq_comm]

/-- A message of a reply has no header: its type is not the first byte of one. -/
theorem stripHeader_reply (family : Family) (rest : List UInt8) :
    stripHeader family (family.replyType :: rest) = .ok (none, family.replyType :: rest) := by
  apply stripHeader_eq_ok_iff.2
  refine .inl ⟨?_, rfl, rfl⟩
  intro hfamily length
  subst hfamily
  simp [Family.replyType]

/-- A header in front of a message is taken off, and its hop limit is kept. -/
theorem stripHeader_append {header : List UInt8} (hleast : 20 ≤ header.length)
    (hstarts : StartsHeader header header.length) (message : List UInt8) :
    stripHeader .v4 (header ++ message) = .ok (header[8]?, message) := by
  obtain ⟨b, hb, hversion⟩ := hstarts
  have hstarts' : StartsHeader (header ++ message) header.length :=
    ⟨b, by rw [List.head?_append, hb, Option.some_or], hversion⟩
  have httl : (header ++ message)[8]? = header[8]? := List.getElem?_append_left (by omega)
  apply stripHeader_eq_ok_iff.2
  exact .inr ⟨header.length, rfl, hstarts', hleast, by simp, httl.symm, by simp⟩

/-! ## Replies -/

/-- What the fields of a message say. -/
def ofMessage (ttl : Option UInt8) (message : List UInt8) : EchoReply :=
  { identifier := UInt16.ofNat (field message 4 2)
    sequence := UInt16.ofNat (field message 6 2)
    tracker := UInt64.ofNat (field message 8 8)
    sentAt := UInt64.ofNat (field message 16 8)
    ttl }

/-- A datagram is a reply if, behind its IP header, there are the type and the code of a reply and
all the fields. -/
theorem decode_eq_some_iff :
    decode family bs = .ok (some reply) ↔
      ∃ ttl message, stripHeader family bs = .ok (ttl, message) ∧
        message.take 2 = [family.replyType, 0] ∧
        echoHeaderLength + leastPayload ≤ message.length ∧ ofMessage ttl message = reply := by
  unfold decode
  cases hs : stripHeader family bs with
  | error e => simp [bind, Except.bind]
  | ok stripped =>
    obtain ⟨ttl, message⟩ := stripped
    simp only [bind, Except.bind, Except.ok.injEq, Prod.mk.injEq]
    constructor
    · intro h
      split at h
      · cases h
      · split at h
        · cases h
        · split at h
          · cases h
          · exact ⟨ttl, message, ⟨rfl, rfl⟩, by simpa using ‹¬ _ ≠ _›, by omega,
              by simpa [ofMessage] using h⟩
    · rintro ⟨ttl', message', ⟨rfl, rfl⟩, htype, hlength, rfl⟩
      rw [if_neg (by omega), if_neg (by simpa using htype), if_neg (by omega)]
      rfl

/-- The datagram is no reply, or one that carries another tracker. -/
def IsForeign (tracker : UInt64) (family : Family) (bs : List UInt8) : Prop :=
  ∀ reply, decode family bs = .ok (some reply) → reply.tracker ≠ tracker

/-! ## Datagrams that start alike -/

/-- The bytes of a datagram that are looked at: the longest IP header, the header of the message,
and the least payload. -/
def reach : Nat := 60 + echoHeaderLength + leastPayload

theorem getElem?_congr (h : cs.take reach = bs.take reach) {i : Nat} (hi : i < reach) :
    cs[i]? = bs[i]? := by
  rw [← List.getElem?_take_of_lt hi, h, List.getElem?_take_of_lt hi]

theorem le_length_congr (h : cs.take reach = bs.take reach) {n : Nat} (hn : n ≤ reach)
    (hbs : n ≤ bs.length) : n ≤ cs.length := by
  have hlength := congrArg List.length h
  simp only [List.length_take] at hlength
  omega

theorem slice_congr (h : cs.take reach = bs.take reach) {start count : Nat}
    (hreach : start + count ≤ reach) : (cs.drop start).take count = (bs.drop start).take count := by
  have hcut (l : List UInt8) :
      (l.drop start).take count = ((l.take reach).drop start).take count := by
    rw [List.drop_take, List.take_take, Nat.min_eq_left (by omega)]
  rw [hcut cs, hcut bs, h]

theorem startsHeader_congr (h : cs.take reach = bs.take reach) {length : Nat} :
    StartsHeader cs length ↔ StartsHeader bs length := by
  rw [StartsHeader, StartsHeader, List.head?_eq_getElem?, List.head?_eq_getElem?,
    getElem?_congr h (by decide)]

/-- As many bytes are taken off both, and no more than a header may have. -/
theorem stripHeader_congr (h : cs.take reach = bs.take reach)
    (hs : stripHeader family bs = .ok (ttl, message)) :
    ∃ k ≤ 60, message = bs.drop k ∧ stripHeader family cs = .ok (ttl, cs.drop k) := by
  simp only [stripHeader_eq_ok_iff, startsHeader_congr h] at hs ⊢
  rcases hs with ⟨hbare, rfl, rfl⟩ | ⟨length, hfamily, hstarts, hleast, hlength, rfl, rfl⟩
  · exact ⟨0, by omega, rfl, .inl ⟨hbare, rfl, rfl⟩⟩
  · have hle := hstarts.le
    have hreach : 60 ≤ reach := by decide
    exact ⟨length, hle, rfl, .inr ⟨length, hfamily, hstarts, hleast,
      le_length_congr h (by omega) hlength, (getElem?_congr h (by decide)).symm, rfl⟩⟩

theorem decode_congr (h : cs.take reach = bs.take reach)
    (hd : decode family bs = .ok (some reply)) : decode family cs = .ok (some reply) := by
  rw [decode_eq_some_iff] at hd ⊢
  obtain ⟨ttl, message, hs, htype, hlength, rfl⟩ := hd
  obtain ⟨k, hk, rfl, hs'⟩ := stripHeader_congr h hs
  have hreach : reach = 84 := rfl
  have hleast : echoHeaderLength + leastPayload = 24 := rfl
  have hfield {start count : Nat} (hr : start + count ≤ 24) :
      field (cs.drop k) start count = field (bs.drop k) start count := by
    rw [field, field, List.drop_drop, List.drop_drop, slice_congr h (by omega)]
  refine ⟨ttl, cs.drop k, hs', ?_, ?_, ?_⟩
  · rw [← htype, slice_congr h (by omega)]
  · rw [List.length_drop] at hlength ⊢
    have hlong := le_length_congr h (n := 24 + k) (by omega) (by omega)
    omega
  · rw [ofMessage, ofMessage, hfield (by decide), hfield (by decide), hfield (by decide),
      hfield (by decide)]

/-- A buffer that holds all the bytes that are looked at is enough. -/
theorem decode_take {size : Nat} (h : reach ≤ size) :
    decode family (bs.take size) = .ok (some reply) ↔ decode family bs = .ok (some reply) := by
  have htake : (bs.take size).take reach = bs.take reach := by
    rw [List.take_take, Nat.min_eq_left h]
  exact ⟨decode_congr htake.symm, decode_congr htake⟩

/-! ## Echoes -/

/-- The fields after the header of an echo say what its request carries. -/
theorem ofMessage_body (q : EchoRequest) (size : Nat) (a b c d : UInt8) :
    ofMessage ttl (a :: b :: c :: d :: q.body size) =
      ⟨q.identifier, q.sequence, q.tracker, q.sentAt, ttl⟩ := by
  have hbody : a :: b :: c :: d :: q.body size = [a, b, c, d] ++
      (bigEndian 2 q.identifier.toNat ++ (bigEndian 2 q.sequence.toNat ++
        (bigEndian 8 q.tracker.toNat ++ (bigEndian 8 q.sentAt.toNat ++
          List.replicate (size - leastPayload) 0)))) := by
    simp only [EchoRequest.body, List.append_assoc, List.cons_append, List.nil_append]
  simp [hbody, ofMessage, field, List.drop_append, List.drop_eq_nil_of_le]

end EchoReply

namespace EchoRequest

/-- The datagram answers a request: it brings back what the request carries. The systems on its way
may put an IPv4 header in front, and set the checksum and the identifier. -/
def IsEcho (q : EchoRequest) (family : Family) (payloadSize : Nat) (bytes : List UInt8) : Prop :=
  ∃ header identifier high low,
    (header = [] ∨ family = .v4 ∧ 20 ≤ header.length ∧ StartsHeader header header.length) ∧
      bytes = header ++ family.replyType :: 0 :: high :: low ::
        EchoRequest.body { q with identifier } payloadSize

variable {q : EchoRequest} {family : Family} {payloadSize : Nat} {bytes : List UInt8}

theorem decode_of_stripHeader {ttl : Option UInt8} {high low : UInt8}
    (hs : EchoReply.stripHeader family bytes =
      .ok (ttl, family.replyType :: 0 :: high :: low :: q.body payloadSize)) :
    EchoReply.decode family bytes =
      .ok (some ⟨q.identifier, q.sequence, q.tracker, q.sentAt, ttl⟩) := by
  refine EchoReply.decode_eq_some_iff.2 ⟨ttl, _, hs, rfl, ?_, EchoReply.ofMessage_body ..⟩
  simp only [body, echoHeaderLength, leastPayload, List.length_cons, List.length_append,
    length_bigEndian]
  omega

/-- An echo is read as what its request carries. -/
theorem decode_echo (h : q.IsEcho family payloadSize bytes) :
    ∃ identifier ttl, EchoReply.decode family bytes =
      .ok (some ⟨identifier, q.sequence, q.tracker, q.sentAt, ttl⟩) := by
  obtain ⟨header, identifier, high, low, hheader, rfl⟩ := h
  rcases hheader with rfl | ⟨rfl, hleast, hstarts⟩
  · exact ⟨identifier, none, decode_of_stripHeader (EchoReply.stripHeader_reply ..)⟩
  · exact ⟨identifier, _, decode_of_stripHeader (EchoReply.stripHeader_append hleast hstarts _)⟩

end EchoRequest

end RouteKeeper
