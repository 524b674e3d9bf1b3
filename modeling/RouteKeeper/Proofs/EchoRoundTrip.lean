import RouteKeeper.Proofs.EchoMessages

/-!
# Requests that come back

A peer sends a request back with the type of a reply and a checksum of its own, and the systems on
the way may put an IPv4 header in front. All that a request carries is read from what comes back,
and the hop limit is read from the header, if there is one.

## Main definitions

* `Family.reply` — the message of a request, sent back as a reply.

## Main statements

* `EchoRequest.exists_encode_eq` — the bytes of a request.
* `EchoRequest.decode_encode` — what comes back is read as what was sent.
-/
namespace RouteKeeper

/-- The message of a request as a reply: with another type, and with these bytes as the checksum. -/
def Family.reply (family : Family) (high low : UInt8) (message : List UInt8) : List UInt8 :=
  ((message.set 0 family.replyType).set 2 high).set 3 low

/-- The first byte of an IPv4 header of so many words tells its length. -/
theorem startsHeader_of_head? {header : List UInt8} {words : Nat} (hmost : words ≤ 15)
    (hhead : header.head? = some (UInt8.ofNat (0x40 + words))) :
    StartsHeader header (4 * words) := by
  have hvalue : (UInt8.ofNat (0x40 + words)).toNat = 0x40 + words := by
    apply UInt8.toNat_ofNat_of_lt'
    unfold UInt8.size
    omega
  refine ⟨_, hhead, ?_, ?_⟩
  · rw [hvalue]
    omega
  · rw [hvalue]
    omega

namespace EchoRequest

variable (q : EchoRequest) (family : Family) {payloadSize : Nat}

theorem length_body (h : leastPayload ≤ payloadSize) :
    (q.body payloadSize).length = 4 + payloadSize := by
  unfold leastPayload at h
  simp only [body, leastPayload, List.length_append, length_bigEndian, List.length_replicate]
  omega

/-- A request is its type, the code zero, a checksum and what it carries. -/
theorem exists_encode_eq (h : leastPayload ≤ payloadSize) :
    ∃ high low, q.encode family payloadSize =
      .ok (family.requestType :: 0 :: high :: low :: q.body payloadSize) := by
  have hsum (sum : Nat) : ∃ high low, bigEndian 2 sum = [high, low] := ⟨_, _, rfl⟩
  unfold encode
  rw [if_neg (by omega)]
  cases family with
  | v4 =>
    obtain ⟨high, low, hbytes⟩ :=
      hsum (checksum (Family.v4.requestType :: 0 :: 0 :: 0 :: q.body payloadSize))
    refine ⟨high, low, ?_⟩
    simp only [hbytes, List.cons_append, List.nil_append]
  | v6 =>
    obtain ⟨high, low, hbytes⟩ := hsum 0
    refine ⟨high, low, ?_⟩
    simp only [hbytes, List.cons_append, List.nil_append]

variable {q family}

/-- Without a header, a reply is read as what its request carries. -/
theorem decode_reply (high low : UInt8) :
    EchoReply.decode family (family.replyType :: 0 :: high :: low :: q.body payloadSize) =
      .ok (some ⟨q.identifier, q.sequence, q.tracker, q.sentAt, none⟩) :=
  decode_of_stripHeader (EchoReply.stripHeader_reply ..)

/-- Behind a header, a reply is read as what its request carries and the hop limit of the header. -/
theorem decode_append_reply {header : List UInt8} {words : Nat} (hleast : 5 ≤ words)
    (hmost : words ≤ 15) (hlength : header.length = 4 * words)
    (hhead : header.head? = some (UInt8.ofNat (0x40 + words))) (high low : UInt8) :
    EchoReply.decode .v4
        (header ++ Family.v4.replyType :: 0 :: high :: low :: q.body payloadSize) =
      .ok (some ⟨q.identifier, q.sequence, q.tracker, q.sentAt, header[8]?⟩) := by
  have hstarts : StartsHeader header header.length := by
    rw [hlength]
    exact startsHeader_of_head? hmost hhead
  apply decode_of_stripHeader
  apply EchoReply.stripHeader_append _ hstarts
  omega

/-- A request with a payload that has room for what it carries can be written, and no other. Sent
back as a reply it has the same length, and is read as what was sent: without a hop limit when it
arrives bare, and with that of the header when it arrives behind an IPv4 header of five to fifteen
words, whatever else stands in the header. -/
theorem decode_encode (q : EchoRequest) (family : Family) (payloadSize : Nat) :
    (payloadSize < 16 →
      q.encode family payloadSize = .error (.payloadTooSmall payloadSize 16)) ∧
    (16 ≤ payloadSize → ∃ message, q.encode family payloadSize = .ok message ∧ ∀ high low,
      (family.reply high low message).length = 8 + payloadSize ∧
      EchoReply.decode family (family.reply high low message) =
        .ok (some ⟨q.identifier, q.sequence, q.tracker, q.sentAt, none⟩) ∧
      (family = .v4 → ∀ (words : Nat) (header : List UInt8), 5 ≤ words → words ≤ 15 →
        header.length = 4 * words → header.head? = some (UInt8.ofNat (0x40 + words)) →
        ∃ ttl, header[8]? = some ttl ∧
          EchoReply.decode .v4 (header ++ family.reply high low message) =
            .ok (some ⟨q.identifier, q.sequence, q.tracker, q.sentAt, some ttl⟩))) := by
  constructor
  · intro hshort
    unfold encode leastPayload
    rw [if_pos hshort]
  · intro hleast
    obtain ⟨a, b, hencode⟩ := q.exists_encode_eq family hleast
    refine ⟨_, hencode, ?_⟩
    intro high low
    have hreply : family.reply high low
        (family.requestType :: 0 :: a :: b :: q.body payloadSize) =
          family.replyType :: 0 :: high :: low :: q.body payloadSize := rfl
    rw [hreply]
    refine ⟨?_, decode_reply high low, ?_⟩
    · simp only [List.length_cons, q.length_body hleast]
      omega
    · intro hfamily words header hfew hmany hlength hhead
      subst hfamily
      have hlimit : 8 < header.length := by omega
      refine ⟨header[8], List.getElem?_eq_getElem hlimit, ?_⟩
      rw [decode_append_reply hfew hmany hlength hhead, List.getElem?_eq_getElem hlimit]

/-- A request with the largest numbers comes back behind a header of six words with options. -/
theorem decode_encode_optioned :
    let q : EchoRequest := ⟨65535, 65535, 18446744073709551615, 42000000⟩
    let header : List UInt8 :=
      [0x46, 1, 2, 3, 4, 5, 6, 7, 61, 9, 10, 11, 12, 13, 14, 15, 16, 17, 18, 19, 69, 79, 0, 255]
    (15 < 16 ∧ q.encode .v6 15 = .error (.payloadTooSmall 15 16)) ∧
    16 ≤ 24 ∧ header.length = 4 * 6 ∧ header.head? = some (UInt8.ofNat (0x40 + 6)) ∧
    ∃ message, q.encode .v4 24 = .ok message ∧
      (Family.v4.reply 0x45 0 message).length = 8 + 24 ∧
      EchoReply.decode .v4 (header ++ Family.v4.reply 0x45 0 message) =
        .ok (some ⟨65535, 65535, 18446744073709551615, 42000000, some 61⟩) := by
  intro q header
  have hlength : header.length = 4 * 6 := rfl
  have hhead : header.head? = some (UInt8.ofNat (0x40 + 6)) := rfl
  refine ⟨⟨by decide, (decode_encode q .v6 15).1 (by decide)⟩, by decide, hlength, hhead, ?_⟩
  obtain ⟨message, hencode, hreplies⟩ := (decode_encode q .v4 24).2 (by decide)
  obtain ⟨hmessage, -, hheaders⟩ := hreplies 0x45 0
  obtain ⟨ttl, httl, hdecode⟩ := hheaders rfl 6 header (by decide) (by decide) hlength hhead
  have hlimit : ttl = 61 := (Option.some.inj httl).symm
  subst hlimit
  exact ⟨message, hencode, hmessage, hdecode⟩

end EchoRequest

end RouteKeeper
