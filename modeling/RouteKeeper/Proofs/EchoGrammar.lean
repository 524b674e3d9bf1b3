import Mathlib.Data.List.Induction
import RouteKeeper.Proofs.EchoRoundTrip

/-!
# Which datagrams are replies

What comes from a socket may be any bytes. A datagram of IPv4 whose first half-byte is four has an
IP header in front, and the same byte says how many words it has; the message is what comes after.
Every datagram is malformed, no reply, or a reply, depending on a few lengths and on the first two
bytes of the message. No read goes past the end: reading byte by byte, with every place checked
against the length, comes to the same.

## Main definitions

* `EchoReply.headerLength?`, `EchoReply.messageOf`, `EchoReply.hopLimit?` — the parts of a datagram.
* `EchoReply.HeaderFits`, `EchoReply.IsReply`, `EchoReply.Lays` — the grammar of replies.
* `EchoReply.readBytes?` — reading by places, undefined where a place is past the end.

## Main statements

* `EchoReply.readBytes?_eq` — no place is past the end.
* `EchoReply.decode_grammar` — a datagram is read as the grammar says.
-/
namespace RouteKeeper.EchoReply

variable {family : Family} {bs message : List UInt8} {ttl : Option UInt8} {reply : EchoReply}
  {length : Nat}

/-! ## The parts of a datagram -/

/-- The length of the IP header in front of a message, if the datagram starts with one: it has so
many words of four bytes as the low half of its first byte says. -/
def headerLength? (family : Family) (bs : List UInt8) : Option Nat :=
  if family = .v4 then
    (bs.head?.filter fun b => b.toNat / 16 = 4).map fun b => 4 * (b.toNat % 16)
  else none

/-- The message of a datagram, behind the IP header. -/
def messageOf (family : Family) (bs : List UInt8) : List UInt8 :=
  bs.drop ((headerLength? family bs).getD 0)

/-- The hop limit in the IP header. -/
def hopLimit? (family : Family) (bs : List UInt8) : Option UInt8 :=
  (headerLength? family bs).bind fun _ => bs[8]?

/-- The IP header, if there is one, has its fixed fields and is there as a whole. -/
def HeaderFits (family : Family) (bs : List UInt8) : Prop :=
  ∀ length, headerLength? family bs = some length → 20 ≤ length ∧ length ≤ bs.length

/-- The message starts with the type of a reply and the code zero. -/
def IsReply (family : Family) (message : List UInt8) : Prop :=
  message.take 2 = [family.replyType, 0]

/-- The bytes of a message whose fields say what a reply holds: type, code and checksum, then the
four numbers, then anything. -/
def Lays (family : Family) (message : List UInt8) (reply : EchoReply) : Prop :=
  ∃ high low rest, message = family.replyType :: 0 :: high :: low ::
    (bigEndian 2 reply.identifier.toNat ++ (bigEndian 2 reply.sequence.toNat ++
      (bigEndian 8 reply.tracker.toNat ++ (bigEndian 8 reply.sentAt.toNat ++ rest))))

theorem headerLength?_eq_some_iff :
    headerLength? family bs = some length ↔ family = .v4 ∧ StartsHeader bs length := by
  unfold headerLength? StartsHeader
  split
  case isTrue hfamily =>
    simp only [Option.map_eq_some_iff, Option.filter_eq_some_iff, decide_eq_true_eq, hfamily,
      true_and]
    constructor
    · rintro ⟨b, ⟨hb, hversion⟩, rfl⟩
      exact ⟨b, hb, hversion, Nat.mul_comm ..⟩
    · rintro ⟨b, hb, hversion, rfl⟩
      exact ⟨b, ⟨hb, hversion⟩, Nat.mul_comm ..⟩
  case isFalse hfamily => simp [hfamily]

theorem headerLength?_eq_none_iff :
    headerLength? family bs = none ↔ (family = .v4 → ∀ length, ¬ StartsHeader bs length) := by
  simp only [Option.eq_none_iff_forall_ne_some, Ne, headerLength?_eq_some_iff, not_and]
  exact forall_comm

/-- The hop limit is there, if the header is. -/
theorem exists_hopLimit? (hfits : HeaderFits family bs) (h : headerLength? family bs = some length) :
    ∃ ttl, hopLimit? family bs = some ttl := by
  obtain ⟨hleast, hlength⟩ := hfits length h
  have hplace : 8 < bs.length := by omega
  exact ⟨bs[8], by rw [hopLimit?, h, Option.bind_some, List.getElem?_eq_getElem hplace]⟩

/-- The header is taken off if it fits. -/
theorem stripHeader_of_headerFits (h : HeaderFits family bs) :
    stripHeader family bs = .ok (hopLimit? family bs, messageOf family bs) := by
  apply stripHeader_eq_ok_iff.2
  cases hlength : headerLength? family bs with
  | none =>
    refine .inl ⟨headerLength?_eq_none_iff.1 hlength, ?_, ?_⟩
    · rw [hopLimit?, hlength, Option.bind_none]
    · rw [messageOf, hlength, Option.getD_none, List.drop_zero]
  | some length =>
    obtain ⟨hfamily, hstarts⟩ := headerLength?_eq_some_iff.1 hlength
    obtain ⟨hleast, hmost⟩ := h length hlength
    refine .inr ⟨length, hfamily, hstarts, hleast, hmost, ?_, ?_⟩
    · rw [hopLimit?, hlength, Option.bind_some]
    · rw [messageOf, hlength, Option.getD_some]

/-- A header that does not fit is refused. -/
theorem stripHeader_of_not_headerFits (h : ¬ HeaderFits family bs) :
    stripHeader family bs = .error (.malformed s!"truncated IPv4 header ({bs.length} bytes)") := by
  simp only [HeaderFits, Classical.not_forall] at h
  obtain ⟨length, hlength, hshort⟩ := h
  obtain ⟨rfl, hstarts⟩ := headerLength?_eq_some_iff.1 hlength
  cases bs with
  | nil => simp [StartsHeader] at hstarts
  | cons b rest =>
    obtain ⟨hversion, rfl⟩ := startsHeader_cons.1 hstarts
    have hcut : (b.toNat % 16 * 4 < 20 || (b :: rest).length < b.toNat % 16 * 4) = true := by
      simp only [Bool.or_eq_true, decide_eq_true_eq]
      omega
    simp only [stripHeader, if_pos hversion, if_pos hcut]

/-! ## Reading by places -/

/-- The number in `count` bytes from `start` on, if the message has all of them. -/
def field? (message : List UInt8) (start count : Nat) : Option Nat :=
  if start + count ≤ message.length then some (field message start count) else none

/-- What is left without the first bytes, if there are so many. -/
def drop? (count : Nat) (bs : List UInt8) : Option (List UInt8) :=
  if count ≤ bs.length then some (bs.drop count) else none

/-- Read a message, with every place checked against its length. -/
def readMessage? (family : Family) (ttl : Option UInt8) (message : List UInt8) :
    Option (Except ProbeError (Option EchoReply)) :=
  if message.length < 8 then
    some (.error (.malformed s!"short ICMP message ({message.length} bytes)"))
  else do
    let type ← message[0]?
    let code ← message[1]?
    if type ≠ family.replyType ∨ code ≠ 0 then some (.ok none)
    else if message.length < 24 then
      some (.error (.malformed s!"echo payload too short ({message.length - 8} bytes)"))
    else do
      let identifier ← field? message 4 2
      let sequence ← field? message 6 2
      let tracker ← field? message 8 8
      let sentAt ← field? message 16 8
      some (.ok (some ⟨.ofNat identifier, .ofNat sequence, .ofNat tracker, .ofNat sentAt, ttl⟩))

/-- Read a datagram, with every place checked against its length. -/
def readBytes? (family : Family) (bs : List UInt8) :
    Option (Except ProbeError (Option EchoReply)) :=
  match headerLength? family bs with
  | none => readMessage? family none bs
  | some length =>
    if length < 20 ∨ bs.length < length then
      some (.error (.malformed s!"truncated IPv4 header ({bs.length} bytes)"))
    else do
      let ttl ← bs[8]?
      let message ← drop? length bs
      readMessage? family (some ttl) message

/-- What is left behind the header decides. -/
theorem decode_of_stripHeader_eq (h : stripHeader family bs = .ok (ttl, message)) :
    decode family bs =
      if message.length < 8 then
        .error (.malformed s!"short ICMP message ({message.length} bytes)")
      else if message.take 2 ≠ [family.replyType, 0] then .ok none
      else if message.length < 24 then
        .error (.malformed s!"echo payload too short ({message.length - 8} bytes)")
      else .ok (some (ofMessage ttl message)) := by
  rw [decode, h]
  rfl

/-- All places of a message that are read are in it. -/
theorem readMessage?_eq (h : stripHeader family bs = .ok (ttl, message)) :
    readMessage? family ttl message = some (decode family bs) := by
  rw [decode_of_stripHeader_eq h, readMessage?]
  by_cases hshort : message.length < 8
  · rw [if_pos hshort, if_pos hshort]
  rw [if_neg hshort, if_neg hshort]
  match message, hshort with
  | a :: b :: rest, hshort =>
    have hkind : (a :: b :: rest).take 2 ≠ [family.replyType, 0] ↔
        a ≠ family.replyType ∨ b ≠ 0 := by
      simp only [List.take_succ_cons, List.take_zero, Ne, List.cons.injEq, and_true]
      exact Decidable.not_and_iff_not_or_not
    simp only [List.getElem?_cons_zero, List.getElem?_cons_succ, Option.bind_eq_bind,
      Option.bind_some, hkind]
    split
    · rfl
    · split
      · rfl
      · have hfields : ∀ {start count}, start + count ≤ 24 →
            field? (a :: b :: rest) start count = some (field (a :: b :: rest) start count) :=
          fun hplace => if_pos (by omega)
        simp only [hfields (show 4 + 2 ≤ 24 by decide), hfields (show 6 + 2 ≤ 24 by decide),
          hfields (show 8 + 8 ≤ 24 by decide), hfields (show 16 + 8 ≤ 24 by decide),
          Option.bind_some]
        rfl
  | [], hshort | [_], hshort => simp at hshort

/-- All places of a datagram that are read are in it. -/
theorem readBytes?_eq (family : Family) (bs : List UInt8) :
    readBytes? family bs = some (decode family bs) := by
  rw [readBytes?]
  cases hlength : headerLength? family bs with
  | none =>
    refine readMessage?_eq (stripHeader_eq_ok_iff.2 (.inl ⟨?_, rfl, rfl⟩))
    exact headerLength?_eq_none_iff.1 hlength
  | some length =>
    by_cases hcut : length < 20 ∨ bs.length < length
    · have hnot : ¬ HeaderFits family bs := fun hfits => by
        have := hfits length hlength
        omega
      have hdecode := stripHeader_of_not_headerFits hnot
      simp only [if_pos hcut, decode, hdecode]
      rfl
    · have hfits : HeaderFits family bs := by
        intro length' hlength'
        rw [hlength] at hlength'
        cases hlength'
        omega
      obtain ⟨ttl, httl⟩ := exists_hopLimit? hfits hlength
      have hstrip := stripHeader_of_headerFits hfits
      rw [httl, messageOf, hlength, Option.getD_some] at hstrip
      rw [hopLimit?, hlength, Option.bind_some] at httl
      have hmost : length ≤ bs.length := by omega
      simp only [if_neg hcut, httl, drop?, if_pos hmost, Option.bind_eq_bind, Option.bind_some]
      exact readMessage?_eq hstrip

/-! ## The grammar -/

/-- Bytes are the digits of the number that they stand for. -/
theorem bigEndian_ofBigEndian (bs : List UInt8) :
    bigEndian bs.length (ofBigEndian bs) = bs := by
  induction bs using List.reverseRecOn with
  | nil => rfl
  | append_singleton bs b ih =>
    have hb := b.toNat_lt
    have hlow : UInt8.ofNat (ofBigEndian bs * 256 + b.toNat) = b := by
      apply UInt8.toNat.inj
      rw [UInt8.toNat_ofNat']
      omega
    rw [List.length_append, List.length_singleton, bigEndian, ofBigEndian_concat, hlow,
      show (ofBigEndian bs * 256 + b.toNat) / 256 = ofBigEndian bs by omega, ih]

theorem ofBigEndian_lt (bs : List UInt8) : ofBigEndian bs < 1 <<< (8 * bs.length) := by
  have h := ofBigEndian_bigEndian bs.length (ofBigEndian bs)
  rw [bigEndian_ofBigEndian] at h
  rw [h]
  exact Nat.mod_lt _ (by rw [Nat.one_shiftLeft]; exact Nat.two_pow_pos _)

/-- Two bytes are the digits of the 16-bit number that is read from them. -/
theorem bigEndian_toNat_uint16 {bs : List UInt8} (h : bs.length = 2) :
    bigEndian 2 (UInt16.ofNat (ofBigEndian bs)).toNat = bs := by
  have hlt := ofBigEndian_lt bs
  rw [h] at hlt
  rw [UInt16.toNat_ofNat_of_lt' hlt, ← h, bigEndian_ofBigEndian]

/-- Eight bytes are the digits of the 64-bit number that is read from them. -/
theorem bigEndian_toNat_uint64 {bs : List UInt8} (h : bs.length = 8) :
    bigEndian 8 (UInt64.ofNat (ofBigEndian bs)).toNat = bs := by
  have hlt := ofBigEndian_lt bs
  rw [h] at hlt
  rw [UInt64.toNat_ofNat_of_lt' hlt, ← h, bigEndian_ofBigEndian]

/-- The layout says what the fields say, and that there are enough bytes for them. -/
theorem lays_iff : Lays family message reply ↔
    IsReply family message ∧ 24 ≤ message.length ∧ ofMessage reply.ttl message = reply := by
  constructor
  · rintro ⟨high, low, rest, rfl⟩
    refine ⟨rfl, ?_, ?_⟩
    · simp only [List.length_cons, List.length_append, length_bigEndian]
      omega
    · simp [ofMessage, field, List.drop_append, List.drop_eq_nil_of_le]
  · rintro ⟨hkind, hlength, hfields⟩
    rcases message with _ | ⟨a, _ | ⟨b, _ | ⟨high, _ | ⟨low, tail⟩⟩⟩⟩
    iterate 4 simp at hlength
    simp only [List.length_cons] at hlength
    simp only [IsReply, List.take_succ_cons, List.take_zero, List.cons.injEq, and_true] at hkind
    obtain ⟨rfl, rfl⟩ := hkind
    have hcut : ∀ i n, tail.drop i = (tail.drop i).take n ++ tail.drop (i + n) := by
      intro i n
      rw [← List.drop_drop, List.take_append_drop]
    have hslice : ∀ i n, i + n ≤ 20 → ((tail.drop i).take n).length = n := by
      intro i n hin
      rw [List.length_take, List.length_drop]
      omega
    obtain ⟨identifier, sequence, tracker, sentAt, ttl⟩ := reply
    simp only [ofMessage, field, List.drop_succ_cons, EchoReply.mk.injEq, and_true] at hfields
    obtain ⟨rfl, rfl, rfl, rfl⟩ := hfields
    refine ⟨high, low, tail.drop 20, ?_⟩
    rw [bigEndian_toNat_uint16 (hslice 0 2 (by decide)),
      bigEndian_toNat_uint16 (hslice 2 2 (by decide)),
      bigEndian_toNat_uint64 (hslice 4 8 (by decide)),
      bigEndian_toNat_uint64 (hslice 12 8 (by decide)), ← hcut 12 8, ← hcut 4 8, ← hcut 2 2,
      ← hcut 0 2, List.drop_zero]

theorem decode_of_headerFits (h : HeaderFits family bs) :
    decode family bs =
      if (messageOf family bs).length < 8 then
        .error (.malformed s!"short ICMP message ({(messageOf family bs).length} bytes)")
      else if (messageOf family bs).take 2 ≠ [family.replyType, 0] then .ok none
      else if (messageOf family bs).length < 24 then
        .error (.malformed
          s!"echo payload too short ({(messageOf family bs).length - 8} bytes)")
      else .ok (some (ofMessage (hopLimit? family bs) (messageOf family bs))) :=
  decode_of_stripHeader_eq (stripHeader_of_headerFits h)

theorem decode_of_not_headerFits (h : ¬ HeaderFits family bs) :
    decode family bs =
      .error (.malformed s!"truncated IPv4 header ({bs.length} bytes)") := by
  rw [decode, stripHeader_of_not_headerFits h]
  rfl

/-- Every datagram is read, without a read past its end. It is malformed if its IP header does not
fit, if the message is shorter than a header of its own, or if the message is of the kind of a reply
and too short for the fields; no reply if the message is of another kind; and else the reply whose
fields the message lays out, with the hop limit of the IP header if there is one. -/
theorem decode_grammar (family : Family) (bs : List UInt8) :
    readBytes? family bs = some (decode family bs) ∧
    ((∃ reason, decode family bs = .error (.malformed reason)) ↔
      ¬ HeaderFits family bs ∨ (messageOf family bs).length < 8 ∨
        IsReply family (messageOf family bs) ∧ (messageOf family bs).length < 24) ∧
    (decode family bs = .ok none ↔
      HeaderFits family bs ∧ 8 ≤ (messageOf family bs).length ∧
        ¬ IsReply family (messageOf family bs)) ∧
    ((∃ reply, decode family bs = .ok (some reply)) ↔
      HeaderFits family bs ∧ IsReply family (messageOf family bs) ∧
        24 ≤ (messageOf family bs).length) ∧
    ∀ reply, decode family bs = .ok (some reply) ↔
      HeaderFits family bs ∧ Lays family (messageOf family bs) reply ∧
        reply.ttl = hopLimit? family bs := by
  refine ⟨readBytes?_eq family bs, ?_⟩
  by_cases hfits : HeaderFits family bs
  case neg => simp [decode_of_not_headerFits hfits, hfits]
  case pos =>
    rw [decode_of_headerFits hfits]
    simp only [hfits, not_true_eq_false, false_or, true_and, IsReply, lays_iff]
    generalize messageOf family bs = message
    by_cases hshort : message.length < 8
    · have hleast : ¬ 8 ≤ message.length := Nat.not_le.2 hshort
      have hlong : ¬ 24 ≤ message.length := by omega
      simp [hshort, hleast, hlong]
    have hleast := Nat.not_lt.1 hshort
    by_cases hkind : message.take 2 = [family.replyType, 0]
    case neg => simp [hshort, hkind, hleast]
    case pos =>
      by_cases hbrief : message.length < 24
      · have hlong : ¬ 24 ≤ message.length := Nat.not_le.2 hbrief
        simp [hshort, hkind, hbrief, hlong]
      · have hlong := Nat.not_lt.1 hbrief
        have hfields : ∀ reply, ofMessage (hopLimit? family bs) message = reply ↔
            ofMessage reply.ttl message = reply ∧ reply.ttl = hopLimit? family bs := by
          intro reply
          constructor
          · rintro rfl
            exact ⟨rfl, rfl⟩
          · rintro ⟨hmessage, httl⟩
            rwa [httl] at hmessage
        have hreply : ∃ reply, ofMessage reply.ttl message = reply ∧
            reply.ttl = hopLimit? family bs :=
          ⟨ofMessage (hopLimit? family bs) message, rfl, rfl⟩
        simp [hshort, hkind, hbrief, hlong, hfields, hreply]

end RouteKeeper.EchoReply
