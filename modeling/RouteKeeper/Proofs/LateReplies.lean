import RouteKeeper.Proofs.Rounds

/-!
# Late replies

The network may keep a message for as long as it likes, deliver it twice, out of order or not at
all, and what a round leaves unread waits at the socket for a later one. But peers send back what
they were sent, with the number of the round, and the numbers of two rounds are the same only if
these are a multiple of 65536 rounds apart. So a reply that is less late than that is counted in its
own round or not at all.

## Main definitions

* `Exchange` — a call of a prober, with all that happens on its sockets.
* `Prober.rounds` — the rounds of a series of calls.
* `Prober.IsAnswer`, `Prober.Echoed` — the network delivers echoes, and what is foreign.

## Main statements

* `Prober.of_getElem?_rounds` — the rounds of a prober are numbered one after the other.
* `Prober.mod_eq_of_sequence_eq` — which rounds have the same number.
* `Prober.lateReplies_uncounted` — a reply to one round is nothing to another that is near, and what
  a round counts answers its own request or that of a far one.
-/
namespace RouteKeeper

/-- A call to probe addresses: the time at which the request to each target is made, and all that
happens on the sockets until the round ends. -/
structure Exchange where
  addresses : List Address
  sentAt : Address → Nat
  trace : List SocketEvent

namespace Prober

variable {p : Prober} {run : List Exchange}

/-! ## The rounds of a prober -/

/-- The rounds of a prober that is called like this. A call without targets is no round. -/
def rounds (p : Prober) : List Exchange → List (Round × Exchange)
  | [] => []
  | e :: rest =>
    match Round.next? p e.addresses with
    | none => p.rounds rest
    | some (r, after) => (r, e) :: after.rounds rest

theorem rounds_cons_of_none {e : Exchange} (h : Round.next? p e.addresses = none) :
    p.rounds (e :: run) = p.rounds run := by
  simp only [rounds, h]

theorem rounds_cons_of_some {e : Exchange} {r : Round} {after : Prober}
    (h : Round.next? p e.addresses = some (r, after)) :
    p.rounds (e :: run) = (r, e) :: after.rounds run := by
  simp only [rounds, h]

theorem add_one_add_ofNat (number : UInt16) (i : Nat) :
    number + 1 + UInt16.ofNat i = number + UInt16.ofNat (i + 1) := by
  rw [UInt16.ofNat_add, UInt16.add_assoc, UInt16.add_comm 1]
  rfl

/-- All rounds have the identity of the prober, and are numbered one after the other. -/
theorem of_getElem?_rounds {i : Nat} {r : Round} {e : Exchange}
    (h : (p.rounds run)[i]? = some (r, e)) :
    r.sequence = p.sequence + 1 + UInt16.ofNat i ∧ r.tracker = p.tracker ∧
      r.payloadSize = p.payloadSize ∧ e ∈ run := by
  induction run generalizing p i with
  | nil => simp [rounds] at h
  | cons first rest ih =>
    cases hnext : Round.next? p first.addresses with
    | none =>
      rw [rounds_cons_of_none hnext] at h
      obtain ⟨hsequence, htracker, hsize, he⟩ := ih h
      exact ⟨hsequence, htracker, hsize, List.mem_cons_of_mem _ he⟩
    | some next =>
      obtain ⟨r₁, after⟩ := next
      rw [rounds_cons_of_some hnext] at h
      obtain ⟨-, hsequence₁, htracker₁, -, hsize₁, -, rfl⟩ := next?_eq_some hnext
      cases i with
      | zero =>
        simp only [List.getElem?_cons_zero, Option.some.injEq, Prod.mk.injEq] at h
        obtain ⟨rfl, rfl⟩ := h
        exact ⟨by simpa using hsequence₁, htracker₁, hsize₁, List.mem_cons_self⟩
      | succ i =>
        obtain ⟨hsequence, htracker, hsize, he⟩ := ih h
        exact ⟨hsequence.trans (add_one_add_ofNat (p.sequence + 1) i), htracker, hsize,
          List.mem_cons_of_mem _ he⟩

/-- Two rounds have one number only if they are a multiple of 65536 rounds apart. -/
theorem mod_eq_of_sequence_eq {i j : Nat} {r r' : Round} {e e' : Exchange}
    (hi : (p.rounds run)[i]? = some (r, e)) (hj : (p.rounds run)[j]? = some (r', e'))
    (h : r.sequence = r'.sequence) : i % 65536 = j % 65536 := by
  rw [(of_getElem?_rounds hi).1, (of_getElem?_rounds hj).1, UInt16.add_right_inj] at h
  simpa using congrArg UInt16.toNat h

/-- If every call has targets, every call is a round. -/
theorem getElem?_rounds (h : ∀ e ∈ run, p.targets e.addresses ≠ []) (i : Nat) :
    (p.rounds run)[i]? = run[i]?.bind fun e =>
      (Round.next? { p with sequence := p.sequence + UInt16.ofNat i } e.addresses).map
        fun next => (next.1, e) := by
  induction run generalizing p i with
  | nil => rfl
  | cons first rest ih =>
    have hfirst := h first List.mem_cons_self
    cases hnext : Round.next? p first.addresses with
    | none => exact absurd (next?_eq_none_iff.1 hnext) hfirst
    | some next =>
      obtain ⟨r, after⟩ := next
      rw [rounds_cons_of_some hnext]
      obtain ⟨-, -, -, -, -, -, rfl⟩ := next?_eq_some hnext
      cases i with
      | zero => simp [hnext]
      | succ i =>
        have hi := ih (p := { p with sequence := p.sequence + 1 })
          (fun e he => h e (List.mem_cons_of_mem _ he)) i
        rw [add_one_add_ofNat] at hi
        exact hi

/-! ## What the network delivers -/

/-- A datagram echoes the request that left for an address in a round and was made at a time. -/
def IsAnswer (p : Prober) (run : List Exchange) (i : Nat) (a : Address) (made : Nat)
    (family : Family) (bytes : List UInt8) : Prop :=
  ∃ r e, (p.rounds run)[i]? = some (r, e) ∧ .send a true ∈ e.trace ∧ e.sentAt a = made ∧
    (r.request made).IsEcho family r.payloadSize bytes

theorem isAnswer_cons_of_none {e : Exchange} (h : Round.next? p e.addresses = none) {i made : Nat}
    {a : Address} {family : Family} {bytes : List UInt8} :
    p.IsAnswer (e :: run) i a made family bytes ↔ p.IsAnswer run i a made family bytes := by
  rw [IsAnswer, IsAnswer, rounds_cons_of_none h]

/-- An echo of the first round. -/
theorem isAnswer_cons_zero {e : Exchange} {r : Round} {after : Prober}
    (h : Round.next? p e.addresses = some (r, after)) {a : Address} {family : Family}
    {bytes : List UInt8} (hsend : .send a true ∈ e.trace)
    (hecho : (r.request (e.sentAt a)).IsEcho family r.payloadSize bytes) :
    p.IsAnswer (e :: run) 0 a (e.sentAt a) family bytes := by
  refine ⟨r, e, ?_, hsend, rfl, hecho⟩
  rw [rounds_cons_of_some h, List.getElem?_cons_zero]

/-- An echo of a later round. -/
theorem isAnswer_cons_succ {e : Exchange} {r : Round} {after : Prober}
    (h : Round.next? p e.addresses = some (r, after)) {i made : Nat} {a : Address}
    {family : Family} {bytes : List UInt8} :
    p.IsAnswer (e :: run) (i + 1) a made family bytes ↔
      after.IsAnswer run i a made family bytes := by
  rw [IsAnswer, IsAnswer, rounds_cons_of_some h, List.getElem?_cons_succ]

/-- What a round reads is foreign, or a peer sent it back from the address to which the request had
left, in this or any other round. -/
def Echoed (p : Prober) (run : List Exchange) : Prop :=
  ∀ x ∈ p.rounds run, ∀ family source bytes clock,
    .receive family (.datagram source bytes) clock ∈ x.2.trace →
      EchoReply.IsForeign p.tracker family bytes ∨
        ∃ i made, p.IsAnswer run i source.canonical made family bytes

/-- An answer is read as a reply with the number of its round and the time of its request. -/
theorem IsAnswer.decode {i : Nat} {a : Address} {made : Nat} {family : Family} {bytes : List UInt8}
    (h : p.IsAnswer run i a made family bytes) :
    ∃ r e reply, (p.rounds run)[i]? = some (r, e) ∧
      EchoReply.decode family bytes = .ok (some reply) ∧ reply.sequence = r.sequence ∧
      reply.sentAt.toNat = min made (UInt64.size - 1) := by
  obtain ⟨r, e, hround, -, -, hecho⟩ := h
  obtain ⟨identifier, ttl, hdecode⟩ := EchoRequest.decode_echo hecho
  refine ⟨r, e, _, hround, hdecode, rfl, ?_⟩
  have hlt : min made (UInt64.size - 1) < UInt64.size := by
    have hpos : 0 < UInt64.size := by decide
    omega
  exact UInt64.toNat_ofNat_of_lt hlt

end Prober

namespace Round

/-- What does not count leaves a round as it is. -/
theorem step_of_credit? {r : Round} {family : Family} {source : Address} {bytes : List UInt8}
    {clock : Nat} (h : r.credit? family source bytes clock = none) (q : Progress) :
    r.step q (.receive family (.datagram source bytes) clock) = q := by
  by_cases hb : q.broken.contains family = true
  · exact step_of_broken hb ..
  · rw [step_datagram (Bool.eq_false_iff.2 hb), h]
    rfl

/-- Replies with another number do not count. -/
theorem credit?_of_sequence_ne {r : Round} {family : Family} {bytes : List UInt8}
    {reply : EchoReply} (hbuffer : EchoReply.reach ≤ r.bufferSize)
    (hdecode : EchoReply.decode family bytes = .ok (some reply))
    (hsequence : reply.sequence ≠ r.sequence) (source : Address) (clock : Nat) :
    r.credit? family source bytes clock = none := by
  have haccepts : r.accepts reply = false := by simp [accepts, hsequence]
  rw [credit?_eq hbuffer]
  simp [SocketEvent.reply?, hdecode, haccepts]

end Round

namespace Prober

variable {p : Prober} {run : List Exchange}

/-- A reply to the request of one round is nothing to another round that is less than 65536 rounds
away, whenever and however often it arrives. So if the network delivers echoes, and otherwise only
what is foreign, an address that is recorded as received in a round has answered a request of this
very round, or of one at least so far away, and the time that is recorded is the time from that
request to the reply. -/
theorem lateReplies_uncounted (p : Prober) (run : List Exchange)
    (hpayload : leastPayload ≤ p.payloadSize) :
    (∀ i j a made family bytes, p.IsAnswer run i a made family bytes →
      i ≠ j → i < j + 65536 → j < i + 65536 → ∀ r e, (p.rounds run)[j]? = some (r, e) →
        ∀ before source clock after,
          r.run (before ++ .receive family (.datagram source bytes) clock :: after) =
            r.run (before ++ after)) ∧
      (p.Echoed run → ∀ j r e, (p.rounds run)[j]? = some (r, e) →
        ∀ results a, a ∈ r.targets →
        ∀ s, ((r.run e.trace).tally.commit results).get? a = some s → 0 < s.received →
          ∃ i made family source bytes clock,
            .receive family (.datagram source bytes) clock ∈ e.trace ∧ source.canonical = a ∧
            p.IsAnswer run i a made family bytes ∧
            s.lastRtt = some (.clamp (min clock (UInt64.size - 1) - min made (UInt64.size - 1))) ∧
            (i = j ∨ i + 65536 ≤ j ∨ j + 65536 ≤ i)) := by
  have hbuffer {j : Nat} {r : Round} {e : Exchange} (hj : (p.rounds run)[j]? = some (r, e)) :
      EchoReply.reach ≤ r.bufferSize := by
    have hsize := (of_getElem?_rounds hj).2.2.1
    simp only [EchoReply.reach, Round.bufferSize]
    omega
  constructor
  · intro i j a made family bytes hanswer hne hlt hgt r e hj before source clock after
    obtain ⟨r', e', reply, hi, hdecode, hsequence, -⟩ := hanswer.decode
    have hother : reply.sequence ≠ r.sequence := by
      rw [hsequence]
      intro hsame
      have hmod := mod_eq_of_sequence_eq hi hj hsame
      omega
    have hnone := Round.credit?_of_sequence_ne (hbuffer hj) hdecode hother source clock
    rw [Round.run, Round.run, List.foldl_append, List.foldl_cons, Round.step_of_credit? hnone,
      List.foldl_append]
  · intro hechoed j r e hj results a ha s hs hreceived
    rw [Tally.get?_commit, r.get?_tally_run (hbuffer hj) ha, Option.some_or,
      Option.some.injEq] at hs
    subst hs
    cases hreplies : repliesFrom r.accepts a e.trace with
    | nil => simp [ProbeStats.of, hreplies] at hreceived
    | cons x rest =>
      obtain ⟨family, source, bytes, hread, hsource, hdecode, haccepts⟩ :=
        mem_repliesFrom (hreplies ▸ List.mem_cons_self)
      simp only [Round.accepts, Bool.and_eq_true, decide_eq_true_eq] at haccepts
      obtain ⟨⟨htracker, hsequence⟩, -⟩ := haccepts
      rcases hechoed _ (List.mem_of_getElem? hj) family source bytes x.2 hread with
        hforeign | ⟨i, made, hanswer⟩
      · exact absurd (htracker.trans (of_getElem?_rounds hj).2.1) (hforeign _ hdecode)
      · obtain ⟨r', e', reply, hi, hdecode', hnumber, hmade⟩ := hanswer.decode
        rw [hdecode, Except.ok.injEq, Option.some.injEq] at hdecode'
        subst hdecode'
        have hmod := mod_eq_of_sequence_eq hi hj (hnumber.symm.trans hsequence)
        refine ⟨i, made, family, source, bytes, x.2, hread, hsource, hsource ▸ hanswer, ?_, ?_⟩
        · rw [← hmade]
          rfl
        · omega

/-- The round of the prober for one target that has this number. -/
def numbered (sequence : UInt16) : Round := ⟨1, sequence, 7, true, 16, [.v6 1]⟩

/-- A request leaves, and nothing comes back. -/
def asks : Exchange := ⟨[.v6 1], fun _ => 100, [.send (.v6 1) true]⟩

/-- The answer comes in the next round, before the one that is due there. -/
def hearsTwice : Exchange :=
  ⟨[.v6 1], fun _ => 200,
    [.receive .v6 (.datagram (.v6 1) (replyBytes 65535 7 100)) 210, .send (.v6 1) true,
      .receive .v6 (.datagram (.v6 1) (replyBytes 0 7 200)) 230]⟩

theorem rounds_hearsTwice : twoSockets.rounds [asks, hearsTwice] =
    [(numbered 65535, asks), (numbered 0, hearsTwice)] := rfl

theorem isAnswer_replyBytes {i made : Nat} {e : Exchange} {number : UInt16}
    (h : (twoSockets.rounds run)[i]? = some (numbered number, e))
    (hsend : .send (.v6 1) true ∈ e.trace) (hmade : e.sentAt (.v6 1) = made) :
    twoSockets.IsAnswer run i (.v6 1) made .v6
      (replyBytes number 7 (UInt64.ofNat (min made (UInt64.size - 1)))) :=
  ⟨_, e, h, hsend, hmade, [], 1, 0, 0, .inl rfl, rfl⟩

theorem echoed_hearsTwice : twoSockets.Echoed [asks, hearsTwice] := by
  intro x hx family source bytes clock hread
  rw [rounds_hearsTwice] at hx
  right
  simp only [List.mem_cons, List.not_mem_nil, or_false] at hx
  rcases hx with rfl | rfl
  · simp [asks] at hread
  · simp only [hearsTwice, List.mem_cons, reduceCtorEq, List.not_mem_nil, or_false, false_or,
      SocketEvent.receive.injEq, Arrival.datagram.injEq] at hread
    rcases hread with ⟨rfl, ⟨rfl, rfl⟩, rfl⟩ | ⟨rfl, ⟨rfl, rfl⟩, rfl⟩
    · exact ⟨0, 100, isAnswer_replyBytes (e := asks) rfl List.mem_cons_self rfl⟩
    · exact ⟨1, 200, isAnswer_replyBytes (e := hearsTwice) rfl (by decide) rfl⟩

/-- The late reply changes nothing, and what is counted is the answer that was due. -/
theorem lateReplies_uncounted_hearsTwice :
    let run := [asks, hearsTwice]
    leastPayload ≤ twoSockets.payloadSize ∧ twoSockets.Echoed run ∧
      (numbered 0).run hearsTwice.trace = (numbered 0).run hearsTwice.trace.tail ∧
      ∃ made family bytes, twoSockets.IsAnswer run 1 (.v6 1) made family bytes := by
  intro run
  have hpayload : leastPayload ≤ twoSockets.payloadSize := by decide
  have hfirst : (twoSockets.rounds run)[0]? = some (numbered 65535, asks) := rfl
  have hsecond : (twoSockets.rounds run)[1]? = some (numbered 0, hearsTwice) := rfl
  have hlate := isAnswer_replyBytes hfirst List.mem_cons_self rfl
  obtain ⟨huncounted, hcounted⟩ := lateReplies_uncounted twoSockets run hpayload
  refine ⟨hpayload, echoed_hearsTwice, ?_, ?_⟩
  · exact huncounted 0 1 _ _ _ _ hlate (by decide) (by decide) (by decide) _ _ hsecond [] (.v6 1)
      210 hearsTwice.trace.tail
  · have hreceived : (((numbered 0).run hearsTwice.trace).tally.commit .empty).get? (.v6 1) =
        some ⟨1, 1, 0, some (.clamp 30), none⟩ := by decide +kernel
    obtain ⟨i, made, family, source, bytes, clock, -, -, hanswer, -, hi⟩ :=
      hcounted echoed_hearsTwice 1 _ _ hsecond .empty (.v6 1) (by decide) _ hreceived (by decide)
    have hi : i = 1 := by
      obtain ⟨r, e, hround, -⟩ := hanswer
      obtain ⟨hlt, -⟩ := List.getElem?_eq_some_iff.1 hround
      have htwo : (twoSockets.rounds run).length = 2 := rfl
      omega
    exact ⟨made, family, bytes, hi ▸ hanswer⟩

/-- A request fails to leave. -/
def fails : Exchange := ⟨[.v6 1], fun _ => 150, [.send (.v6 1) false]⟩

/-- A request fails to leave, and an answer comes that was on its way for very long. -/
def hearsOld : Exchange :=
  ⟨[.v6 1], fun _ => 200,
    [.send (.v6 1) false, .receive .v6 (.datagram (.v6 1) (replyBytes 65535 7 100)) 210]⟩

/-- The answer to the request of the first round comes after so many other rounds. -/
def afterRounds (n : Nat) : List Exchange := asks :: (List.replicate n fails ++ [hearsOld])

theorem mem_afterRounds {n : Nat} {e : Exchange} (h : e ∈ afterRounds n) :
    e = asks ∨ e = fails ∨ e = hearsOld := by
  simp only [afterRounds, List.mem_cons, List.mem_append, List.mem_replicate, List.not_mem_nil,
    or_false] at h
  exact h.imp_right fun h => h.imp_left And.right

theorem getElem?_rounds_afterRounds (n i : Nat) :
    (twoSockets.rounds (afterRounds n))[i]? =
      (afterRounds n)[i]?.map fun e => (numbered (65534 + UInt16.ofNat i + 1), e) := by
  have haddresses {e : Exchange} (he : e ∈ afterRounds n) : e.addresses = [.v6 1] := by
    rcases mem_afterRounds he with rfl | rfl | rfl <;> rfl
  have htargets : twoSockets.targets [.v6 1] ≠ [] := by decide
  rw [getElem?_rounds fun e he => haddresses he ▸ htargets]
  cases he : (afterRounds n)[i]? with
  | none => rfl
  | some e =>
    rw [Option.bind_some, Option.map_some, haddresses (List.mem_of_getElem? he)]
    rfl

theorem getElem?_afterRounds (n : Nat) : (afterRounds n)[n + 1]? = some hearsOld := by
  simp [afterRounds]

/-- The network delivers one echo, if only late, and nothing else. -/
theorem echoed_afterRounds (n : Nat) : twoSockets.Echoed (afterRounds n) := by
  intro x hx family source bytes clock hread
  obtain ⟨i, hi⟩ := List.mem_iff_getElem?.1 hx
  right
  rcases mem_afterRounds (of_getElem?_rounds hi).2.2.2 with he | he | he
  · simp [he, asks] at hread
  · simp [he, fails] at hread
  · simp only [he, hearsOld, List.mem_cons, reduceCtorEq, List.not_mem_nil, or_false, false_or,
      SocketEvent.receive.injEq, Arrival.datagram.injEq] at hread
    obtain ⟨rfl, ⟨rfl, rfl⟩, -⟩ := hread
    exact ⟨0, 100, isAnswer_replyBytes (getElem?_rounds_afterRounds n 0) List.mem_cons_self rfl⟩

/-- After 65535 others comes a round in which the target is recorded as received, though no request
left: its number is that of the first round again. -/
theorem oldReply_counted :
    let run := afterRounds 65535
    leastPayload ≤ twoSockets.payloadSize ∧ twoSockets.Echoed run ∧
      ∃ r e s, (twoSockets.rounds run)[65536]? = some (r, e) ∧
        ((r.run e.trace).tally.commit .empty).get? (.v6 1) = some s ∧ s.received = 1 ∧
        ∀ made family bytes, ¬ twoSockets.IsAnswer run 65536 (.v6 1) made family bytes := by
  intro run
  have hlast : (twoSockets.rounds run)[65536]? = some (numbered 65535, hearsOld) := by
    rw [getElem?_rounds_afterRounds, getElem?_afterRounds]
    rfl
  refine ⟨by decide, echoed_afterRounds _, _, _, ⟨1, 1, 0, some (.clamp 110), none⟩, hlast,
    by decide +kernel, rfl, ?_⟩
  intro made family bytes hanswer
  obtain ⟨r, e, hround, hsend, -⟩ := hanswer
  rw [hlast] at hround
  cases hround
  simp [hearsOld] at hsend

end Prober

end RouteKeeper
