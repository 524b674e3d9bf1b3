import RouteKeeper.Proofs.EchoMessages
import RouteKeeper.Proofs.OrderedMap
import RouteKeeper.Probe.Network

/-!
# What a round reports

A round is told by what happens on its sockets: requests leave or fail, datagrams and errors are
read, in any order. What it reports of a target is a function of the replies that the target sent
and that were read before their socket failed for good. Everything else — what is malformed, stale
or foreign, and what becomes of other targets — leaves no trace in it.

## Main definitions

* `SocketEvent.reply?` — the reply that an event brings from an address.
* `repliesFrom` — the replies from an address, in the order of their reception.
* `ProbeStats.of` — the counts that replies give.
* `Prober.results` — results after an address list was probed.

## Main statements

* `Round.get?_tally_run` — the tally of a round, by induction on what happens.
* `Prober.get?_results` — what probing enters into results, and what it leaves.
-/
namespace RouteKeeper

namespace SocketEvent

/-- The target to which a request left or failed to leave. -/
def target? : SocketEvent → Option Address
  | .send target _ => some target
  | .receive .. => none

/-- The socket of the family fails for good. -/
def breaks (family : Family) : SocketEvent → Bool
  | .receive f (.failure number) _ => f = family && !OsError.isRetryable number
  | _ => false

/-- The socket that the event is read from has not failed for good before. -/
def isRead (earlier : List SocketEvent) : SocketEvent → Bool
  | .send .. => false
  | .receive family .. => !earlier.any (breaks family)

/-- The wanted reply that an event brings from an address, with the time of its reception. -/
def reply? (wanted : EchoReply → Bool) (a : Address) : SocketEvent → Option (EchoReply × Nat)
  | .receive family (.datagram source bytes) clock =>
    match EchoReply.decode family bytes with
    | .ok (some reply) =>
      if source.canonical = a ∧ wanted reply = true then some (reply, clock) else none
    | _ => none
  | _ => none

theorem of_reply?_eq_some {wanted : EchoReply → Bool} {a : Address} {e : SocketEvent}
    {x : EchoReply × Nat} (h : e.reply? wanted a = some x) :
    ∃ family source bytes, e = .receive family (.datagram source bytes) x.2 ∧
      source.canonical = a ∧ EchoReply.decode family bytes = .ok (some x.1) ∧
      wanted x.1 = true := by
  revert h
  fun_cases reply? wanted a e with
  | case1 family source bytes clock reply hreply hwanted =>
    intro h
    cases h
    exact ⟨family, source, bytes, rfl, hwanted.1, hreply, hwanted.2⟩
  | _ => intro h; cases h

end SocketEvent

/-- The wanted replies from an address that are read from a socket before it fails for good, in the
order of their reception. -/
def repliesFrom (wanted : EchoReply → Bool) (a : Address) (trace : List SocketEvent) :
    List (EchoReply × Nat) :=
  trace.zipIdx.filterMap fun x => if x.1.isRead (trace.take x.2) then x.1.reply? wanted a else none

theorem repliesFrom_concat (wanted : EchoReply → Bool) (a : Address) (trace : List SocketEvent)
    (e : SocketEvent) :
    repliesFrom wanted a (trace ++ [e]) =
      repliesFrom wanted a trace ++
        (if e.isRead trace then e.reply? wanted a else none).toList := by
  unfold repliesFrom
  rw [List.zipIdx_append, List.filterMap_append]
  congr 1
  · refine List.filterMap_congr ?_
    intro x hx
    have hlt := List.snd_lt_of_mem_zipIdx hx
    rw [List.take_append_of_le_length (by omega)]
  · simp only [List.zipIdx_cons, List.zipIdx_nil, Nat.zero_add, List.filterMap_cons,
      List.filterMap_nil, List.take_left']
    cases if e.isRead trace then e.reply? wanted a else none <;> rfl

/-- Replies were read from their address. -/
theorem mem_repliesFrom {wanted : EchoReply → Bool} {a : Address} {trace : List SocketEvent}
    {x : EchoReply × Nat} (h : x ∈ repliesFrom wanted a trace) :
    ∃ family source bytes, .receive family (.datagram source bytes) x.2 ∈ trace ∧
      source.canonical = a ∧ EchoReply.decode family bytes = .ok (some x.1) ∧
      wanted x.1 = true := by
  obtain ⟨e, he, hx⟩ := List.mem_filterMap.1 h
  split at hx
  case isFalse => cases hx
  case isTrue =>
    obtain ⟨family, source, bytes, hevent, hreply⟩ := SocketEvent.of_reply?_eq_some hx
    exact ⟨family, source, bytes, hevent ▸ List.fst_mem_of_mem_zipIdx he, hreply⟩

/-- The counts of a target to which so many requests were tried, and which sent these replies. -/
def ProbeStats.of (sent : Nat) (replies : List (EchoReply × Nat)) : ProbeStats :=
  { sent
    received := min 1 replies.length
    duplicates := replies.length - 1
    lastRtt := replies.head?.map fun r =>
      .clamp (min r.2 (UInt64.size - 1) - r.1.sentAt.toNat)
    lastTtl := replies.head?.bind fun r => r.1.ttl }

namespace RoundEvent

/-- What a round makes of a reply. -/
def ofReply (a : Address) (r : EchoReply × Nat) : RoundEvent :=
  .reply a (.clamp (min r.2 (UInt64.size - 1) - r.1.sentAt.toNat)) r.1.ttl

theorem address_ofReply (a : Address) (r : EchoReply × Nat) : (ofReply a r).address = a := rfl

/-- A reply is counted behind the others. -/
theorem count_ofReply (a : Address) (r : EchoReply × Nat) (sent : Nat)
    (replies : List (EchoReply × Nat)) :
    (ofReply a r).count (.of sent replies) = .of sent (replies ++ [r]) := by
  cases replies with
  | nil => rfl
  | cons first rest => simp [ofReply, count, ProbeStats.of]

end RoundEvent

namespace Tally

theorem get?_handle (t : Tally) (e : RoundEvent) (a : Address) :
    (t.handle e).get? a = if a = e.address then (t.get? a).map e.count else t.get? a :=
  OrderedMap.get?_modify t.stats ..

theorem get?_new (targets : List Address) (a : Address) :
    (new targets).get? a = if a ∈ targets then some .zero else none :=
  OrderedMap.get?_ofList_map targets _ a

/-- The round replaces what the results say about its targets. -/
theorem get?_commit (t : Tally) (results : Results) (a : Address) :
    (t.commit results).get? a = (t.get? a).or (results.get? a) :=
  OrderedMap.get?_foldl_insert_entries t.stats results a

end Tally

namespace Round

variable {r : Round} {a : Address}

/-! ## One event -/

theorem step_send (r : Round) (p : Progress) (target : Address) (ok : Bool) :
    r.step p (.send target ok) =
      { p with tally := p.tally.handle (if ok then .sent target else .sendFailed target) } := by
  cases ok <;> rfl

/-- Nothing is read from a socket that has failed for good. -/
theorem step_of_broken {p : Progress} {family : Family} (h : p.broken.contains family = true)
    (arrival : Arrival) (clock : Nat) : r.step p (.receive family arrival clock) = p :=
  if_pos h

theorem step_failure {p : Progress} {family : Family} (h : p.broken.contains family = false)
    (number clock : Nat) :
    r.step p (.receive family (.failure number) clock) =
      if OsError.isRetryable number then p else { p with broken := family :: p.broken } :=
  if_neg (Bool.eq_false_iff.1 h)

theorem step_datagram {p : Progress} {family : Family} (h : p.broken.contains family = false)
    (source : Address) (bytes : List UInt8) (clock : Nat) :
    r.step p (.receive family (.datagram source bytes) clock) =
      { p with
        tally := (r.credit? family source bytes clock).elim p.tally p.tally.handle } := by
  refine (if_neg (Bool.eq_false_iff.1 h)).trans ?_
  cases r.credit? family source bytes clock <;> rfl

/-- What a datagram is worth does not depend on the size of the buffer. -/
theorem credit?_eq (h : EchoReply.reach ≤ r.bufferSize) (family : Family) (source : Address)
    (bytes : List UInt8) (clock : Nat) :
    r.credit? family source bytes clock =
      if source.canonical ∈ r.targets then
        ((SocketEvent.receive family (.datagram source bytes) clock).reply? r.accepts
          source.canonical).map (.ofReply source.canonical)
      else none := by
  have hcut (reply : EchoReply) : EchoReply.decode family (bytes.take r.bufferSize) =
      .ok (some reply) ↔ EchoReply.decode family bytes = .ok (some reply) :=
    EchoReply.decode_take h
  simp only [credit?, List.contains_iff_mem, SocketEvent.reply?, true_and]
  split
  case isFalse => rfl
  case isTrue =>
    split
    case h_1 reply hreply =>
      rw [(hcut reply).1 hreply]
      dsimp only
      split <;> rfl
    case h_2 hnone =>
      split
      case h_1 reply hreply => exact absurd ((hcut reply).2 hreply) (hnone reply)
      case h_2 => rfl

/-! ## All events -/

theorem run_concat (r : Round) (trace : List SocketEvent) (e : SocketEvent) :
    r.run (trace ++ [e]) = r.step (r.run trace) e := by
  simp [run]

/-- A round remembers the sockets that have failed for good. -/
theorem contains_broken_run (r : Round) (trace : List SocketEvent) (family : Family) :
    (r.run trace).broken.contains family = trace.any (·.breaks family) := by
  induction trace using List.reverseRecOn with
  | nil => rfl
  | append_singleton trace e ih =>
    rw [run_concat, List.any_append, List.any_cons, List.any_nil, Bool.or_false, ← ih]
    cases e with
    | send target ok => simp [step_send, SocketEvent.breaks]
    | receive f arrival clock =>
      by_cases hb : (r.run trace).broken.contains f = true
      · rw [step_of_broken hb]
        by_cases hf : f = family
        · rw [← hf, hb, Bool.true_or]
        · cases arrival <;> simp [SocketEvent.breaks, hf]
      · have hb' := Bool.eq_false_iff.2 hb
        cases arrival with
        | datagram source bytes => simp [step_datagram hb', SocketEvent.breaks]
        | failure number =>
          rw [step_failure hb']
          by_cases hn : OsError.isRetryable number = true
          · simp [hn, SocketEvent.breaks]
          · by_cases hf : f = family
            · simp [hn, SocketEvent.breaks, hf]
            · simp [hn, SocketEvent.breaks, hf, Ne.symm hf]

/-- An event adds one entry to the tally at most, and an answer only as it is credited. -/
theorem tally_step (r : Round) (p : Progress) (e : SocketEvent) :
    (r.step p e).tally = p.tally ∨ ∃ event, (r.step p e).tally = p.tally.handle event ∧
      ∀ source rtt ttl, event = .reply source rtt ttl →
        ∃ family from_ bytes clock, r.credit? family from_ bytes clock = some event := by
  cases e with
  | send target ok =>
    refine .inr ⟨_, congrArg Progress.tally (step_send ..), ?_⟩
    cases ok <;> exact nofun
  | receive family arrival clock =>
    by_cases hb : p.broken.contains family = true
    · exact .inl (congrArg Progress.tally (step_of_broken hb ..))
    · have hb' := Bool.eq_false_iff.2 hb
      cases arrival with
      | failure number =>
        rw [step_failure hb']
        split <;> exact .inl rfl
      | datagram source bytes =>
        rw [step_datagram hb']
        cases hcredit : r.credit? family source bytes clock with
        | none => exact .inl rfl
        | some event => exact .inr ⟨event, rfl, fun _ _ _ _ => ⟨family, source, bytes, clock, hcredit⟩⟩

/-- Addresses that are no targets are not counted. -/
theorem get?_tally_run_of_not_mem (ha : a ∉ r.targets) (trace : List SocketEvent) :
    (r.run trace).tally.get? a = none := by
  induction trace using List.reverseRecOn with
  | nil => exact (Tally.get?_new ..).trans (if_neg ha)
  | append_singleton trace e ih =>
    rw [run_concat]
    rcases r.tally_step (r.run trace) e with hsame | ⟨event, hevent, -⟩
    · rw [hsame, ih]
    · rw [hevent, Tally.get?_handle, ih, Option.map_none, ite_self]

/-- A datagram adds the reply that it brings from a target. -/
theorem get?_tally_datagram (h : EchoReply.reach ≤ r.bufferSize) (ha : a ∈ r.targets) {t : Tally}
    {sent : Nat} {replies : List (EchoReply × Nat)} (ht : t.get? a = some (.of sent replies))
    (family : Family) (source : Address) (bytes : List UInt8) (clock : Nat) :
    ((r.credit? family source bytes clock).elim t t.handle).get? a =
      some (.of sent (replies ++ ((SocketEvent.receive family (.datagram source bytes) clock).reply?
        r.accepts a).toList)) := by
  rw [credit?_eq h]
  by_cases hsource : source.canonical = a
  · subst hsource
    rw [if_pos ha]
    cases (SocketEvent.receive family (.datagram source bytes) clock).reply? r.accepts
      source.canonical with
    | none => simpa using ht
    | some reply =>
      show (t.handle (.ofReply source.canonical reply)).get? source.canonical = _
      rw [Tally.get?_handle, RoundEvent.address_ofReply, ht, if_pos rfl, Option.map_some,
        RoundEvent.count_ofReply]
      rfl
  · have hnone : (SocketEvent.receive family (.datagram source bytes) clock).reply? r.accepts a =
        none := by
      simp only [SocketEvent.reply?, hsource, false_and, if_false]
      split <;> rfl
    rw [hnone, Option.toList_none, List.append_nil]
    split
    case isFalse => exact ht
    case isTrue =>
      cases (SocketEvent.receive family (.datagram source bytes) clock).reply? r.accepts
        source.canonical with
      | none => exact ht
      | some reply =>
        show (t.handle (.ofReply source.canonical reply)).get? a = _
        rw [Tally.get?_handle, RoundEvent.address_ofReply, if_neg (Ne.symm hsource), ht]

/-- The tally of a target counts the requests to it, and its replies that were read. -/
theorem get?_tally_run (h : EchoReply.reach ≤ r.bufferSize) (ha : a ∈ r.targets)
    (trace : List SocketEvent) :
    (r.run trace).tally.get? a =
      some (.of ((trace.filterMap SocketEvent.target?).count a)
        (repliesFrom r.accepts a trace)) := by
  induction trace using List.reverseRecOn with
  | nil => exact (Tally.get?_new ..).trans (if_pos ha)
  | append_singleton trace e ih =>
    rw [run_concat, List.filterMap_append, List.count_append, repliesFrom_concat]
    cases e with
    | send target ok =>
      rw [step_send, Tally.get?_handle, ih, SocketEvent.isRead, if_neg Bool.false_ne_true,
        Option.toList_none, List.append_nil]
      by_cases hto : a = target
      · cases ok <;> simp [RoundEvent.address, RoundEvent.count, SocketEvent.target?, ProbeStats.of,
          hto]
      · cases ok <;> simp [RoundEvent.address, SocketEvent.target?, hto, Ne.symm hto]
    | receive family arrival clock =>
      have hread : SocketEvent.isRead trace (.receive family arrival clock) =
          !(r.run trace).broken.contains family := by
        rw [contains_broken_run]
        rfl
      have hsend :
          [SocketEvent.receive family arrival clock].filterMap SocketEvent.target? = [] := rfl
      rw [hread, hsend, List.count_nil, Nat.add_zero]
      by_cases hb : (r.run trace).broken.contains family = true
      · rw [step_of_broken hb, ih, hb]
        simp
      · have hb' := Bool.eq_false_iff.2 hb
        rw [hb', Bool.not_false, if_pos rfl]
        cases arrival with
        | failure number =>
          rw [step_failure hb']
          split <;> simpa [SocketEvent.reply?] using ih
        | datagram source bytes =>
          rw [step_datagram hb']
          exact get?_tally_datagram h ha ih family source bytes clock

end Round

/-! ## Probing -/

namespace Prober

variable {p : Prober} {addresses : List Address} {a : Address}

/-- The targets are the canonical forms of addresses that are specified and of an open family. -/
theorem mem_targets_iff :
    a ∈ p.targets addresses ↔
      (∃ b ∈ addresses, b.canonical = a) ∧ a.isUnspecified = false ∧ p.isOpen a.family = true := by
  rw [targets, OrderedMap.mem_keys_iff]
  simp only [OrderedMap.get?_ofList_map, Option.ite_none_right_eq_some, exists_and_left,
    exists_const, and_true, List.mem_filter, List.mem_map, Bool.and_eq_true, Bool.not_eq_true']

/-- The reply belongs to the next round. -/
def awaits (p : Prober) (reply : EchoReply) : Bool :=
  reply.tracker = p.tracker && reply.sequence = p.sequence + 1 &&
    (p.mode ≠ .privileged || reply.identifier = p.identifier)

/-- Without targets there is no round. -/
theorem next?_eq_none_iff : Round.next? p addresses = none ↔ p.targets addresses = [] := by
  simp [Round.next?]

/-- The next round has the targets and the number of the prober, and sends what it has to send. -/
theorem next?_eq_some {r : Round} {after : Prober} (h : Round.next? p addresses = some (r, after)) :
    r.targets = p.targets addresses ∧ r.sequence = p.sequence + 1 ∧ r.tracker = p.tracker ∧
      r.identifier = p.identifier ∧ r.payloadSize = p.payloadSize ∧ r.accepts = p.awaits ∧
      after = { p with sequence := p.sequence + 1 } := by
  simp only [Round.next?] at h
  split at h
  case isTrue => cases h
  case isFalse =>
    simp only [Option.some.injEq, Prod.mk.injEq] at h
    obtain ⟨rfl, rfl⟩ := h
    refine ⟨rfl, rfl, rfl, rfl, rfl, ?_, rfl⟩
    funext reply
    simp [Round.accepts, awaits]

/-- The results after addresses were probed, when this happened on the sockets of the round. Without
targets there is no round. -/
def results (p : Prober) (addresses : List Address) (trace : List SocketEvent)
    (before : Results) : Results :=
  match Round.next? p addresses with
  | none => before
  | some (r, _) => (r.run trace).tally.commit before

variable {p : Prober} {addresses : List Address} {trace : List SocketEvent}

/-- Probing enters the counts of exactly the addresses that, made canonical, are specified and of an
open family. Each of them was sent one request. The first reply that came from it, and was read
before its socket failed for good, is the one that it is measured by; those after it are duplicates.
Nothing else that happens on the sockets matters. -/
theorem get?_results (hpayload : leastPayload ≤ p.payloadSize)
    (hsends : (trace.filterMap SocketEvent.target?).Perm (p.targets addresses)) (before : Results)
    (a : Address) :
    let replies := repliesFrom p.awaits a trace
    (p.results addresses trace before).get? a =
      if (∃ b ∈ addresses, b.canonical = a) ∧ a.isUnspecified = false ∧
          p.isOpen a.family = true then
        some
          { sent := 1
            received := min 1 replies.length
            duplicates := replies.length - 1
            lastRtt := replies.head?.map fun r =>
              .clamp (min r.2 (UInt64.size - 1) - r.1.sentAt.toNat)
            lastTtl := replies.head?.bind fun r => r.1.ttl }
      else before.get? a := by
  intro replies
  simp only [← mem_targets_iff]
  unfold results
  cases hnext : Round.next? p addresses with
  | none => simp [next?_eq_none_iff.1 hnext]
  | some next =>
    obtain ⟨r, after⟩ := next
    obtain ⟨htargets, -, -, -, hsize, haccepts, -⟩ := next?_eq_some hnext
    have hbuffer : EchoReply.reach ≤ r.bufferSize := by
      simp only [EchoReply.reach, Round.bufferSize, hsize]
      omega
    simp only [Tally.get?_commit]
    split
    case isTrue ha =>
      have hcount : (trace.filterMap SocketEvent.target?).count a = 1 := by
        rw [hsends.count_eq]
        exact List.count_eq_one_of_mem (OrderedMap.nodup_keys _) ha
      rw [r.get?_tally_run hbuffer (htargets ▸ ha), hcount, haccepts, Option.some_or]
      rfl
    case isFalse ha =>
      rw [r.get?_tally_run_of_not_mem (htargets ▸ ha), Option.none_or]

/-- A prober with sockets of both families, whose next round is the last before its numbers start
again from zero. -/
def twoSockets : Prober := ⟨.privileged, 16, 7, 1, 65534, fun _ => true⟩

/-- The bytes of an IPv6 reply that carries these numbers. -/
def replyBytes (sequence : UInt16) (tracker sentAt : UInt64) : List UInt8 :=
  129 :: 0 :: 0 :: 0 :: EchoRequest.body ⟨1, sequence, tracker, sentAt⟩ 16

/-- A target answers late from the round before, cut short, for somebody else, twice as it should
with an error between, and again after its socket has failed for good; another cannot be reached. -/
def noisy : List SocketEvent :=
  let datagram (bytes : List UInt8) := Arrival.datagram (.v6 1) bytes
  [.receive .v6 (datagram (replyBytes 65534 7 100)) 250, .send (.v6 1) true,
    .receive .v6 (datagram (replyBytes 65535 7 200 |>.take 20)) 260,
    .receive .v6 (datagram (replyBytes 65535 8 200)) 270,
    .receive .v6 (datagram (replyBytes 65535 7 200)) 280,
    .send (.v4 1) false, .receive .v6 (.failure OsError.interrupted) 285,
    .receive .v6 (datagram (replyBytes 65535 7 200)) 290, .receive .v6 (.failure 9) 295,
    .receive .v6 (datagram (replyBytes 65535 7 200)) 300]

/-- Of all that, one reply and one duplicate count. -/
theorem get?_results_noisy :
    let addresses := [.v6 1, .v6 0, .v6 0xFFFF00000001, .v4 1, .v6 1]
    let results := twoSockets.results addresses noisy .empty
    leastPayload ≤ twoSockets.payloadSize ∧
      (noisy.filterMap SocketEvent.target?).Perm (twoSockets.targets addresses) ∧
      results.get? (.v6 1) = some ⟨1, 1, 1, some (.clamp 80), none⟩ ∧
      results.get? (.v4 1) = some ⟨1, 0, 0, none, none⟩ ∧ results.get? (.v6 0) = none := by
  intro addresses results
  have hpayload : leastPayload ≤ twoSockets.payloadSize := by decide
  have hsends : (noisy.filterMap SocketEvent.target?).Perm (twoSockets.targets addresses) := by
    decide +kernel
  refine ⟨hpayload, hsends, ?_, ?_, ?_⟩
  · refine (get?_results hpayload hsends .empty (.v6 1)).trans ?_
    decide +kernel
  · refine (get?_results hpayload hsends .empty (.v4 1)).trans ?_
    decide +kernel
  · refine (get?_results hpayload hsends .empty (.v6 0)).trans ?_
    decide +kernel

end Prober

end RouteKeeper
