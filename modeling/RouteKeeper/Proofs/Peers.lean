import RouteKeeper.Proofs.LateReplies

/-!
# Peers that echo

What comes to the sockets of a prober is an answer that a peer gave to a request that left, in this
round or an earlier one; the network delays it, and changes nothing. So if peers give echoes, and
otherwise only what is foreign to the prober, then echoes and foreign datagrams are all that a
series of calls over the network reads.

## Main definitions

* `Answer.IsHonest` — an answer brings back the request that it is given to, or what is foreign.
* `Call`, `Network.exchanges` — a series of calls over a network.

## Main statements

* `EchoChange.isEcho_datagram` — which changes leave an echo.
* `Network.play_parcels` — what is read in a round was on its way before, or answers the round.
* `Network.echoed_exchanges` — a series of calls over honest peers.
-/
namespace RouteKeeper

/-! ## Honest answers -/

namespace EchoChange

/-- A change that leaves what the request carries; a header may come in front over IPv4. -/
structure Keeps (c : EchoChange) (family : Family) : Prop where
  kind : c.kind = none
  code : c.code = 0
  sequence : c.sequenceAdd = 0
  tracker : c.trackerXor = 0
  age : c.age = 0
  ahead : c.ahead = 0
  keep : c.keep = none
  header {words : Nat} {ttl : UInt8} (h : c.header = some (words, ttl)) :
    family = .v4 ∧ 5 ≤ words ∧ words ≤ 15

theorem startsHeader_headerBytes {words : Nat} (hleast : 5 ≤ words) (hmost : words ≤ 15)
    (ttl : UInt8) : StartsHeader (headerBytes words ttl) (headerBytes words ttl).length := by
  refine ⟨UInt8.ofNat (0x40 + words), ?_, ?_, ?_⟩
  · have hne : words * 4 ≠ 0 := by omega
    rw [headerBytes, List.head?_map, List.head?_range, if_neg hne]
    rfl
  · rw [UInt8.toNat_ofNat']
    omega
  · rw [headerBytes, List.length_map, List.length_range, UInt8.toNat_ofNat']
    omega

/-- The answer of a peer that changes nothing of what matters is an echo. -/
theorem isEcho_datagram {c : EchoChange} {family : Family} (h : c.Keeps family) (q : EchoRequest)
    (size : Nat) : q.IsEcho family size (c.datagram family q size) := by
  have hsentAt : UInt64.ofNat (min (q.sentAt.toNat - 0 + 0) (UInt64.size - 1)) = q.sentAt := by
    have hlt := q.sentAt.toNat_lt_size
    rw [Nat.sub_zero, Nat.add_zero, Nat.min_eq_left (by omega), UInt64.ofNat_toNat]
  simp only [datagram, h.kind, h.code, h.sequence, h.tracker, h.age, h.ahead, h.keep, hsentAt,
    UInt16.add_zero, UInt64.xor_zero, Option.map_none, Option.getD_none]
  cases hheader : c.header with
  | none => exact ⟨[], _, 0, 0, .inl rfl, rfl⟩
  | some header =>
    obtain ⟨words, ttl⟩ := header
    obtain ⟨hfamily, hleast, hmost⟩ := h.header hheader
    refine ⟨headerBytes words ttl, _, 0, 0, .inr ⟨hfamily, ?_, ?_⟩, rfl⟩
    · simp only [headerBytes, List.length_map, List.length_range]
      omega
    · exact startsHeader_headerBytes hleast hmost ttl

end EchoChange

/-- Whatever request it is given to at an address, the answer brings it back from this address; or
what it brings is foreign to the prober, or an error. -/
def Answer.IsHonest (tracker : UInt64) (probed : Address) (answer : Answer) : Prop :=
  ∀ q size source bytes, answer.arrival probed q size = .datagram source bytes →
    EchoReply.IsForeign tracker probed.family bytes ∨
      source.canonical = probed ∧ q.IsEcho probed.family size bytes

/-- An answer that echoes the request from the address that was probed is honest. -/
theorem Answer.isHonest_echo {c : EchoChange} {probed : Address} (hkeeps : c.Keeps probed.family)
    (hprobed : probed.canonical = probed) (tracker : UInt64) (delay : Nat) :
    Answer.IsHonest tracker probed ⟨none, .echo c, delay⟩ := by
  intro q size source bytes h
  simp only [arrival, Option.getD_none, Arrival.datagram.injEq] at h
  obtain ⟨rfl, rfl⟩ := h
  exact .inr ⟨hprobed, EchoChange.isEcho_datagram hkeeps q size⟩

/-- All peers give honest answers only. -/
def HonestPeers (tracker : UInt64) (peers : OrderedMap Address Peer) : Prop :=
  ∀ a peer, peers.get? a = some peer → ∀ answer ∈ peer.answers, answer.IsHonest tracker a

/-! ## Parcels -/

/-- What comes to a socket is foreign, an error, or what the prober may expect from its source. -/
def Arrival.Carries (tracker : UInt64) (expected : Address → Family → List UInt8 → Prop)
    (family : Family) (arrival : Arrival) : Prop :=
  ∀ source bytes, arrival = .datagram source bytes →
    EchoReply.IsForeign tracker family bytes ∨ expected source.canonical family bytes

theorem Arrival.Carries.imp {tracker : UInt64} {family : Family} {arrival : Arrival}
    {expected expected' : Address → Family → List UInt8 → Prop}
    (h : arrival.Carries tracker expected family)
    (himp : ∀ a family bytes, expected a family bytes → expected' a family bytes) :
    arrival.Carries tracker expected' family :=
  fun source bytes hbytes => (h source bytes hbytes).imp_right (himp _ _ _)

namespace Network

variable {tracker : UInt64} {expected : Address → Family → List UInt8 → Prop}

theorem mem_post {p q : Parcel} {parcels : List Parcel} :
    q ∈ post p parcels ↔ q = p ∨ q ∈ parcels := by
  induction parcels with
  | nil => simp [post]
  | cons first rest ih =>
    unfold post
    split
    · simp only [List.mem_cons, ih]
      tauto
    · simp only [List.mem_cons]

theorem mem_foldl_post {α : Type} {f : α → Parcel} {l : List α} {q : Parcel}
    {parcels : List Parcel} (h : q ∈ l.foldl (fun ps x => post (f x) ps) parcels) :
    q ∈ parcels ∨ ∃ x ∈ l, q = f x := by
  induction l generalizing parcels with
  | nil => exact .inl h
  | cons x l ih =>
    rcases ih h with hq | ⟨y, hy, rfl⟩
    · rcases mem_post.1 hq with rfl | hq
      · exact .inr ⟨x, List.mem_cons_self, rfl⟩
      · exact .inl hq
    · exact .inr ⟨y, List.mem_cons_of_mem _ hy, rfl⟩

/-- What is read, and what is left, was there. -/
theorem mem_receive {r : Round} {now limit : Nat} {q : Parcel} {breaks : Breaks}
    {parcels : List Parcel}
    (h : q ∈ (receive r now limit breaks parcels).1 ∨
      q ∈ (receive r now limit breaks parcels).2.2) : q ∈ parcels := by
  induction parcels generalizing breaks with
  | nil => simp [receive] at h
  | cons first rest ih =>
    have hrest : ∀ b, q ∈ (receive r now limit b rest).1 ∨ q ∈ (receive r now limit b rest).2.2 →
        q ∈ rest := fun _ => ih
    rw [List.mem_cons]
    unfold receive at h
    split at h
    · simp only [List.mem_cons] at h
      rcases h with (hq | hq) | hq
      · exact .inl hq
      · exact .inr (hrest _ (.inl hq))
      · exact .inr (hrest _ (.inr hq))
    · simp only [List.mem_cons] at h
      rcases h with hq | hq | hq
      · exact .inr (hrest _ (.inl hq))
      · exact .inl hq
      · exact .inr (hrest _ (.inr hq))

/-- The parcel brings an answer that the peer at a target gives to a request of the round. -/
def IsReturn (peers : OrderedMap Address Peer) (r : Round) (clock : Nat) (target : Address)
    (q : Parcel) : Prop :=
  ∃ peer, peers.get? target = some peer ∧ ∃ answer ∈ peer.answers, q.family = target.family ∧
    q.arrival = answer.arrival target (r.request clock) r.payloadSize

/-- Sending a request puts the answers of its target on the way, if it leaves. -/
theorem mem_parcels_transmit {n : Network} {r : Round} {target : Address} {now clock : Nat}
    {q : Parcel} (h : q ∈ (n.transmit r target now clock).2.parcels) :
    q ∈ n.parcels ∨ (n.transmit r target now clock).1 = .left ∧
      IsReturn n.peers r clock target q := by
  unfold transmit at h ⊢
  cases hencode : (r.request clock).encode target.family r.payloadSize with
  | error e =>
    simp only [hencode] at h
    exact .inl h
  | ok packet =>
    simp only [hencode] at h ⊢
    cases hpeer : n.peers.get? target with
    | none =>
      simp only [hpeer, Option.getD_none] at h
      exact .inl h
    | some peer =>
      simp only [hpeer, Option.getD_some] at h ⊢
      cases herror : peer.sendError with
      | some number =>
        simp only [herror] at h
        exact .inl h
      | none =>
        simp only [herror] at h ⊢
        rcases mem_foldl_post h with hq | ⟨answer, hanswer, hq⟩
        · exact .inl hq
        · exact .inr ⟨trivial, peer, hpeer, answer, hanswer, by rw [hq], by rw [hq]⟩

theorem peers_transmit (n : Network) (r : Round) (target : Address) (now clock : Nat) :
    (n.transmit r target now clock).2.peers = n.peers := by
  unfold transmit
  simp only
  split
  · rfl
  · split <;> rfl

theorem transmitAll_cons (r : Round) (now clock : Nat) (target : Address) (rest : List Address)
    (n : Network) :
    transmitAll r now clock (target :: rest) n =
      let sent := n.transmit r target now clock
      let others := transmitAll r now clock rest sent.2
      ((target, sent.1) :: others.1, others.2) :=
  rfl

theorem mem_parcels_transmitAll {n : Network} {r : Round} {targets : List Address}
    {now clock : Nat} {q : Parcel} (h : q ∈ (transmitAll r now clock targets n).2.parcels) :
    q ∈ n.parcels ∨ ∃ target, (target, .left) ∈ (transmitAll r now clock targets n).1 ∧
      IsReturn n.peers r clock target q := by
  induction targets generalizing n with
  | nil => exact .inl h
  | cons target rest ih =>
    rw [transmitAll_cons] at h ⊢
    rcases ih h with hq | ⟨target', hleft, hreturn⟩
    · rcases mem_parcels_transmit hq with hq | ⟨hleft, hreturn⟩
      · exact .inl hq
      · exact .inr ⟨target, List.mem_cons.2 (.inl (by rw [hleft])), hreturn⟩
    · rw [peers_transmit] at hreturn
      exact .inr ⟨target', List.mem_cons_of_mem _ hleft, hreturn⟩

/-- What is read in a round and what is on its way after it was on its way before, or answers a
request that left in the round. -/
theorem play_parcels (n : Network) (r : Round) (now clock timeout : Nat) :
    let played := n.play r now clock timeout
    let inPlay q := q ∈ n.parcels ∨
      ∃ target, .send target true ∈ played.trace ∧ IsReturn n.peers r clock target q
    (∀ family arrival clock, .receive family arrival clock ∈ played.trace →
        ∃ q, inPlay q ∧ q.family = family ∧ q.arrival = arrival) ∧
      ∀ q ∈ played.network.parcels, inPlay q := by
  intro played inPlay
  let old := receive r now (now + 1) [] n.parcels
  let sent := transmitAll r now clock r.targets { n with parcels := old.2.2 }
  let fresh := receive r now (now + timeout) old.2.1 sent.2.parcels
  have htrace : played.trace = old.1.map (received clock) ++
      sent.1.map (fun o => SocketEvent.send o.1 (o.2 = .left)) ++ fresh.1.map (received clock) :=
    rfl
  have hsent : ∀ q ∈ sent.2.parcels, inPlay q := by
    intro q hq
    rcases mem_parcels_transmitAll hq with hq | ⟨target, hleft, hreturn⟩
    · exact .inl (mem_receive (.inr hq))
    · refine .inr ⟨target, ?_, hreturn⟩
      rw [htrace]
      exact List.mem_append_left _ (List.mem_append_right _ (List.mem_map.2 ⟨_, hleft, rfl⟩))
  constructor
  · intro family arrival c h
    rw [htrace] at h
    simp only [List.mem_append, List.mem_map, received, SocketEvent.receive.injEq, reduceCtorEq,
      and_false, exists_false, or_false] at h
    rcases h with ⟨q, hq, hfamily, harrival, -⟩ | ⟨q, hq, hfamily, harrival, -⟩
    · exact ⟨q, .inl (mem_receive (.inl hq)), hfamily, harrival⟩
    · exact ⟨q, hsent q (mem_receive (.inl hq)), hfamily, harrival⟩
  · intro q hq
    exact hsent q (mem_receive (.inr hq))

/-- What is read in a round over honest peers, and what is on its way after it, is foreign, or was
expected before, or echoes a request that left in the round. -/
theorem play_carries {n : Network} (hpeers : HonestPeers tracker n.peers)
    (hparcels : ∀ q ∈ n.parcels, q.arrival.Carries tracker expected q.family) (r : Round)
    (now clock timeout : Nat) :
    let played := n.play r now clock timeout
    let expected' a family bytes := expected a family bytes ∨ .send a true ∈ played.trace ∧
      (r.request clock).IsEcho family r.payloadSize bytes
    (∀ family arrival clock, .receive family arrival clock ∈ played.trace →
        arrival.Carries tracker expected' family) ∧
      ∀ q ∈ played.network.parcels, q.arrival.Carries tracker expected' q.family := by
  intro played expected'
  obtain ⟨hread, hleft⟩ := n.play_parcels r now clock timeout
  have hcarries {q : Parcel} (h : q ∈ n.parcels ∨
      ∃ target, .send target true ∈ played.trace ∧ IsReturn n.peers r clock target q) :
      q.arrival.Carries tracker expected' q.family := by
    intro source bytes hbytes
    rcases h with hq | ⟨target, hsend, peer, hpeer, answer, hanswer, hfamily, harrival⟩
    · exact (hparcels q hq).imp (fun _ _ _ => .inl) source bytes hbytes
    · rw [hfamily]
      rcases hpeers target peer hpeer answer hanswer _ _ source bytes (harrival ▸ hbytes) with
        hforeign | ⟨hsource, hecho⟩
      · exact .inl hforeign
      · exact .inr (.inr ⟨hsource.symm ▸ hsend, hecho⟩)
  constructor
  · intro family arrival c h
    obtain ⟨q, hq, rfl, rfl⟩ := hread family arrival c h
    exact hcarries hq
  · intro q hq
    exact hcarries (hleft q hq)

end Network

/-! ## Calls over a network -/

/-- A call to probe addresses over a network: the peers that there are from now on, the time, what
the clock of the prober shows, and for how long a round lasts at most. -/
structure Call where
  peers : OrderedMap Address Peer
  addresses : List Address
  now : Nat
  clock : Nat
  timeout : Nat

namespace Network

/-- All that happens on the sockets when addresses are probed over a network. -/
def events (n : Network) (p : Prober) (addresses : List Address) (now clock timeout : Nat) :
    List SocketEvent :=
  match Round.next? p addresses with
  | none => []
  | some (r, _) =>
    (if r.fits then n.play r now clock timeout else n.playNothing r now timeout).trace

/-- What becomes of a series of calls. -/
def exchanges (n : Network) (p : Prober) : List Call → List Exchange
  | [] => []
  | c :: rest =>
    let n := { n with peers := c.peers }
    let probed := n.probe p c.addresses c.now c.clock c.timeout .empty
    ⟨c.addresses, fun _ => c.clock, n.events p c.addresses c.now c.clock c.timeout⟩ ::
      exchanges probed.2.2.2 probed.2.2.1 rest

variable {tracker : UInt64} {expected : Address → Family → List UInt8 → Prop}

/-- One round over honest peers; if requests do not fit into memory, nothing happens in it. -/
theorem events_carries {n : Network} (hpeers : HonestPeers tracker n.peers)
    (hparcels : ∀ q ∈ n.parcels, q.arrival.Carries tracker expected q.family) {p after : Prober}
    {addresses : List Address} {r : Round} (hnext : Round.next? p addresses = some (r, after))
    (now clock timeout : Nat) (before : Results) :
    let events := n.events p addresses now clock timeout
    let expected' a family bytes := expected a family bytes ∨ .send a true ∈ events ∧
      (r.request clock).IsEcho family r.payloadSize bytes
    (∀ family arrival clock, .receive family arrival clock ∈ events →
        arrival.Carries tracker expected' family) ∧
      ∀ q ∈ (n.probe p addresses now clock timeout before).2.2.2.parcels,
        q.arrival.Carries tracker expected' q.family := by
  simp only [events, probe, hnext]
  by_cases hfits : r.fits = true
  · simp only [hfits, if_true]
    exact play_carries hpeers hparcels r now clock timeout
  · simp only [if_neg hfits, playNothing]
    refine ⟨fun _ _ _ h => absurd h List.not_mem_nil, ?_⟩
    intro q hq
    exact (hparcels q hq).imp fun _ _ _ => .inl

/-- A series of calls over honest peers, when what is on its way at first is expected. -/
theorem carries_exchanges {calls : List Call} (hpeers : ∀ c ∈ calls, HonestPeers tracker c.peers)
    {n : Network} {p : Prober}
    (hparcels : ∀ q ∈ n.parcels, q.arrival.Carries tracker expected q.family) :
    ∀ x ∈ p.rounds (n.exchanges p calls), ∀ family arrival clock,
      .receive family arrival clock ∈ x.2.trace →
        arrival.Carries tracker (fun a family bytes => expected a family bytes ∨
          ∃ i made, p.IsAnswer (n.exchanges p calls) i a made family bytes) family := by
  induction calls generalizing n p expected with
  | nil => simp [exchanges, Prober.rounds]
  | cons c rest ih =>
    intro x hx family arrival clock hread
    have hrest : ∀ c ∈ rest, HonestPeers tracker c.peers :=
      fun c hc => hpeers c (List.mem_cons_of_mem _ hc)
    rw [exchanges] at hx ⊢
    generalize hn : ({ n with peers := c.peers } : Network) = n₁ at hx ⊢
    have hparcels₁ : ∀ q ∈ n₁.parcels, q.arrival.Carries tracker expected q.family := hn ▸ hparcels
    have hpeers₁ : HonestPeers tracker n₁.peers := hn ▸ hpeers c List.mem_cons_self
    cases hnext : Round.next? p c.addresses with
    | none =>
      have hprobed : n₁.probe p c.addresses c.now c.clock c.timeout .empty =
          (.empty, c.now, p, n₁) := by
        simp only [probe, hnext]
      rw [hprobed, Prober.rounds_cons_of_none hnext] at hx
      refine (ih hrest hparcels₁ x hx family arrival clock hread).imp ?_
      intro a family bytes h
      rw [hprobed]
      rcases h with hexpected | ⟨i, made, hanswer⟩
      · exact .inl hexpected
      · exact .inr ⟨i, made, (Prober.isAnswer_cons_of_none hnext).2 hanswer⟩
    | some next =>
      obtain ⟨r, after⟩ := next
      have hafter : (n₁.probe p c.addresses c.now c.clock c.timeout .empty).2.2.1 = after := by
        simp only [probe, hnext]
      obtain ⟨hevents, hleft⟩ :=
        events_carries hpeers₁ hparcels₁ hnext c.now c.clock c.timeout .empty
      rw [Prober.rounds_cons_of_some hnext, hafter, List.mem_cons] at hx
      rw [hafter]
      generalize (n₁.probe p c.addresses c.now c.clock c.timeout .empty).2.2.2 = n₂ at hx hleft ⊢
      generalize n₁.events p c.addresses c.now c.clock c.timeout = events at hx hevents hleft ⊢
      -- what may be expected from the first round on answers round zero of the whole series
      have hfirst : ∀ a family bytes, (expected a family bytes ∨ .send a true ∈ events ∧
          (r.request c.clock).IsEcho family r.payloadSize bytes) → expected a family bytes ∨
          ∃ i made, p.IsAnswer (⟨c.addresses, fun _ => c.clock, events⟩ ::
            n₂.exchanges after rest) i a made family bytes := by
        intro a family bytes h
        rcases h with hexpected | ⟨hsend, hecho⟩
        · exact .inl hexpected
        · exact .inr ⟨0, c.clock, Prober.isAnswer_cons_zero hnext hsend hecho⟩
      rcases hx with rfl | hx
      · exact (hevents family arrival clock hread).imp hfirst
      · refine (ih hrest hleft x hx family arrival clock hread).imp ?_
        intro a family bytes h
        rcases h with hexpected | ⟨i, made, hanswer⟩
        · exact hfirst a family bytes hexpected
        · exact .inr ⟨i + 1, made, (Prober.isAnswer_cons_succ hnext).2 hanswer⟩

/-- What a series of calls over honest peers reads are echoes, and what is foreign. -/
theorem echoed_exchanges {p : Prober} {calls : List Call}
    (hpeers : ∀ c ∈ calls, HonestPeers p.tracker c.peers) :
    p.Echoed (silent.exchanges p calls) := by
  intro x hx family source bytes clock hread
  have hnothing : ∀ q ∈ silent.parcels,
      q.arrival.Carries p.tracker (fun _ _ _ => False) q.family := by
    simp [silent]
  rcases carries_exchanges hpeers hnothing x hx family _ clock hread source bytes rfl with
    hforeign | hexpected | hanswer
  · exact .inl hforeign
  · exact hexpected.elim
  · exact .inr hanswer

end Network

end RouteKeeper
