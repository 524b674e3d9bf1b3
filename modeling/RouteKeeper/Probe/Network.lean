import RouteKeeper.Probe

/-!
# A network for probes

The network under a prober is a list of peers and the parcels that are on their way to the
prober's sockets. A request that is sent to a peer puts the peer's answers on the way; a parcel
waits at its socket from its due time on until a round reads it, however late that is. Times are
nanoseconds; only parcels take any.

## Main definitions

* `Answer`, `Peer`, `Parcel`, `Network` — the network.
* `Network.transmit` — send one request.
* `Network.receive` — read parcels up to a time.
* `Network.play` — one round from its start to its end.
-/
namespace RouteKeeper

/-- How an answer differs from the request it echoes. The changes are made in the order of the
fields. -/
structure EchoChange where
  /-- The type byte, that of a reply if not given. -/
  kind : Option UInt8
  code : UInt8
  identifierXor : UInt16
  sequenceAdd : UInt16
  trackerXor : UInt64
  /-- By how much the echoed time is moved back, then forward, within 64 bits. -/
  age : Nat
  ahead : Nat
  /-- The bytes of the message that are kept. -/
  keep : Option Nat
  /-- The words of an IP header in front, and its hop limit. -/
  header : Option (Nat × UInt8)
deriving DecidableEq

/-- What an answer brings. -/
inductive Content where
  /-- The receive call fails. -/
  | failure (number : Nat)
  /-- These bytes. -/
  | raw (bytes : List UInt8)
  /-- The request with changes. -/
  | echo (change : EchoChange)
deriving DecidableEq

/-- One answer to a request. -/
structure Answer where
  /-- The source, the address that was probed if not given. -/
  source : Option Address
  content : Content
  /-- The time on the way. -/
  delay : Nat
deriving DecidableEq

/-- What happens to requests for one address: sending fails, or these answers come back. -/
structure Peer where
  sendError : Option Nat
  answers : List Answer
deriving DecidableEq

/-- An answer on its way to the socket of a family. -/
structure Parcel where
  due : Nat
  family : Family
  arrival : Arrival
deriving DecidableEq

namespace EchoChange

/-- The first bytes of an IP header; all others are zero. -/
def headerBytes (words : Nat) (ttl : UInt8) : List UInt8 :=
  (List.range (words * 4)).map fun i =>
    if i = 0 then UInt8.ofNat (0x40 + words) else if i = 8 then ttl else 0

/-- The datagram that answers a request. -/
def datagram (c : EchoChange) (family : Family) (r : EchoRequest) (payloadSize : Nat) :
    List UInt8 :=
  let echoed : EchoRequest :=
    { identifier := r.identifier ^^^ c.identifierXor
      sequence := r.sequence + c.sequenceAdd
      tracker := r.tracker ^^^ c.trackerXor
      sentAt := UInt64.ofNat (min (r.sentAt.toNat - c.age + c.ahead) (UInt64.size - 1)) }
  let message := c.kind.getD family.replyType :: c.code :: 0 :: 0 :: echoed.body payloadSize
  let message := (c.keep.map message.take).getD message
  match c.header with
  | some (words, ttl) => headerBytes words ttl ++ message
  | none => message

end EchoChange

/-- What an answer to a request for an address brings to the socket. -/
def Answer.arrival (a : Answer) (probed : Address) (r : EchoRequest) (payloadSize : Nat) :
    Arrival :=
  let source := a.source.getD probed
  match a.content with
  | .failure number => .failure number
  | .raw bytes => .datagram source bytes
  | .echo change => .datagram source (change.datagram probed.family r payloadSize)

/-- A request that left, with its bytes. -/
structure Departure where
  target : Address
  request : EchoRequest
  packet : List UInt8

/-- The peers, the parcels on their way with the earliest first, and the requests that left since
somebody looked last, the newest first. -/
structure Network where
  peers : OrderedMap Address Peer
  parcels : List Parcel
  departures : List Departure

namespace Network

/-- The network where nothing answers. -/
def silent : Network := ⟨.empty, [], []⟩

/-- Put a parcel on its way, behind those that are due at the same time. -/
def post (p : Parcel) : List Parcel → List Parcel
  | [] => [p]
  | q :: rest => if q.due ≤ p.due then q :: post p rest else p :: q :: rest

/-- What became of a request. -/
inductive SendOutcome where
  | left
  | failed
  /-- The socket takes no request until the round ends. -/
  | blocked
deriving DecidableEq

/-- Send the request of a round to a target at a time. A request that does not fit the limits of
messages is not sent. -/
def transmit (n : Network) (round : Round) (target : Address) (now clock : Nat) :
    SendOutcome × Network :=
  let request := round.request clock
  match request.encode target.family round.payloadSize with
  | .error _ => (.failed, n)
  | .ok packet =>
    let peer := (n.peers.get? target).getD ⟨none, []⟩
    match peer.sendError with
    | some number => (if number = OsError.wouldBlock then .blocked else .failed, n)
    | none =>
      let parcels := peer.answers.foldl
        (fun ps a => post
          ⟨now + a.delay, target.family, a.arrival target request round.payloadSize⟩ ps)
        n.parcels
      (.left, { n with parcels, departures := ⟨target, request, packet⟩ :: n.departures })

/-- Send the request of a round to several targets. -/
def transmitAll (round : Round) (now clock : Nat) :
    List Address → Network → List (Address × SendOutcome) × Network
  | [], n => ([], n)
  | target :: rest, n =>
    let (outcome, n) := n.transmit round target now clock
    let (outcomes, n) := transmitAll round now clock rest n
    ((target, outcome) :: outcomes, n)

/-- The families whose sockets failed for good in a round, with the times. -/
abbrev Breaks := List (Family × Nat)

/-- Read what is due before a limit from the sockets of a round, up to the first error for good of
each. What is not read stays. -/
def receive (round : Round) (now limit : Nat) :
    Breaks → List Parcel → List Parcel × Breaks × List Parcel
  | breaks, [] => ([], breaks, [])
  | breaks, p :: rest =>
    if p.due < limit && round.reads p.family && !breaks.any (·.1 = p.family) then
      let breaks := match p.arrival with
        | .failure number =>
          if OsError.isRetryable number then breaks else (p.family, max p.due now) :: breaks
        | .datagram .. => breaks
      let (read, breaks, left) := receive round now limit breaks rest
      (p :: read, breaks, left)
    else
      let (read, breaks, left) := receive round now limit breaks rest
      (read, breaks, p :: left)

/-- What a round gets from the network. -/
structure Played where
  /-- All that happens on the sockets of the round, in order. -/
  trace : List SocketEvent
  /-- The time at which the round ends. -/
  finish : Nat
  network : Network

/-- The event of reading a parcel. -/
def received (clock : Nat) (p : Parcel) : SocketEvent := .receive p.family p.arrival clock

/-- Play a round whose requests do not fit into memory: nothing happens. It lasts as long as its
sockets are read. -/
def playNothing (n : Network) (round : Round) (now timeout : Nat) : Played :=
  ⟨[], if round.hasBuffer then now + timeout else now, n⟩

/-- Play a round that starts now and lasts for so long at most. First the sockets are read, then
the requests are sent, then the sockets are read until the round ends: when its time is over or,
if no request is still to be sent, when no socket is left to read from. The clock that replies are
measured with stands still during the round. -/
def play (n : Network) (round : Round) (now clock timeout : Nat) : Played :=
  let deadline := now + timeout
  let (old, breaks, parcels) := receive round now (now + 1) [] n.parcels
  let (outcomes, n) := transmitAll round now clock round.targets { n with parcels }
  let (fresh, breaks, parcels) := receive round now deadline breaks n.parcels
  let sends := outcomes.map fun o => SocketEvent.send o.1 (o.2 = .left)
  let isOver := [Family.v4, .v6].all fun f => !round.reads f || breaks.any (·.1 = f)
  { trace := old.map (received clock) ++ sends ++ fresh.map (received clock)
    finish :=
      if isOver && outcomes.all (·.2 ≠ .blocked) then
        breaks.foldl (fun t b => max t b.2) now
      else deadline
    network := { n with parcels } }

/-- Probe addresses, entering the counts into results; also the time at which the round ends. -/
def probe (n : Network) (p : Prober) (addresses : List Address) (now clock timeout : Nat)
    (results : Results) : Results × Nat × Prober × Network :=
  match Round.next? p addresses with
  | none => (results, now, p, n)
  | some (round, p) =>
    let played :=
      if round.fits then n.play round now clock timeout else n.playNothing round now timeout
    ((round.run played.trace).tally.commit results, played.finish, p, played.network)

end Network

/-! ## Looking at requests -/

/-- A request as an onlooker sees it who does not know the numbers that the prober chose at random:
they are blanked out, and sequence numbers are counted from the first request of all. -/
structure Sighting where
  target : Address
  packet : List UInt8
  /-- The identifier and the tracker are the prober's. -/
  isOwn : Bool
  /-- The checksum is right, or left to the system. -/
  isSummed : Bool

/-- Look at a request. -/
def Departure.sighting (d : Departure) (first : EchoRequest) : Sighting :=
  let shown : EchoRequest :=
    { d.request with
      identifier := 0
      sequence := d.request.sequence - first.sequence
      tracker := 0 }
  { target := d.target
    packet := d.packet.take 2 ++ [0, 0] ++ shown.body (d.packet.length - echoHeaderLength)
    isOwn := d.request.identifier = first.identifier && d.request.tracker = first.tracker
    isSummed := match d.target.family with
      | .v4 => checksum d.packet = 0
      | .v6 => (d.packet.drop 2).take 2 = [0, 0] }

namespace Network

/-- The requests that left since the last look, by target, and the network after the look. Sequence
numbers count from the one given. -/
def look (n : Network) (first : Option EchoRequest) :
    List Sighting × Option EchoRequest × Network :=
  let oldestFirst := n.departures.reverse
  let first := first.or (oldestFirst.head?.map Departure.request)
  let sightings := match first with
    | some request => oldestFirst.map fun d => Departure.sighting d request
    | none => []
  (sightings.mergeSort (fun a b => a.target.rank ≤ b.target.rank), first,
    { n with departures := [] })

end Network

end RouteKeeper
