import RouteKeeper.Echo
import RouteKeeper.OsError
import RouteKeeper.Probe.Stats

/-!
# Probing

A prober has at most one socket for each address family. In a round it sends one request to every
target, all with one sequence number, and counts the replies that reach it before the round ends. A
reply belongs to the round if it brings back the prober's tracker and the round's number, and, where
the prober chose it, the identifier.

## Main definitions

* `Prober` — the sockets and the identity of a prober.
* `Round` — the identity of one round.
* `Round.step` — what a round does with one thing that happens on its sockets.
-/
namespace RouteKeeper

/-- How sockets are opened: raw ones, where the identifier is ours to choose, or datagram ones,
where the system chooses it. -/
inductive ProbeMode where
  | privileged
  | unprivileged
deriving DecidableEq

/-- How to probe. -/
structure ProbeSettings where
  mode : ProbeMode
  interval : Duration
  timeout : Duration
  payloadSize : Nat

def ProbeSettings.default : ProbeSettings := ⟨.privileged, .seconds 2, .seconds 1, leastPayload⟩

/-- The numbers by which a prober tells its own replies. -/
structure Identity where
  tracker : UInt64
  identifier : UInt16
  /-- The sequence number before the first round. -/
  sequence : UInt16
deriving DecidableEq

/-- The receive buffer asked for each socket. -/
def receiveBufferRequest : Nat := 262144

/-- What opening the socket of a family comes to: it works, or fails with an error number. -/
abbrev SocketOutcome := Family → Option Nat

/-- A prober with its open sockets and the sequence number of its last round. -/
structure Prober where
  mode : ProbeMode
  payloadSize : Nat
  tracker : UInt64
  identifier : UInt16
  sequence : UInt16
  /-- The family has a socket. -/
  isOpen : Family → Bool

namespace Prober

/-- Make a prober. One family without a socket is left out; with none there is no prober. -/
def open? (settings : ProbeSettings) (identity : Identity) (sockets : SocketOutcome) :
    Except Error Prober :=
  if settings.payloadSize < leastPayload then
    .error (.probe (.payloadTooSmall settings.payloadSize leastPayload))
  else
    match sockets .v4, sockets .v6 with
    | some number, some _ => .error (.probe (.socketUnavailable .v4 (OsError.message number)))
    | _, _ =>
      .ok
        { mode := settings.mode
          payloadSize := settings.payloadSize
          tracker := identity.tracker
          identifier := identity.identifier
          sequence := identity.sequence
          isOpen := fun family => (sockets family).isNone }

/-- What making a prober asks of the system: the families that a socket is opened for, and the
size of the receive buffer of each socket that is open. -/
def requests (settings : ProbeSettings) (sockets : SocketOutcome) : List Family × List Nat :=
  if settings.payloadSize < leastPayload then ([], [])
  else
    ([.v4, .v6],
      ([Family.v4, .v6].filter fun f => (sockets f).isNone).map fun _ => receiveBufferRequest)

/-- The addresses that a round probes, each once and in order: canonical, specified, and of a family
with a socket. -/
def targets (p : Prober) (addresses : List Address) : List Address :=
  (OrderedMap.ofList
    (((addresses.map Address.canonical).filter fun a =>
      !a.isUnspecified && p.isOpen a.family).map fun a => (a, ()))).keys

end Prober

/-- The identity of a round, and its targets. -/
structure Round where
  identifier : UInt16
  sequence : UInt16
  tracker : UInt64
  /-- Replies must bring back the identifier. -/
  checkIdentifier : Bool
  payloadSize : Nat
  targets : List Address

/-- Something read from a socket: a datagram and its source, or an error number. -/
inductive Arrival where
  | datagram (source : Address) (bytes : List UInt8)
  | failure (number : Nat)
deriving DecidableEq

/-- Something that happens on the sockets of a round. -/
inductive SocketEvent where
  /-- The request to a target left, or sending it failed for good. -/
  | send (target : Address) (ok : Bool)
  /-- A receive call returned, at this many nanoseconds since the prober was made. -/
  | receive (family : Family) (arrival : Arrival) (clock : Nat)
deriving DecidableEq

namespace Round

/-- The next round of a prober, if it has targets, and the prober after it. -/
def next? (p : Prober) (addresses : List Address) : Option (Round × Prober) :=
  let targets := p.targets addresses
  if targets.isEmpty then none
  else
    let sequence := p.sequence + 1
    some
      ({ identifier := p.identifier
         sequence
         tracker := p.tracker
         checkIdentifier := p.mode = .privileged
         payloadSize := p.payloadSize
         targets },
        { p with sequence })

/-- The request of the round, sent at the given time. -/
def request (r : Round) (clock : Nat) : EchoRequest :=
  ⟨r.identifier, r.sequence, r.tracker, UInt64.ofNat (min clock (UInt64.size - 1))⟩

/-- The reply answers a request of the round. -/
def accepts (r : Round) (reply : EchoReply) : Bool :=
  reply.tracker = r.tracker && reply.sequence = r.sequence &&
    (!r.checkIdentifier || reply.identifier = r.identifier)

/-- The bytes that a receive call can return: an IPv4 header with options, and an echo message. -/
def bufferSize (r : Round) : Nat := 60 + echoHeaderLength + r.payloadSize

/-- Requests of the round fit into memory. One that does not is not even tried. -/
def fits (r : Round) : Bool := r.payloadSize ≤ mostPayload

/-- The sockets can be read: the size of the buffer, a 64-bit number, fits into memory. -/
def hasBuffer (r : Round) : Bool := r.bufferSize % UInt64.size < 0x8000000000000000

/-- The reply in a datagram that counts for the round, if there is one. -/
def credit? (r : Round) (family : Family) (source : Address) (bytes : List UInt8) (clock : Nat) :
    Option RoundEvent :=
  if r.targets.contains source.canonical then
    match EchoReply.decode family (bytes.take r.bufferSize) with
    | .ok (some reply) =>
      if r.accepts reply then
        some (.reply source.canonical
          (.clamp (min clock (UInt64.size - 1) - reply.sentAt.toNat)) reply.ttl)
      else none
    | _ => none
  else none

/-- The families with targets: a round reads only from their sockets. -/
def reads (r : Round) (family : Family) : Bool := r.targets.any (·.family = family)

/-- A round in progress: its tally, and the families whose socket failed for good. -/
structure Progress where
  tally : Tally
  broken : List Family

/-- The start of a round. -/
def start (r : Round) : Progress := ⟨.new r.targets, []⟩

/-- What a round does with one thing that happens on its sockets. After an error that a new call
does not mend it reads no more from the socket. -/
def step (r : Round) (p : Progress) : SocketEvent → Progress
  | .send target true => { p with tally := p.tally.handle (.sent target) }
  | .send target false => { p with tally := p.tally.handle (.sendFailed target) }
  | .receive family arrival clock =>
    if p.broken.contains family then p
    else
      match arrival with
      | .failure number =>
        if OsError.isRetryable number then p else { p with broken := family :: p.broken }
      | .datagram source bytes =>
        match r.credit? family source bytes clock with
        | some event => { p with tally := p.tally.handle event }
        | none => p

/-- What a round makes of all that happens on its sockets. -/
def run (r : Round) (trace : List SocketEvent) : Progress := trace.foldl r.step r.start

end Round

end RouteKeeper
