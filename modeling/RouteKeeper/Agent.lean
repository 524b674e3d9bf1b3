import RouteKeeper.Feed
import RouteKeeper.Probe.Network
import RouteKeeper.Reconcile
import RouteKeeper.Settings

/-!
# The agent

An agent runs two loops: one probes the destinations of a router and records the rounds, one
reconciles the router with its route table. Each loop waits for its next tick or for the signal to
end, and looks for neither while it is at work. The router is locked while it is used, so a loop may
have to wait before it reads the destinations, records a round or reconciles. What an agent does is
a sequence of moves; some are calls by its owner, some are steps of its loops, and one is the
passing of time. Where a loop may both tick and end, either may happen. Times are nanoseconds.

## Main definitions

* `Agent.move?` — one move, if it is possible.
* `Agent.advance` — all moves that are due up to a time. Where a loop may both tick and end, it is
  drawn which it does.
* `Agent.join?` — wait for the loops to end.
-/
namespace RouteKeeper

/-- What a loop does at its ticks. -/
inductive LoopKind where
  | probe
  | apply
deriving DecidableEq

/-- A probe round in progress: when it ends and what it will have counted. -/
structure InFlight where
  finish : Nat
  results : Results

/-- What a loop is at, from taking a tick to waiting for the next. -/
inductive Work where
  /-- The destinations of a probe round are to be read. -/
  | listing
  | probing (round : InFlight)
  /-- The router is to be reconciled. -/
  | applying

/-- The time before which a work does not go on. -/
def Work.earliest : Work → Nat
  | .listing | .applying => 0
  | .probing round => round.finish

/-- What a tick begins. -/
def LoopKind.work : LoopKind → Work
  | .probe => .listing
  | .apply => .applying

/-- A running loop. -/
structure Loop where
  kind : LoopKind
  period : Duration
  /-- The time of the next tick. -/
  due : Nat
  /-- The time at which the loop was told to end. -/
  signal : Option Nat
  work : Option Work

namespace Loop

/-- A loop that was just started; its first tick is due at once. -/
def new (kind : LoopKind) (period : Duration) (now : Nat) : Loop := ⟨kind, period, now, none, none⟩

/-- The loop waits for its next tick. -/
def isWaiting (l : Loop) : Bool := l.work.isNone

/-- The loop was told to end. -/
def signalled (l : Loop) : Bool := l.signal.isSome

/-- The loop, told to end. -/
def told (l : Loop) (now : Nat) : Loop := { l with signal := l.signal.or (some now) }

/-- The loop after its work. -/
def rested (l : Loop) : Loop := { l with work := none }

/-- By how much a tick may be late without moving the ticks after it. -/
def slack : Nat := 5000000

/-- The time that clocks do not reach: `2 ^ 63` seconds. -/
def horizon : Nat := 9223372036854775808000000000

/-- The wait for a tick that would be due at the horizon or later: thirty years. -/
def longestWait : Nat := 946080000000000000

/-- The time of the tick after one that is taken now: one period later, counted from now if the tick
is late. -/
def nextDue (l : Loop) (now : Nat) : Nat :=
  let due := (if now > l.due + slack then now else l.due) + l.period.nanos
  if due < horizon then due else now + longestWait

/-- The loop after a tick. -/
def ticked (l : Loop) (now : Nat) : Loop :=
  { l with due := l.nextDue now, work := some l.kind.work }

/-- A bound on the moves of the loop in so much time: each of its ticks makes three at most, and it
leaves once. -/
def moves (l : Loop) (time : Nat) : Nat :=
  3 * (time / min longestWait (max l.period.nanos 1) + 3)

end Loop

/-- A move of an agent or its surroundings; loops are named by their place in the list. -/
inductive Move where
  | start
  | stop
  /-- Take over the running loops in order to wait for them. -/
  | takeLoops
  /-- Time passes until then. -/
  | elapse (time : Nat)
  /-- A waiting loop ends because it was told to. -/
  | leave (loop : Nat)
  /-- A waiting loop takes a tick that is due. -/
  | tick (loop : Nat)
  /-- A loop goes on with its work. -/
  | proceed (loop : Nat)
deriving DecidableEq

/-- An agent with its surroundings. -/
structure Agent (σ : Type) where
  settings : ProbeSettings
  applyInterval : Duration
  router : Router
  prober : Prober
  network : Network
  table : σ
  feed : Feed
  now : Nat
  /-- What the prober measures its time with. It is set apart from the time that passes. -/
  clock : Nat
  /-- Set by the first stop, for good. -/
  stopped : Bool
  /-- Somebody has yet to wait for loops that were started. -/
  hasLoops : Bool
  loops : List Loop
  /-- The counts of the latest round that ended. -/
  lastRound : Results

variable {σ : Type}

namespace Agent

/-- An agent that was not started. -/
def new (settings : ProbeSettings) (applyInterval : Duration) (router : Router) (prober : Prober)
    (table : σ) (clock : Nat) : Agent σ where
  settings := settings
  applyInterval := applyInterval
  router := router
  prober := prober
  network := .silent
  table := table
  feed := .empty
  now := 0
  clock := clock
  stopped := false
  hasLoops := false
  loops := []
  lastRound := .empty

/-- An agent with these settings, if they are valid and sockets can be opened. -/
def ofSettings (s : Settings) (identity : Identity) (sockets : SocketOutcome) (table : σ)
    (clock : Nat) : Except Error (Agent σ) := do
  s.validate
  let prober ← Prober.open? s.probe identity sockets
  return new s.probe s.routing.applyInterval (.new s.selection) prober table clock

/-! ## Calls by the owner -/

/-- Start the loops. A stopped agent, and one whose loops nobody has waited for, is left as it is.
-/
def start (a : Agent σ) : Agent σ :=
  if a.stopped || a.hasLoops then a
  else
    { a with
      hasLoops := true
      loops := a.loops ++
        [.new .probe a.settings.interval a.now, .new .apply a.applyInterval a.now] }

/-- Tell the loops to end. -/
def stop (a : Agent σ) : Agent σ :=
  { a with stopped := true, loops := a.loops.map (·.told a.now) }

/-- Take over the running loops. -/
def takeLoops (a : Agent σ) : Agent σ := { a with hasLoops := false }

/-- Change the router. -/
def withRouter (a : Agent σ) (f : Router → Router) : Agent σ := { a with router := f a.router }

/-- Reconcile the router with the table and announce what was done. -/
def reconcile (T : RouteTable σ) (a : Agent σ) : Report × Agent σ :=
  let (router, table, report) := a.router.reconcile T a.table
  (report, { a with router, table, feed := a.feed.push report.events })

/-! ## Steps of the loops -/

/-- A probe round would last to the horizon. -/
def outlasts (a : Agent σ) : Bool :=
  a.now + a.settings.timeout.nanos ≥ Loop.horizon &&
    !(a.prober.targets a.router.destinations).isEmpty

/-- Read the destinations and start a probe round, if there is something to probe. The loop fails if
the round would last to the horizon. -/
def beginRound (a : Agent σ) (place : Nat) : Agent σ :=
  let destinations := a.router.destinations
  if a.outlasts then { a with loops := a.loops.eraseIdx place }
  else if destinations.isEmpty then { a with loops := a.loops.modify place Loop.rested }
  else
    let (results, finish, prober, network) :=
      a.network.probe a.prober destinations a.now a.clock a.settings.timeout.nanos .empty
    { a with
      prober
      network
      loops := a.loops.modify place fun l => { l with work := some (.probing ⟨finish, results⟩) } }

/-- Record a round that ended. -/
def finish (a : Agent σ) (place : Nat) (round : InFlight) : Agent σ :=
  { a with
    router := a.router.recordRound (round.results.map ProbeStats.rtt)
    lastRound := round.results
    loops := a.loops.modify place Loop.rested }

/-- What a loop does next at its work. -/
def proceed (T : RouteTable σ) (a : Agent σ) (place : Nat) : Work → Agent σ
  | .listing => a.beginRound place
  | .probing round => a.finish place round
  | .applying =>
    let reconciled := (a.reconcile T).2
    { reconciled with loops := reconciled.loops.modify place Loop.rested }

/-- What a loop does at a tick. A loop without a period fails. -/
def tick (a : Agent σ) (place : Nat) (l : Loop) : Agent σ :=
  if l.period.isZero then { a with loops := a.loops.eraseIdx place }
  else { a with loops := a.loops.modify place (·.ticked a.now) }

/-- Make a move, if it is possible. -/
def move? (T : RouteTable σ) (a : Agent σ) : Move → Option (Agent σ)
  | .start => some a.start
  | .stop => some a.stop
  | .takeLoops => some a.takeLoops
  | .elapse time => if a.now ≤ time then some { a with now := time } else none
  | .leave place =>
    match a.loops[place]? with
    | some l =>
      if l.isWaiting && l.signalled then some { a with loops := a.loops.eraseIdx place } else none
    | none => none
  | .tick place =>
    match a.loops[place]? with
    | some l => if l.isWaiting && l.due ≤ a.now then some (a.tick place l) else none
    | none => none
  | .proceed place =>
    match a.loops[place]?.bind Loop.work with
    | some work => if work.earliest ≤ a.now then some (a.proceed T place work) else none
    | none => none

/-! ## Letting time pass -/

/-- The next move of a loop and its time. A loop that was told to end does so as soon as it waits;
but if a tick is due as well, a draw decides whether it takes that first. -/
def nextOf (a : Agent σ) (ticksFirst : Bool) (place : Nat) (l : Loop) : Nat × Move :=
  match l.work, l.signal with
  | some work, _ => (max work.earliest a.now, .proceed place)
  | none, none => (max l.due a.now, .tick place)
  | none, some _ => (a.now, if ticksFirst && l.due ≤ a.now then .tick place else .leave place)

/-- The next move of all and its time; of several at one time, that of the first loop. -/
def next? (a : Agent σ) (ticksFirst : Bool) : Option (Nat × Move) :=
  firstLeast (fun m n => m.1 < n.1) (a.loops.mapIdx (a.nextOf ticksFirst))

/-- Make up to so many moves, as long as they are not after a time, if there is one. The draws are
numbered by the moves that are left. -/
def run (T : RouteTable σ) (draws : Nat → Bool) (limit : Option Nat) : Nat → Agent σ → Agent σ
  | 0, a => a
  | fuel + 1, a =>
    match a.next? (draws fuel) with
    | none => a
    | some (time, move) =>
      if limit.all (time ≤ ·) then
        match { a with now := time }.move? T move with
        | none => a
        | some a => run T draws limit fuel a
      else a

/-- The moves that the loops can make in so much time, or more. -/
def moves (a : Agent σ) (time : Nat) : Nat := a.loops.foldr (fun l n => l.moves time + n) 0

/-- Let so much time pass. -/
def advance (T : RouteTable σ) (draws : Nat → Bool) (a : Agent σ) (time : Nat) : Agent σ :=
  let target := a.now + time
  { run T draws (some target) (a.moves time) a with now := target }

/-- The loop fails at its next tick. -/
def endsAtTick (a : Agent σ) (l : Loop) : Bool :=
  l.period.isZero || l.kind = .probe && a.outlasts

/-- Wait until the loops have ended, if all were told to or will fail, and the draws let them. -/
def join? (T : RouteTable σ) (draws : Nat → Bool) (a : Agent σ) : Option (Agent σ) :=
  if a.loops.all fun l => l.signalled || a.endsAtTick l then
    let ended := run T draws none (a.moves 0) a.takeLoops
    if ended.loops.isEmpty then some ended else none
  else none

end Agent

end RouteKeeper
