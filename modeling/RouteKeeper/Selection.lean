import RouteKeeper.Path

/-!
# Selecting a path

A selector remembers the connection it selected last and leaves it only for a path that is better by
enough: one that loses fewer rounds, or that loses as many, has a complete window and answers sooner
by a ratio and by a difference. Which path the candidate is measured against is the strategy.

## Main definitions

* `Policy` — the strategy and its thresholds.
* `Policy.improvement` — why a candidate should replace a reference, if it should.
* `Selector.select` — one selection over a map of paths, with any comparison of losses.
* `Selector.select?` — the selection by doubles, if it comes out.
-/
namespace RouteKeeper

/-- What the best path is measured against: the path selected last, or the direct one. -/
inductive Strategy where
  | lowestLatency
  | preferDirect
deriving DecidableEq

/-- How paths are selected. -/
structure Policy where
  strategy : Strategy
  /-- The rounds that the window of a path remembers. -/
  windowSize : Nat
  /-- The least ratio of the old to the new latency. -/
  rerouteRatio : Float
  /-- The least difference of the old and the new latency. -/
  rerouteDiff : Duration
  /-- From this loss in percent on nothing is selected; zero switches the rule off. -/
  deleteThreshold : Nat

def Policy.default : Policy := ⟨.lowestLatency, Window.defaultCapacity, 1.2, .millis 10, 0⟩

/-- The outcome of a selection. -/
structure Selection where
  address : Option Address
  connection : Option ConnectionName
  reason : Reason
deriving DecidableEq

namespace Selection

/-- Nothing is selected. -/
def deleted (loss : Option Double) : Selection := ⟨none, none, .deleted loss⟩

def isDelete (s : Selection) : Bool := s.address.isNone

end Selection

namespace Policy

/-- The latencies, both known, differ by the ratio and the difference that are asked for. -/
def isMuchSooner (policy : Policy) (old new : Duration) : Bool :=
  old.inSeconds / new.inSeconds ≥ policy.rerouteRatio && old.minus new ≥ policy.rerouteDiff

/-- Why the candidate should replace the reference, if it should. -/
def improvement (less : Loss → Loss → Bool) (policy : Policy) (reference candidate : Path) :
    Option Reason :=
  if less candidate.window.loss reference.window.loss then
    some (.lossImproved reference.window.loss.share candidate.window.loss.share)
  else if less reference.window.loss candidate.window.loss || candidate.window.incomplete then none
  else
    let old := reference.window.latency
    let new := candidate.window.latency
    if old.isZero || new.isZero || new ≥ old then none
    else if policy.isMuchSooner old new then some (.latencyImproved old new)
    else none

end Policy

/-- How a newly selected path compares with the one selected before it. -/
def Reason.between (less : Loss → Loss → Bool) (previous chosen : Path) : Reason :=
  let old := previous.window.latency
  let new := chosen.window.latency
  if less chosen.window.loss previous.window.loss then
    .lossImproved previous.window.loss.share chosen.window.loss.share
  else if !old.isZero && !new.isZero && new < old then .latencyImproved old new
  else .newRoute

/-- A policy and the connection that was selected last. -/
structure Selector where
  policy : Policy
  last : Option ConnectionName

namespace Selector

/-- A selector without memory. -/
def new (policy : Policy) : Selector := ⟨policy, none⟩

/-- Forget the last selection. -/
def reset (s : Selector) : Selector := { s with last := none }

/-- The path selected last, if it may still be selected. -/
def remembered (s : Selector) (paths : Paths) : Option Path :=
  (s.last.bind paths.get?).filter Path.isValid

/-- The path that the best one is measured against. -/
def reference (s : Selector) (paths : Paths) : Option Path :=
  match s.policy.strategy with
  | .lowestLatency => s.remembered paths
  | .preferDirect =>
    (paths.values.find? fun p => p.connection.isDirect && p.isValid).or (s.remembered paths)

section

variable (less : Loss → Loss → Bool)

/-- The path to select, given the best one, and the reason if it replaces the reference. -/
def choose (s : Selector) (paths : Paths) (best : Path) : Path × Option Reason :=
  match s.reference paths with
  | none => (best, none)
  | some r =>
    if r.connection = best.connection then (r, none)
    else
      match s.policy.improvement less r best with
      | some reason => (best, some reason)
      | none => (r, none)

/-- The reason of a selection, told against the selection before it. -/
def explain (s : Selector) (paths : Paths) (chosen : Path) (replacing : Option Reason) : Reason :=
  match s.remembered paths with
  | none => .newRoute
  | some l =>
    if l.connection = chosen.connection then .unchanged
    else
      match s.reference paths, replacing with
      | some r, some reason =>
        if r.connection = l.connection then reason else .between less l chosen
      | _, _ => .between less l chosen

/-- Select a path, given the best one. Nothing is selected, and the memory is lost, if there is none
or the path to select loses as much as the policy's limit. -/
def conclude (s : Selector) (paths : Paths) : Option Path → Selection × Selector
  | none => (.deleted none, s.reset)
  | some best =>
    let (chosen, replacing) := s.choose less paths best
    if s.policy.deleteThreshold > 0 && chosen.window.lossReaches s.policy.deleteThreshold then
      (.deleted (some chosen.window.loss.share), s.reset)
    else
      (⟨some chosen.address, some chosen.connection, s.explain less paths chosen replacing⟩,
        { s with last := some chosen.connection })

/-- Select a path. -/
def select (s : Selector) (paths : Paths) : Selection × Selector :=
  s.conclude less paths (Path.best less paths.values)

@[simp] theorem policy_conclude (s : Selector) (paths : Paths) (best : Option Path) :
    (s.conclude less paths best).2.policy = s.policy := by
  unfold conclude
  split
  · rfl
  · simp only []
    split <;> rfl

@[simp] theorem policy_select (s : Selector) (paths : Paths) :
    (s.select less paths).2.policy = s.policy := policy_conclude less s paths _

end

/-- Select a path by doubles, if the best one can be found. Once it is, the averages of all paths
that are compared are formed. -/
def select? (s : Selector) (paths : Paths) : Option (Selection × Selector) :=
  (Path.best? paths.values).map (s.conclude Loss.lessShare paths)

end Selector

end RouteKeeper
