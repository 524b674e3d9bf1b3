import RouteKeeper.Proofs.LossLimit
import RouteKeeper.Proofs.Measures
import RouteKeeper.Proofs.RoundCounts
import RouteKeeper.Proofs.Rounds
import RouteKeeper.Proofs.Samples
import RouteKeeper.Proofs.Soundness
import RouteKeeper.RouteTable.Memory

/-!
# Averages that can always be formed

A round measures an answer by a clock of nanoseconds that stops at the largest 64-bit number, and
the results of rounds hold no longer time. So every slot of every window is bounded, and with a
bound on the number of slots as well the answer times of a window add up to a duration: a thousand
million slots of the largest 64-bit number of nanoseconds are just no longer than the longest
duration.

## Main definitions

* `Collected` — results that rounds were entered into, with a bound on their times.
* `Window.Within` — a bound on the slots of a window and on its answer times.
* `Window.Averages` — every step of forming the average works.
* `Router.Bounded` — the windows of all paths are within the bounds.

## Main statements

* `Window.Within.averages` — windows within small bounds have averages.
* `Operation.bounded_edit` — what is recorded from bounded results stays within the bounds.
* `Round.collected_run` — what a round makes of any events on its sockets is bounded.
* `Run.averages_throughout` — after every run, and at every moment of a further reconciliation.
-/
namespace RouteKeeper

variable {σ : Type} {most longest : Nat}

/-! ## Results -/

/-- The largest round-trip time that a clock of 64-bit nanoseconds can tell. -/
def longestRtt : Nat := UInt64.size - 1

/-- Rounds were entered into the results, and none of their answers took longer. -/
inductive Collected (longest : Nat) : Results → Prop
  | empty : Collected longest .empty
  | round {results : Results} (h : Collected longest results) (targets : List Address)
    {events : List RoundEvent}
    (hrtt : ∀ source rtt ttl, .reply source rtt ttl ∈ events → rtt.nanos ≤ longest) :
    Collected longest ((Tally.after targets events).commit results)

/-- No round-trip time in the results is longer. -/
theorem Collected.rtt_le {results : Results} (h : Collected longest results) {a : Address}
    {s : ProbeStats} (hs : results.get? a = some s) {rtt : Duration} (hrtt : s.rtt = some rtt) :
    rtt.nanos ≤ longest := by
  induction h generalizing s with
  | empty => cases hs
  | @round results _ targets events hevents ih =>
    rw [Tally.get?_commit_after_eq] at hs
    split at hs
    case isFalse => exact ih hs hrtt
    case isTrue =>
      cases hs
      rw [ProbeStats.rtt] at hrtt
      split at hrtt
      case isFalse => cases hrtt
      case isTrue =>
        -- the time is that of the first answer, which some event reported
        obtain ⟨answer, hfirst, rfl⟩ := Option.map_eq_some_iff.1 hrtt
        obtain ⟨e, he, hanswer⟩ := List.mem_filterMap.1 (List.mem_of_mem_head? hfirst)
        cases e with
        | sent | sendFailed => cases hanswer
        | reply source rtt ttl =>
          rw [RoundEvent.answer?] at hanswer
          split at hanswer
          · cases hanswer
            exact hevents source rtt ttl he
          · cases hanswer

namespace Round

variable {r : Round}

/-- An answer is credited with a time within the range of the clock. -/
theorem credit?_rtt_le {family : Family} {from_ : Address} {bytes : List UInt8} {clock : Nat}
    {source : Address} {rtt : Duration} {ttl : Option UInt8}
    (h : r.credit? family from_ bytes clock = some (.reply source rtt ttl)) :
    rtt.nanos ≤ longestRtt := by
  unfold credit? at h
  split at h
  case isFalse => cases h
  case isTrue =>
    split at h
    case h_2 => cases h
    case h_1 reply _ =>
      split at h
      case isFalse => cases h
      case isTrue =>
        cases h
        rw [Duration.nanos_clamp, longestRtt]
        omega

/-- Whatever happens on its sockets, a round tallies answers within the range of the clock. -/
theorem exists_tally_run_eq (r : Round) (trace : List SocketEvent) :
    ∃ events, (r.run trace).tally = .after r.targets events ∧
      ∀ source rtt ttl, .reply source rtt ttl ∈ events → rtt.nanos ≤ longestRtt := by
  induction trace using List.reverseRecOn with
  | nil => exact ⟨[], rfl, nofun⟩
  | append_singleton trace e ih =>
    obtain ⟨events, htally, hrtt⟩ := ih
    rw [run_concat]
    rcases r.tally_step (r.run trace) e with hsame | ⟨event, hevent, hcredited⟩
    · exact ⟨events, hsame.trans htally, hrtt⟩
    · refine ⟨events ++ [event], ?_, ?_⟩
      · rw [hevent, htally, Tally.after_concat]
      · intro source rtt ttl hreply
        rcases List.mem_append.1 hreply with hearlier | hnow
        · exact hrtt source rtt ttl hearlier
        · obtain ⟨family, from_, bytes, clock, hcredit⟩ :=
            hcredited source rtt ttl (List.mem_singleton.1 hnow).symm
          exact credit?_rtt_le (hcredit.trans (congrArg some (List.mem_singleton.1 hnow).symm))

theorem collected_run {results : Results} (h : Collected longestRtt results) (r : Round)
    (trace : List SocketEvent) : Collected longestRtt ((r.run trace).tally.commit results) := by
  obtain ⟨events, htally, hrtt⟩ := r.exists_tally_run_eq trace
  rw [htally]
  exact h.round r.targets hrtt

end Round

/-! ## Windows -/

namespace Window

/-- The window has no more slots, and no longer answer time. -/
structure Within (most longest : Nat) (w : Window) : Prop where
  capacity : w.capacity ≤ most
  latency {s : Sample} : s ∈ w.recent → s.latency.nanos ≤ longest

/-- The average can be formed: the answer times add up to a duration, a 32-bit counter counts them,
and the division gives the exact mean, rounded down. -/
structure Averages (w : Window) : Prop where
  sum : Duration.total w.answered ≤ Duration.maxNanos
  count : w.answered.length < UInt32.size
  average : w.average? = some w.latency

namespace Within

variable {w : Window}

theorem new {n : Nat} (h : Max.max n 1 ≤ most) : (new n).Within most longest where
  capacity := h
  latency hs := absurd hs List.not_mem_nil

theorem reset (h : w.Within most longest) : w.reset.Within most longest where
  capacity := (capacity_reset w).trans_le h.capacity
  latency hs := by
    rw [recent_reset] at hs
    exact absurd hs List.not_mem_nil

/-- Recording a round adds its answer time and no other. -/
theorem record (h : w.Within most longest) {s : Sample} (hs : s.latency.nanos ≤ longest) :
    (w.record s).Within most longest where
  capacity := (capacity_record w s).trans_le h.capacity
  latency ht := by
    rw [recent_record] at ht
    rcases List.mem_append.1 (List.mem_of_mem_drop ht) with hearlier | hnow
    · exact h.latency hearlier
    · exact (List.mem_singleton.1 hnow).symm ▸ hs

/-- If so many of the longest answer times add up to a duration, the average can be formed. -/
theorem averages (h : w.Within most longest) (hsum : most * longest ≤ Duration.maxNanos)
    (hcount : most < UInt32.size) : w.Averages := by
  have hlength : w.answered.length ≤ most := w.length_answered_le.trans h.capacity
  have heach : ∀ d ∈ w.answered, d.nanos ≤ longest := by
    intro d hd
    obtain ⟨s, hs, rfl⟩ := List.mem_map.1 (List.mem_filter.1 hd).1
    exact h.latency (w.perm_recent.mem_iff.2 hs)
  have htotal : Duration.total w.answered ≤ Duration.maxNanos :=
    calc Duration.total w.answered
      _ ≤ w.answered.length * longest := Duration.total_le_of_le heach
      _ ≤ most * longest := Nat.mul_le_mul_right longest hlength
      _ ≤ Duration.maxNanos := hsum
  have hcounted : w.answered.length < UInt32.size := Nat.lt_of_le_of_lt hlength hcount
  exact ⟨htotal, hcounted, average?_eq_some ⟨htotal, hcounted⟩⟩

end Within

end Window

/-! ## Routers -/

/-- The windows of all paths are within the bounds. -/
def Router.Bounded (most longest : Nat) (r : Router) : Prop :=
  ∀ n c p, r.path? n c = some p → p.window.Within most longest

/-- No answer that the operation records took longer. -/
def Operation.Measures (longest : Nat) (op : Operation) : Prop :=
  ∀ results, op = .recordRound results → ∀ a rtt, results.get? a = some (some rtt) → rtt.nanos ≤ longest

variable {r r' : Router}

/-- The round-trip times of bounded results are bounded. -/
theorem Collected.measures {results : Results} (h : Collected longest results) :
    (Operation.recordRound (results.map ProbeStats.rtt)).Measures longest := by
  intro recorded hrecorded a rtt hentry
  cases hrecorded
  rw [OrderedMap.get?_map] at hentry
  obtain ⟨s, hs, hrtt⟩ := Option.map_eq_some_iff.1 hentry
  exact h.rtt_le hs hrtt

/-- Without new entries a router stays within its bounds. -/
theorem Router.Bounded.remains (h : r.Bounded most longest) (hremains : r.Remains r') :
    r'.Bounded most longest := by
  intro n c p' hp'
  obtain ⟨p, hp, -, -, hwindow⟩ := hremains.origin hp'
  rw [hwindow]
  exact h n c p hp

theorem Router.latency_sample_le (hmicro : 1000 ≤ longest) {rtt : Option Duration}
    (h : ∀ time, rtt = some time → time.nanos ≤ longest) : (sample rtt).latency.nanos ≤ longest := by
  cases rtt with
  | none => exact Nat.zero_le longest
  | some time =>
    show (time.max (.micros 1)).nanos ≤ longest
    rw [Duration.nanos_max]
    exact Nat.max_le.2 ⟨h time rfl, hmicro⟩

/-- What an operation does at once with a window: a path that is asked for has an empty one, of the
size that the policy says, or is there already and may have its window reset; a round that is
recorded makes a record. -/
theorem Operation.window_edit {op : Operation} {n : GroupName} {c : ConnectionName} {p' : Path}
    (hp' : (op.edit r).path? n c = some p') :
    p'.window = .new (r.group n).selector.policy.windowSize ∨
      ∃ p, r.path? n c = some p ∧ (p'.window = p.window ∨ p'.window = p.window.reset ∨
        ∃ s, op.sample? r n c = some s ∧ p'.window = p.window.record s) := by
  rcases path?_edit_cases hp' with
    ⟨spec, rfl, -, rfl, rfl⟩ | ⟨results, rfl, hmeasured⟩ | ⟨-, p, hp, rfl | rfl⟩
  · rw [Router.requested]
    split
    case h_1 p hp =>
      refine .inr ⟨p, hp, ?_⟩
      rw [Path.update]
      dsimp only
      split
      · exact .inr (.inl rfl)
      · exact .inl rfl
    case h_2 => exact .inl rfl
  · rw [Router.path?_recordRound_eq] at hmeasured
    obtain ⟨p, hp, rfl⟩ := Option.map_eq_some_iff.1 hmeasured
    refine .inr ⟨p, hp, ?_⟩
    cases hsample : sample? (.recordRound results) r n c with
    | none => exact .inl rfl
    | some s => exact .inr (.inr ⟨s, rfl, rfl⟩)
  · exact .inr ⟨p', hp, .inl rfl⟩
  · exact .inr ⟨p, hp, .inl rfl⟩

/-- What is recorded from bounded answers stays within the bounds, and so does what is asked for. -/
theorem Operation.bounded_edit {op : Operation} (h : r.Bounded most longest)
    (hsize : ∀ n, Max.max (r.group n).selector.policy.windowSize 1 ≤ most)
    (hmicro : 1000 ≤ longest) (hop : op.Measures longest) : (op.edit r).Bounded most longest := by
  intro n c p' hp'
  rcases window_edit hp' with hnew | ⟨p, hp, hsame | hreset | ⟨s, hs, hrecorded⟩⟩
  · exact hnew ▸ .new (hsize n)
  · exact hsame ▸ h n c p hp
  · exact hreset ▸ (h n c p hp).reset
  · obtain ⟨results, q, rtt, rfl, -, -, hentry, rfl⟩ := sample?_eq_some_iff.1 hs
    rw [hrecorded]
    refine (h n c p hp).record (Router.latency_sample_le hmicro ?_)
    rintro time rfl
    exact hop results rfl q.address time hentry

/-! ## Runs -/

namespace Run

variable {T : RouteTable σ} {policy : Policy} {table : σ}

/-- All groups of a run select by the policy that it started with. -/
theorem uniform_after (ops : List Operation) :
    (after T policy table ops).router.Uniform policy := by
  induction ops using List.reverseRecOn with
  | nil => exact ⟨rfl, nofun⟩
  | append_singleton ops op ih =>
    rw [after_concat]
    by_cases hop : ∃ visits, op = .reconcile visits
    · obtain ⟨visits, rfl⟩ := hop
      rw [router_perform_reconcile]
      exact ih.reconcileWith (keyed_after ops) T visits _
    · rw [perform_of_ne (not_exists.1 hop)]
      exact Router.uniform_iff.2 ((Router.uniform_iff.1 ih).edit op)

/-- A run that records bounded answers only stays within the bounds. -/
theorem bounded_after (hsize : Max.max policy.windowSize 1 ≤ most) (hmicro : 1000 ≤ longest)
    {ops : List Operation} (hops : ∀ op ∈ ops, op.Measures longest) :
    (after T policy table ops).router.Bounded most longest := by
  induction ops using List.reverseRecOn with
  | nil => exact nofun
  | append_singleton ops op ih =>
    have hbefore := ih fun earlier h => hops earlier (List.mem_append_left _ h)
    rw [after_concat]
    by_cases hop : ∃ visits, op = .reconcile visits
    · obtain ⟨visits, rfl⟩ := hop
      rw [router_perform_reconcile]
      exact hbefore.remains (Router.remains_reconcileWith (keyed_after ops) T visits _)
    · rw [perform_of_ne (not_exists.1 hop)]
      refine Operation.bounded_edit hbefore ?_ hmicro (hops op (by simp))
      intro n
      rwa [(Router.uniform_iff.1 (uniform_after ops)).of_group n]

/-- What comes from rounds is bounded by the range of the clock. -/
theorem measures_of_collected {ops : List Operation}
    (hrounds : ∀ recorded, .recordRound recorded ∈ ops →
      ∃ results, Collected longestRtt results ∧ recorded = results.map ProbeStats.rtt) :
    ∀ op ∈ ops, op.Measures longestRtt := by
  rintro op hop recorded rfl
  obtain ⟨results, hresults, rfl⟩ := hrounds recorded hop
  exact hresults.measures _ rfl

/-- At no moment of a further reconciliation has the router paths with other windows. -/
theorem remains_moment (ops : List Operation) (visits : Nat → Visit) (k : Nat) (turns : List Turn) :
    let run := after T policy table ops
    let s := (Reconciled.step T visits)^[k] (run.router.unreconciled run.table)
    run.router.Remains (s.midway T turns).router := by
  intro run s
  have hkeyed : (run.router.unreconciled run.table).router.Keyed := keyed_after ops
  obtain ⟨hkept, hpassed⟩ := Reconciled.remains_steps hkeyed T visits k
  exact hpassed.trans (Reconciled.remains_midway hkept T turns)

/-- While windows have a thousand million slots at most, and what is recorded comes from rounds
whose answers took no longer than the largest 64-bit number of nanoseconds, the average of every
window can be formed: after the run, and at every moment of a further reconciliation, in each of its
passes. What a round makes of any events on its sockets has no longer answers. -/
theorem averages_throughout (T : RouteTable σ) (policy : Policy) (table : σ) (ops : List Operation)
    (hsize : policy.windowSize ≤ 1000000000)
    (hrounds : ∀ recorded, .recordRound recorded ∈ ops →
      ∃ results, Collected longestRtt results ∧ recorded = results.map ProbeStats.rtt) :
    let run := after T policy table ops
    (∀ n c p, run.router.path? n c = some p → p.window.Averages) ∧
    (∀ visits k turns n c p,
      let s := (Reconciled.step T visits)^[k] (run.router.unreconciled run.table)
      (s.midway T turns).router.path? n c = some p → p.window.Averages) ∧
    ∀ (round : Round) (trace : List SocketEvent) (results : Results), Collected longestRtt results →
      Collected longestRtt ((round.run trace).tally.commit results) := by
  intro run
  have hbounded : run.router.Bounded 1000000000 longestRtt :=
    bounded_after (Nat.max_le.2 ⟨hsize, by decide⟩) (by decide) (measures_of_collected hrounds)
  have haverages {r : Router} (h : r.Bounded 1000000000 longestRtt) :
      ∀ n c p, r.path? n c = some p → p.window.Averages :=
    fun n c p hp => (h n c p hp).averages (by decide) (by decide)
  refine ⟨haverages hbounded, ?_, fun round trace _ h => round.collected_run h trace⟩
  intro visits k turns n c p s
  exact haverages (hbounded.remains (remains_moment ops visits k turns)) n c p

/-- A round about one target, which answers as late as the clock can tell. -/
def late : Results :=
  (Tally.after [.v4 1] [.sent (.v4 1), .reply (.v4 1) (.clamp longestRtt) none]).commit .empty

/-- With the largest windows, and the longest answers, a path has an average of that length. -/
theorem averages_throughout_late :
    let policy : Policy := { Policy.default with windowSize := 1000000000 }
    let ops : List Operation := [.addPeer ⟨"alpha"⟩ (.v4 "t1" "wg-a" 1),
      .recordRound (late.map ProbeStats.rtt), .recordRound (late.map ProbeStats.rtt)]
    let run := after RouteTable.memory policy .empty ops
    policy.windowSize ≤ 1000000000 ∧
    (∀ recorded, .recordRound recorded ∈ ops →
      ∃ results, Collected longestRtt results ∧ recorded = results.map ProbeStats.rtt) ∧
    ∃ p, run.router.path? ⟨"alpha"⟩ ⟨"t1"⟩ = some p ∧
      p.window.recent = [⟨.clamp longestRtt, false⟩, ⟨.clamp longestRtt, false⟩] ∧
      p.window.Averages ∧ p.window.average? = some (.clamp longestRtt) := by
  intro policy ops run
  have hlate : Collected longestRtt late := by
    refine Collected.empty.round _ ?_
    intro source rtt ttl hreply
    simp only [List.mem_cons, List.not_mem_nil, or_false, reduceCtorEq, false_or,
      RoundEvent.reply.injEq] at hreply
    rw [hreply.2.1]
    decide
  have hrounds : ∀ recorded, .recordRound recorded ∈ ops →
      ∃ results, Collected longestRtt results ∧ recorded = results.map ProbeStats.rtt := by
    intro recorded h
    simp only [ops, List.mem_cons, List.not_mem_nil, or_false, reduceCtorEq, false_or, or_self,
      Operation.recordRound.injEq] at h
    exact ⟨late, hlate, h⟩
  have hstate : (run.router.path? ⟨"alpha"⟩ ⟨"t1"⟩).map (fun p => (p.window.recent, p.window.latency)) =
      some ([⟨.clamp longestRtt, false⟩, ⟨.clamp longestRtt, false⟩], .clamp longestRtt) := by
    decide +kernel
  obtain ⟨p, hp, hwindow⟩ := Option.map_eq_some_iff.1 hstate
  obtain ⟨hrecent, hlatency⟩ := Prod.mk.inj hwindow
  have haverages : p.window.Averages :=
    (averages_throughout RouteTable.memory policy .empty ops (Nat.le_refl _) hrounds).1 _ _ p hp
  exact ⟨Nat.le_refl _, hrounds, p, hp, hrecent, haverages, haverages.average.trans
    (congrArg some hlatency)⟩

end Run

end RouteKeeper
