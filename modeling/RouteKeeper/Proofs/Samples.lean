import RouteKeeper.Proofs.Recent
import RouteKeeper.Proofs.Rewrites

/-!
# Where samples come from

A round is recorded some time after its destinations were listed, and anything may happen to the
paths in between. What is recorded goes to the paths that have the address then. A path forgets what
it holds with its address, so its window tells the rounds since it was given the address that it
has, and nothing else.

## Main definitions

* `Operation.sample?` — what an operation records for a path.
* `Operation.Gives` — an operation adds a path with an address, or changes the address of the path.
* `Run.samples` — all that further operations record for a path.

## Main statements

* `Operation.sample?_eq_some_iff` — the rounds that are recorded for a path.
* `Run.path?_perform` — what an operation makes of a path with its window.
* `Run.exists_gives` — the window of a path is what was recorded since its address was given.
-/
namespace RouteKeeper

variable {σ : Type} {n : GroupName} {c : ConnectionName}

/-- The path is the one from before with its address, and its window but for this sample. -/
structure Path.Continues (p p' : Path) (s : Option Sample) : Prop where
  address : p'.address = p.address
  window : p'.window = s.elim p.window p.window.record

theorem Path.Continues.refl (p : Path) : p.Continues p none := ⟨rfl, rfl⟩

/-! ## Operations -/

namespace Operation

/-- The sample that an operation records for a path of a router, if it records one. -/
def sample? (op : Operation) (r : Router) (n : GroupName) (c : ConnectionName) : Option Sample :=
  match op with
  | .recordRound results =>
    (r.path? n c).bind fun p =>
      if p.flags.pendingDelete then none else (results.get? p.address).map Router.sample
  | _ => none

/-- The operation asks for a path at this address, which is not there or has another address. -/
def Gives (op : Operation) (r : Router) (n : GroupName) (c : ConnectionName) (address : Address) :
    Prop :=
  ∃ spec, op = .addPeer n spec ∧ spec.isUsable = true ∧ spec.connection = c ∧
    spec.address.canonical = address ∧ ∀ p, r.path? n c = some p → p.address ≠ address

variable {r : Router}

theorem sample?_of_ne {op : Operation} (h : ∀ results, op ≠ .recordRound results) :
    op.sample? r n c = none := by
  cases op with
  | recordRound results => exact absurd rfl (h results)
  | _ => rfl

/-- Only a round with an entry for the address of a path that is to stay is recorded for it. -/
theorem sample?_eq_some_iff {op : Operation} {s : Sample} :
    op.sample? r n c = some s ↔ ∃ results p rtt, op = .recordRound results ∧
      r.path? n c = some p ∧ p.flags.pendingDelete = false ∧
      results.get? p.address = some rtt ∧ Router.sample rtt = s := by
  constructor
  · intro h
    cases op with
    | recordRound results =>
      obtain ⟨p, hp, hs⟩ := Option.bind_eq_some_iff.1 h
      split at hs
      case isTrue => cases hs
      case isFalse hstays =>
        obtain ⟨rtt, hrtt, hs⟩ := Option.map_eq_some_iff.1 hs
        exact ⟨results, p, rtt, rfl, hp, Bool.eq_false_iff.2 hstays, hrtt, hs⟩
    | _ => cases h
  · rintro ⟨results, p, rtt, rfl, hp, hstays, hrtt, rfl⟩
    simp [sample?, hp, hstays, hrtt]

end Operation

namespace Router

variable {r : Router}

/-- A sample is lost and without a time exactly if no answer came, and else it has the time of the
answer, a microsecond at least. -/
theorem sample_spec (rtt : Option Duration) :
    ((sample rtt).lost = true ∧ (sample rtt).latency = .zero ↔ rtt = none) ∧
      ∀ time, rtt = some time → sample rtt = ⟨time.max (.micros 1), false⟩ := by
  cases rtt with
  | none => exact ⟨⟨fun _ => rfl, fun _ => ⟨rfl, rfl⟩⟩, nofun⟩
  | some time =>
    refine ⟨⟨nofun, nofun⟩, ?_⟩
    intro other hsame
    cases hsame
    rfl

/-- A round adds to each path what it records for it. -/
theorem path?_recordRound_eq (results : RoundTrips) :
    (r.recordRound results).path? n c = (r.path? n c).map fun p =>
      ((Operation.recordRound results).sample? r n c).elim p p.record := by
  simp only [recordRound, Operation.sample?, path?, OrderedMap.get?_map, Option.bind_map]
  cases r.groups.get? n with
  | none => rfl
  | some g =>
    simp only [Option.bind_some, Function.comp, OrderedMap.get?_map]
    cases g.paths.get? c with
    | none => rfl
    | some p =>
      simp only [Option.map_some, Option.bind_some]
      split
      · rfl
      · cases results.get? p.address <;> rfl

/-- A round without an entry for the address of a path leaves the path as it is. -/
theorem path?_recordRound_of_get?_eq_none {results : RoundTrips} {p : Path}
    (hp : r.path? n c = some p) (hentry : results.get? p.address = none) :
    (r.recordRound results).path? n c = some p := by
  have hsample : (Operation.recordRound results).sample? r n c = none := by
    simp [Operation.sample?, hp, hentry]
  rw [path?_recordRound_eq, hsample, hp]
  rfl

/-- A path that is asked for continues the one from before, or is given its address. -/
theorem requested_continues (spec : PathSpec) (husable : spec.isUsable = true) :
    ((Operation.addPeer n spec).Gives r n spec.connection (r.requested n spec).address ∧
      (r.requested n spec).window.recent = []) ∨
    ∃ p, r.path? n spec.connection = some p ∧ p.Continues (r.requested n spec) none := by
  cases hp : r.path? n spec.connection with
  | none =>
    refine .inl ⟨⟨spec, rfl, husable, rfl, ?_, ?_⟩, ?_⟩
    · rw [requested, hp]
      rfl
    · intro p hp'
      rw [hp] at hp'
      cases hp'
    · rw [requested, hp]
      exact Window.recent_new _
  | some p =>
    have hrequested : r.requested n spec = p.update spec := by rw [requested, hp]
    rw [hrequested]
    by_cases hmoved : spec.normal.address = p.spec.address
    · refine .inr ⟨p, rfl, hmoved, ?_⟩
      simp [Path.update, hmoved]
    · refine .inl ⟨⟨spec, rfl, husable, rfl, rfl, ?_⟩, ?_⟩
      · intro p' hp'
        rw [hp] at hp'
        cases hp'
        exact Ne.symm hmoved
      · simp [Path.update, hmoved]

end Router

namespace Operation

variable {r : Router}

/-- After an operation a path was given its address, or continues the one from before. -/
theorem path?_edit_continues {op : Operation} {p' : Path} (h : (op.edit r).path? n c = some p') :
    (op.Gives r n c p'.address ∧ p'.window.recent = []) ∨
      ∃ p, r.path? n c = some p ∧ p.Continues p' (op.sample? r n c) := by
  rcases path?_edit_cases h with
    ⟨spec, rfl, husable, rfl, rfl⟩ | ⟨results, rfl, hmeasured⟩ | ⟨hother, p, hp, hsame⟩
  · exact Router.requested_continues spec husable
  · rw [Router.path?_recordRound_eq] at hmeasured
    obtain ⟨p, hp, rfl⟩ := Option.map_eq_some_iff.1 hmeasured
    refine .inr ⟨p, hp, ?_⟩
    cases sample? (.recordRound results) r n c with
    | none => exact .refl p
    | some s => exact ⟨rfl, rfl⟩
  · rw [sample?_of_ne hother]
    rcases hsame with rfl | rfl
    · exact .inr ⟨p', hp, .refl p'⟩
    · exact .inr ⟨p, hp, rfl, rfl⟩

end Operation

/-- A reconciliation changes neither the address of a path nor its window. -/
theorem Router.path?_reconcileWith_continues {r : Router} (hk : r.Keyed) {T : RouteTable σ}
    {visits : Nat → Visit} {table : σ} {p' : Path}
    (h : (r.reconcileWith T visits table).router.path? n c = some p') :
    ∃ p, r.path? n c = some p ∧ p.Continues p' none := by
  obtain ⟨p, hp, hspec, -, hwindow⟩ := (remains_reconcileWith hk T visits table).origin h
  exact ⟨p, hp, congrArg PathSpec.address hspec, hwindow⟩

/-! ## Runs -/

namespace Run

variable {T : RouteTable σ}

/-- After an operation of a run a path was given its address, or continues the one from before. -/
theorem path?_perform {s : Run σ} (hk : s.router.Keyed) {op : Operation} {p' : Path}
    (h : (s.perform T op).router.path? n c = some p') :
    (op.Gives s.router n c p'.address ∧ p'.window.recent = []) ∨
      ∃ p, s.router.path? n c = some p ∧ p.Continues p' (op.sample? s.router n c) := by
  by_cases hreconcile : ∃ visits, op = .reconcile visits
  · obtain ⟨visits, rfl⟩ := hreconcile
    rw [router_perform_reconcile] at h
    exact .inr (Router.path?_reconcileWith_continues hk h)
  · rw [perform_of_ne (not_exists.1 hreconcile)] at h
    exact Operation.path?_edit_continues h

/-- What further operations record for a path, the oldest first. -/
def samples (T : RouteTable σ) (n : GroupName) (c : ConnectionName) :
    Run σ → List Operation → List Sample
  | _, [] => []
  | s, op :: ops => (op.sample? s.router n c).toList ++ samples T n c (s.perform T op) ops

theorem samples_concat (s : Run σ) (ops : List Operation) (op : Operation) :
    samples T n c s (ops ++ [op]) = samples T n c s ops ++
      (op.sample? (ops.foldl (perform T) s).router n c).toList := by
  induction ops generalizing s with
  | nil => simp [samples]
  | cons first ops ih => simp [samples, ih]

variable {policy : Policy} {table : σ}

/-- Some operation gave the path its address. It has had it since, and its window holds the latest
of what was recorded for it since. -/
theorem exists_gives {ops : List Operation} {p : Path}
    (h : (after T policy table ops).router.path? n c = some p) :
    ∃ before op later, ops = before ++ op :: later ∧
      op.Gives (after T policy table before).router n c p.address ∧
      (∀ first, first <+: later → ∃ q,
        (after T policy table (before ++ op :: first)).router.path? n c = some q ∧
          q.address = p.address) ∧
      p.window.recent =
        (samples T n c (after T policy table (before ++ [op])) later).rtake p.window.capacity := by
  induction ops using List.reverseRecOn generalizing p with
  | nil => cases h
  | append_singleton ops last ih =>
    have hstep := h
    rw [after_concat] at hstep
    -- Either the history of the path starts with the last operation, or it goes on.
    rcases path?_perform (keyed_after ops) hstep with ⟨hgives, hempty⟩ | ⟨q, hq, hsame⟩
    · refine ⟨ops, last, [], rfl, hgives, ?_, ?_⟩
      · intro first hfirst
        rw [List.prefix_nil.1 hfirst]
        exact ⟨p, h, rfl⟩
      · rw [hempty, samples, List.rtake_nil]
    · obtain ⟨before, op, later, rfl, hgives, hsince, hrecent⟩ := ih hq
      refine ⟨before, op, later ++ [last], by simp, hsame.address ▸ hgives, ?_, ?_⟩
      · intro first hfirst
        rcases List.prefix_concat_iff.1 hfirst with rfl | hfirst
        · exact ⟨p, by simpa using h, rfl⟩
        · rw [hsame.address]
          exact hsince first hfirst
      · have hrun : later.foldl (perform T) (after T policy table (before ++ [op])) =
            after T policy table (before ++ op :: later) := by simp [after]
        rw [samples_concat, hrun, hsame.window]
        cases last.sample? (after T policy table (before ++ op :: later)).router n c with
        | none => simpa using hrecent
        | some s =>
          rw [Option.elim_some, Window.recent_record, Window.capacity_record, hrecent,
            rtake_rtake_concat, Option.toList_some]

/-- Over any table, whichever operations come between listing the destinations of a round and
recording it: some operation gave the path the address that it has, it has had the address since,
and its window holds the latest of what was recorded for it since, in this order. What a round
records is told by its entry for this address, and is recorded while the path is to stay. Without
such an entry the path stays as it is. -/
theorem recent_window (T : RouteTable σ) (policy : Policy) (table : σ) (ops : List Operation)
    (n : GroupName) (c : ConnectionName) :
    (∀ p, (after T policy table ops).router.path? n c = some p →
      ∃ before op later, ops = before ++ op :: later ∧
        op.Gives (after T policy table before).router n c p.address ∧
        (∀ first, first <+: later → ∃ q,
          (after T policy table (before ++ op :: first)).router.path? n c = some q ∧
            q.address = p.address) ∧
        p.window.recent = (samples T n c (after T policy table (before ++ [op])) later).rtake
          p.window.capacity ∧
        ∀ first round s, first ++ [round] <+: later →
          round.sample? (after T policy table (before ++ op :: first)).router n c = some s →
          ∃ results q rtt, round = .recordRound results ∧
            (after T policy table (before ++ op :: first)).router.path? n c = some q ∧
            q.flags.pendingDelete = false ∧ results.get? p.address = some rtt ∧
            (s.lost = true ∧ s.latency = .zero ↔ rtt = none) ∧
            ∀ time, rtt = some time → s = ⟨time.max (.micros 1), false⟩) ∧
    ∀ (r : Router) (results : RoundTrips) (p : Path), r.path? n c = some p →
      results.get? p.address = none → (r.recordRound results).path? n c = some p := by
  constructor
  · intro p h
    obtain ⟨before, op, later, hops, hgives, hsince, hrecent⟩ := exists_gives h
    refine ⟨before, op, later, hops, hgives, hsince, hrecent, ?_⟩
    intro first round s hfirst hsample
    obtain ⟨results, q, rtt, hround, hq, hstays, hentry, rfl⟩ :=
      Operation.sample?_eq_some_iff.1 hsample
    obtain ⟨q', hq', haddress⟩ := hsince first ((List.prefix_append first [round]).trans hfirst)
    have hsame : q = q' := Option.some.inj (hq.symm.trans hq')
    rw [hsame, haddress] at hentry
    obtain ⟨hlost, htime⟩ := Router.sample_spec rtt
    exact ⟨results, q, rtt, hround, hq, hstays, hentry, hlost, htime⟩
  · intro r results p hp hentry
    exact Router.path?_recordRound_of_get?_eq_none hp hentry

/-- A round with this entry for one address. -/
def oneEntry (bits : BitVec 32) (rtt : Option Duration) : Operation :=
  .recordRound (.ofList [(.v4 bits, rtt)])

/-- A path moves to another address and back, and is to be removed for a while. One round comes
before it moves, one while it has the other address, and one while it is to be removed. -/
def thereAndBack : List Operation :=
  [.addPeer ⟨"alpha"⟩ (.v4 "t1" "wg-a" 1), oneEntry 1 (some .zero),
    .addPeer ⟨"alpha"⟩ (.v4 "t1" "wg-a" 2), oneEntry 1 none,
    .addPeer ⟨"alpha"⟩ (.v4 "t1" "wg-a" 1), oneEntry 1 none, oneEntry 2 (some .zero),
    .deletePeer ⟨"alpha"⟩ ⟨"t1"⟩, oneEntry 1 none, .addPeer ⟨"alpha"⟩ (.v4 "t1" "wg-a" 1),
    oneEntry 1 (some .zero)]

/-- The run over them. -/
def returned : Run RouteTable.Memory := after RouteTable.memory .default .empty thereAndBack

/-- The window tells the two rounds that were recorded since the path is back at its address, while
it was to stay. -/
theorem recent_window_thereAndBack :
    ∃ p, returned.router.path? ⟨"alpha"⟩ ⟨"t1"⟩ = some p ∧
      p.window.recent = [⟨.zero, true⟩, ⟨.micros 1, false⟩] ∧
      (∃ before op later, thereAndBack = before ++ op :: later ∧
        op.Gives (after RouteTable.memory .default .empty before).router ⟨"alpha"⟩ ⟨"t1"⟩ (.v4 1) ∧
        p.window.recent = (samples RouteTable.memory ⟨"alpha"⟩ ⟨"t1"⟩
          (after RouteTable.memory .default .empty (before ++ [op])) later).rtake
            p.window.capacity) ∧
      (returned.router.recordRound .empty).path? ⟨"alpha"⟩ ⟨"t1"⟩ = some p := by
  have hstate : (returned.router.path? ⟨"alpha"⟩ ⟨"t1"⟩).map
      (fun p => (p.address, p.window.recent)) =
        some (.v4 1, [⟨.zero, true⟩, ⟨.micros 1, false⟩]) := by decide +kernel
  obtain ⟨p, hp, hpath⟩ := Option.map_eq_some_iff.1 hstate
  obtain ⟨haddress, hwindow⟩ := Prod.mk.inj hpath
  obtain ⟨hgiven, hunchanged⟩ :=
    recent_window RouteTable.memory .default .empty thereAndBack ⟨"alpha"⟩ ⟨"t1"⟩
  obtain ⟨before, op, later, hops, hgives, -, hrecent, -⟩ := hgiven p hp
  rw [haddress] at hgives
  exact ⟨p, hp, hwindow, ⟨before, op, later, hops, hgives, hrecent⟩,
    hunchanged returned.router .empty p hp rfl⟩

end Run

end RouteKeeper
