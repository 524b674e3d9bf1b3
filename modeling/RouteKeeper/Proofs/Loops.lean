import Mathlib.Data.List.Basic
import Mathlib.Data.List.Infix
import RouteKeeper.Agent
import RouteKeeper.RouteTable.Memory

/-!
# The loops of an agent

The loops of an agent run between calls that start them, tell them to end and wait for them, in any
order and from anywhere. An agent remembers that it was started by the loops that nobody waits for.
Whoever waits takes them over before they have ended, and from then on the agent can be started
again, next to the loops that still run, unless it was stopped.

## Main definitions

* `Happening` — a move of an agent, or a change of its surroundings.
* `Agent.after?` — the agent after some happenings, if they are possible.
* `Control`, `Control.Step` — what decides about the loops, and all that can happen to it.
* `Control.Origin` — what a loop was before a happening.
* `Control.Abandoned` — loops run, though none are known, and the agent was not stopped.
* `Control.Told` — the agent was stopped and all its loops were told to end.

## Main statements

* `Agent.step_control` — what a happening does to the loops.
* `Agent.exists_after?_advance`, `Agent.exists_after?_of_join?` — letting time pass and waiting for
  the loops are runs.
* `Control.Step.kinds`, `Control.Step.told` — what one happening keeps.
* `Agent.running_le_one_iff` — there is one loop of each kind as long as no abandoned agent is
  started.
* `Agent.exists_two_running` — two loops of each kind.
-/
namespace RouteKeeper

variable {σ : Type}

/-! ## Runs of an agent -/

/-- Something that happens to an agent: a move, or a change of everything but its loops. -/
inductive Happening (σ : Type) where
  | move (m : Move)
  | outside (router : Router) (prober : Prober) (network : Network) (table : σ) (feed : Feed)
    (clock : Nat)

namespace Agent

/-- The agent after a happening, if it is possible. -/
def happen? (T : RouteTable σ) (a : Agent σ) : Happening σ → Option (Agent σ)
  | .move m => a.move? T m
  | .outside router prober network table feed clock =>
    some { a with router, prober, network, table, feed, clock }

/-- The agent after some happenings, if they are possible. -/
def after? (T : RouteTable σ) (a : Agent σ) (hs : List (Happening σ)) : Option (Agent σ) :=
  hs.foldlM (happen? T) a

variable {T : RouteTable σ} {a b : Agent σ}

@[simp] theorem after?_nil : after? T a [] = some a := rfl

theorem after?_cons (h : Happening σ) (hs : List (Happening σ)) :
    after? T a (h :: hs) = (a.happen? T h).bind fun b => after? T b hs :=
  List.foldlM_cons

theorem after?_append (hs later : List (Happening σ)) :
    after? T a (hs ++ later) = (after? T a hs).bind fun b => after? T b later :=
  List.foldlM_append

theorem after?_concat (hs : List (Happening σ)) (h : Happening σ) :
    after? T a (hs ++ [h]) = (after? T a hs).bind fun b => b.happen? T h := by
  rw [after?_append]
  simp only [after?, List.foldlM_cons, List.foldlM_nil, bind_pure]

/-- What every happening keeps, a run keeps. -/
theorem after?_induction {P : Agent σ → Prop}
    (hstep : ∀ (a : Agent σ) (h : Happening σ) (b : Agent σ), a.happen? T h = some b → P a → P b)
    (ha : P a) {hs : List (Happening σ)} (hb : after? T a hs = some b) : P b := by
  induction hs using List.reverseRecOn generalizing b with
  | nil =>
    cases hb
    exact ha
  | append_singleton hs h ih =>
    rw [after?_concat] at hb
    obtain ⟨c, hc, hb⟩ := Option.bind_eq_some_iff.1 hb
    exact hstep c h b hb (ih hc)

end Agent

/-! ## What can happen to the loops -/

/-- What decides about the loops of an agent. -/
structure Control where
  now : Nat
  stopped : Bool
  hasLoops : Bool
  loops : List Loop

/-- What decides about the loops of an agent. -/
def Agent.control (a : Agent σ) : Control := ⟨a.now, a.stopped, a.hasLoops, a.loops⟩

namespace Control

/-- All that can happen to the loops. A happening changes one loop at most, but for a stop. -/
inductive Step (c : Control) : Happening σ → Control → Prop where
  | outside (router : Router) (prober : Prober) (network : Network) (table : σ) (feed : Feed)
    (clock : Nat) : Step c (.outside router prober network table feed clock) c
  /-- An agent that was stopped, or has loops, is not started. -/
  | refuse (hmarks : (c.stopped || c.hasLoops) = true) : Step c (.move .start) c
  | start (hmarks : (c.stopped || c.hasLoops) = false) (interval applyInterval : Duration) :
    Step c (.move .start)
      { c with
        hasLoops := true
        loops := c.loops ++ [.new .probe interval c.now, .new .apply applyInterval c.now] }
  | stop : Step c (.move .stop) { c with stopped := true, loops := c.loops.map (·.told c.now) }
  | takeLoops : Step c (.move .takeLoops) { c with hasLoops := false }
  | elapse {time : Nat} (hlater : c.now ≤ time) :
    Step c (.move (.elapse time)) { c with now := time }
  | leave {place : Nat} {l : Loop} (hplace : c.loops[place]? = some l) (hwaits : l.isWaiting = true)
    (htold : l.signalled = true) :
    Step c (.move (.leave place)) { c with loops := c.loops.eraseIdx place }
  /-- A loop takes a tick that is due. -/
  | tick {place : Nat} {l : Loop} (hplace : c.loops[place]? = some l) (hwaits : l.isWaiting = true)
    (hdue : l.due ≤ c.now) (hperiod : l.period.isZero = false) :
    Step c (.move (.tick place)) { c with loops := c.loops.modify place (·.ticked c.now) }
  /-- A loop without a period fails at its tick. -/
  | tickFailed {place : Nat} {l : Loop} (hplace : c.loops[place]? = some l)
    (hwaits : l.isWaiting = true) (hdue : l.due ≤ c.now) (hperiod : l.period.isZero = true) :
    Step c (.move (.tick place)) { c with loops := c.loops.eraseIdx place }
  /-- A loop is done with its work, or has listed what to probe. -/
  | proceed {place : Nat} {l : Loop} {work : Work} (hplace : c.loops[place]? = some l)
    (hwork : l.work = some work) (hready : work.earliest ≤ c.now) (round : Option InFlight) :
    Step c (.move (.proceed place))
      { c with loops := c.loops.modify place fun l => { l with work := round.map .probing } }
  /-- A loop fails at its work. -/
  | proceedFailed {place : Nat} {l : Loop} {work : Work} (hplace : c.loops[place]? = some l)
    (hwork : l.work = some work) (hready : work.earliest ≤ c.now) :
    Step c (.move (.proceed place)) { c with loops := c.loops.eraseIdx place }

end Control

namespace Agent

variable {T : RouteTable σ} {a b : Agent σ}

/-- A loop is done with its work, starts a round, or fails. -/
theorem control_proceed (place : Nat) (work : Work) :
    (a.proceed T place work).control = { a.control with loops := a.loops.eraseIdx place } ∨
      ∃ round : Option InFlight, (a.proceed T place work).control =
        { a.control with
          loops := a.loops.modify place fun l => { l with work := round.map .probing } } := by
  cases work with
  | listing =>
    simp only [proceed, beginRound]
    split
    case isTrue => exact .inl rfl
    case isFalse =>
      split
      case isTrue => exact .inr ⟨none, rfl⟩
      case isFalse => exact .inr ⟨some _, rfl⟩
  | probing round => exact .inr ⟨none, rfl⟩
  | applying => exact .inr ⟨none, rfl⟩

/-- What a happening does to the loops. -/
theorem step_control {h : Happening σ} (hstep : a.happen? T h = some b) :
    a.control.Step h b.control := by
  cases h with
  | outside router prober network table feed clock =>
    cases hstep
    exact .outside ..
  | move m =>
    simp only [happen?] at hstep
    cases m with
    | start =>
      cases hstep
      unfold Agent.start
      split
      case isTrue hmarks => exact .refuse hmarks
      case isFalse hmarks => exact .start (Bool.eq_false_iff.2 hmarks) _ _
    | stop =>
      cases hstep
      exact .stop
    | takeLoops =>
      cases hstep
      exact .takeLoops
    | elapse time =>
      simp only [move?, Option.ite_none_right_eq_some, Option.some.injEq] at hstep
      obtain ⟨hlater, rfl⟩ := hstep
      exact .elapse hlater
    | leave place =>
      simp only [move?] at hstep
      split at hstep
      case h_2 => cases hstep
      case h_1 l hplace =>
        simp only [Bool.and_eq_true, Option.ite_none_right_eq_some, Option.some.injEq] at hstep
        obtain ⟨⟨hwaits, htold⟩, rfl⟩ := hstep
        exact .leave hplace hwaits htold
    | tick place =>
      simp only [move?] at hstep
      split at hstep
      case h_2 => cases hstep
      case h_1 l hplace =>
        simp only [Bool.and_eq_true, decide_eq_true_eq, Option.ite_none_right_eq_some,
          Option.some.injEq] at hstep
        obtain ⟨⟨hwaits, hdue⟩, rfl⟩ := hstep
        unfold Agent.tick
        split
        case isTrue hperiod => exact .tickFailed hplace hwaits hdue hperiod
        case isFalse hperiod => exact .tick hplace hwaits hdue (Bool.eq_false_iff.2 hperiod)
    | proceed place =>
      simp only [move?] at hstep
      split at hstep
      case h_2 => cases hstep
      case h_1 work hplace =>
        obtain ⟨l, hplace, hwork⟩ := Option.bind_eq_some_iff.1 hplace
        simp only [Option.ite_none_right_eq_some, Option.some.injEq] at hstep
        obtain ⟨hready, rfl⟩ := hstep
        rcases a.control_proceed (T := T) place work with hcontrol | ⟨round, hcontrol⟩
        · rw [hcontrol]
          exact .proceedFailed hplace hwork hready
        · rw [hcontrol]
          exact .proceed hplace hwork hready round

end Agent

/-! ## Where loops come from -/

-- The time that is due is a variable here: that of a tick would be unfolded to large numbers.
theorem Loop.kind_update (l : Loop) (due : Nat) (work : Option Work) :
    ({ l with due, work } : Loop).kind = l.kind := rfl

theorem Loop.kind_ticked (l : Loop) (now : Nat) : (l.ticked now).kind = l.kind := l.kind_update ..

theorem Loop.signal_update (l : Loop) (due : Nat) (work : Option Work) :
    ({ l with due, work } : Loop).signal = l.signal := rfl

theorem Loop.signal_ticked (l : Loop) (now : Nat) : (l.ticked now).signal = l.signal :=
  l.signal_update ..

theorem Loop.signalled_told (l : Loop) (now : Nat) : (l.told now).signalled = true := by
  unfold signalled told
  cases l.signal <;> rfl

theorem mem_modify {α : Type} {f : α → α} {l : List α} {place : Nat} {x : α}
    (h : x ∈ l.modify place f) : x ∈ l ∨ ∃ y, l[place]? = some y ∧ x = f y := by
  obtain ⟨i, hi⟩ := List.mem_iff_getElem?.1 h
  rw [List.getElem?_modify] at hi
  obtain ⟨y, hy, hx⟩ := Option.map_eq_some_iff.1 hi
  split at hx
  case isTrue hplace => exact .inr ⟨y, hplace ▸ hy, hx.symm⟩
  case isFalse => exact .inl (hx ▸ List.mem_of_getElem? hy)

/-- A change of one entry of a list that a function does not see. -/
theorem map_modify_of_eq {α β : Type} {f : α → α} {g : α → β} (h : ∀ x, g (f x) = g x) (l : List α)
    (place : Nat) : (l.modify place f).map g = l.map g := by
  apply List.ext_getElem?
  intro i
  rw [List.getElem?_map, List.getElem?_map, List.getElem?_modify]
  cases l[i]? with
  | none => rfl
  | some x =>
    split
    · exact congrArg some (h x)
    · rfl

namespace Control

variable {c c' : Control} {h : Happening σ}

/-- What a loop was before a happening. -/
inductive Origin (c : Control) (l : Loop) : Happening σ → Prop where
  | kept (h : Happening σ) (hl : l ∈ c.loops) : Origin c l h
  | started (hmarks : (c.stopped || c.hasLoops) = false) (kind : LoopKind) (period : Duration)
    (hnew : l = .new kind period c.now) : Origin c l (.move .start)
  | told {before : Loop} (hbefore : before ∈ c.loops) (hnew : l = before.told c.now) :
    Origin c l (.move .stop)
  | ticked (place : Nat) {before : Loop} (hbefore : before ∈ c.loops)
    (hwaits : before.isWaiting = true) (hdue : before.due ≤ c.now)
    (hnew : l = before.ticked c.now) : Origin c l (.move (.tick place))
  | proceeded (place : Nat) {before : Loop} (hbefore : before ∈ c.loops) (round : Option InFlight)
    (hnew : l = { before with work := round.map .probing }) : Origin c l (.move (.proceed place))

theorem Step.origin (hstep : c.Step h c') {l : Loop} (hl : l ∈ c'.loops) : c.Origin l h := by
  cases hstep with
  | outside | refuse | takeLoops | elapse => exact .kept _ hl
  | start hmarks =>
    rcases List.mem_append.1 hl with hl | hl
    · exact .kept _ hl
    · simp only [List.mem_cons, List.not_mem_nil, or_false] at hl
      rcases hl with hl | hl <;> exact .started hmarks _ _ hl
  | stop =>
    obtain ⟨before, hbefore, hnew⟩ := List.mem_map.1 hl
    exact .told hbefore hnew.symm
  | leave | tickFailed | proceedFailed => exact .kept _ (List.mem_of_mem_eraseIdx hl)
  | tick hbefore hwaits hdue =>
    rcases mem_modify hl with hl | ⟨before, hplace, hnew⟩
    · exact .kept _ hl
    · rw [hbefore] at hplace
      cases hplace
      exact .ticked _ (List.mem_of_getElem? hbefore) hwaits hdue hnew
  | proceed _ _ _ round =>
    rcases mem_modify hl with hl | ⟨before, hplace, hnew⟩
    · exact .kept _ hl
    · exact .proceeded _ (List.mem_of_getElem? hplace) round hnew

theorem Step.stopped (hstep : c.Step h c') (hstopped : c.stopped = true) : c'.stopped = true := by
  cases hstep with
  | stop => rfl
  | _ => exact hstopped

theorem Step.now (hstep : c.Step h c') : c'.now = c.now ∨ ∃ time, h = .move (.elapse time) := by
  cases hstep with
  | elapse => exact .inr ⟨_, rfl⟩
  | _ => exact .inl rfl

/-! ## Loops of one kind -/

/-- The kinds of the loops. -/
def kinds (c : Control) : List LoopKind := c.loops.map Loop.kind

/-- How many loops of a kind run. -/
def running (c : Control) (kind : LoopKind) : Nat := c.kinds.count kind

/-- Loops run, though none are known, and the agent was not stopped. -/
def Abandoned (c : Control) : Prop := c.stopped = false ∧ c.hasLoops = false ∧ c.loops ≠ []

/-- Only a start of an agent that was not stopped and has no loops adds loops: one of each kind. -/
theorem Step.kinds (hstep : c.Step h c') : c'.kinds.Sublist c.kinds ∨
    h = .move .start ∧ (c.stopped || c.hasLoops) = false ∧
      c'.kinds = c.kinds ++ [.probe, .apply] := by
  have hmodify (place : Nat) (f : Loop → Loop) (hf : ∀ l, (f l).kind = l.kind) :
      ((c.loops.modify place f).map Loop.kind).Sublist c.kinds := by
    rw [map_modify_of_eq hf]
    exact List.Sublist.refl _
  have herase (place : Nat) : ((c.loops.eraseIdx place).map Loop.kind).Sublist c.kinds :=
    (List.eraseIdx_sublist ..).map Loop.kind
  cases hstep with
  | start hmarks => exact .inr ⟨rfl, hmarks, by simp [Control.kinds, Loop.new]⟩
  | stop =>
    left
    simp only [Control.kinds, List.map_map]
    exact List.Sublist.refl _
  | outside | refuse | takeLoops | elapse => exact .inl (List.Sublist.refl _)
  | leave | tickFailed | proceedFailed => exact .inl (herase _)
  | tick => exact .inl (hmodify _ _ fun l => l.kind_ticked c.now)
  | proceed => exact .inl (hmodify _ _ fun _ => rfl)

/-- As long as no abandoned agent is started there is one loop of each kind at most. -/
theorem Step.running_le_one (hstep : c.Step h c') (hone : ∀ kind, c.running kind ≤ 1)
    (hcalm : h = .move .start → ¬ c.Abandoned) (kind : LoopKind) : c'.running kind ≤ 1 := by
  rcases hstep.kinds with hfewer | ⟨rfl, hmarks, hkinds⟩
  · exact (hfewer.count_le kind).trans (hone kind)
  · obtain ⟨hstopped, hloops⟩ := Bool.or_eq_false_iff.1 hmarks
    -- The agent was neither stopped nor has it loops, so if any run it is abandoned.
    have hnone : c.loops = [] := by
      by_contra hsome
      exact hcalm rfl ⟨hstopped, hloops, hsome⟩
    rw [running, hkinds, Control.kinds, hnone]
    cases kind <;> decide

/-- Once an abandoned agent is started, two loops of one kind run. -/
theorem Step.exists_running (hstep : c.Step (.move .start : Happening σ) c') (hc : c.Abandoned) :
    ∃ kind, 1 < c'.running kind := by
  obtain ⟨hstopped, hloops, hsome⟩ := hc
  cases hstep with
  | refuse hmarks =>
    rw [hstopped, hloops] at hmarks
    cases hmarks
  | start hmarks =>
    obtain ⟨l, hl⟩ := List.exists_mem_of_ne_nil _ hsome
    have hrunning : 0 < (c.loops.map Loop.kind).count l.kind :=
      List.count_pos_iff.2 (List.mem_map_of_mem hl)
    have hadded : 0 < [LoopKind.probe, LoopKind.apply].count l.kind := by cases l.kind <;> decide
    refine ⟨l.kind, ?_⟩
    simp only [running, Control.kinds, List.map_append, List.count_append, List.map_cons,
      List.map_nil, Loop.new]
    omega

/-- An agent is abandoned by taking over loops that run before it is stopped. -/
theorem Step.abandoned (hstep : c.Step h c') (hc' : c'.Abandoned) : c.Abandoned ∨
    h = .move .takeLoops ∧ c.stopped = false ∧ c.hasLoops = true ∧ c.loops ≠ [] := by
  obtain ⟨hstopped, hloops, hsome⟩ := hc'
  have herase (place : Nat) (h : c.loops.eraseIdx place ≠ []) : c.loops ≠ [] := by
    intro hnone
    rw [hnone] at h
    exact h rfl
  have hmodify (place : Nat) (f : Loop → Loop) (h : c.loops.modify place f ≠ []) :
      c.loops ≠ [] := by
    intro hnone
    rw [hnone] at h
    exact h (List.modify_nil ..)
  cases hstep with
  | outside | refuse | elapse => exact .inl ⟨hstopped, hloops, hsome⟩
  | start => cases hloops
  | stop => cases hstopped
  | takeLoops =>
    cases hknown : c.hasLoops with
    | false => exact .inl ⟨hstopped, hknown, hsome⟩
    | true => exact .inr ⟨rfl, hstopped, rfl, hsome⟩
  | leave | tickFailed | proceedFailed => exact .inl ⟨hstopped, hloops, herase _ hsome⟩
  | tick | proceed => exact .inl ⟨hstopped, hloops, hmodify _ _ hsome⟩

/-- The agent was stopped and all its loops were told to end. -/
structure Told (c : Control) : Prop where
  stopped : c.stopped = true
  signalled : ∀ l ∈ c.loops, l.signalled = true

/-- After a stop all loops are told to end. -/
theorem told_stop (c : Control) :
    Told { c with stopped := true, loops := c.loops.map (·.told c.now) } := by
  refine ⟨rfl, ?_⟩
  intro l hl
  obtain ⟨before, -, rfl⟩ := List.mem_map.1 hl
  exact before.signalled_told c.now

/-- A loop that was told to end is not untold, and no other loop is started. -/
theorem Step.told (hstep : c.Step h c') (hc : c.Told) : c'.Told := by
  refine ⟨hstep.stopped hc.stopped, ?_⟩
  intro l hl
  cases hstep.origin hl with
  | kept _ hl => exact hc.signalled l hl
  | started hmarks =>
    rw [hc.stopped] at hmarks
    cases hmarks
  | @told before _ hnew =>
    rw [hnew]
    exact before.signalled_told c.now
  | @ticked _ before hbefore _ _ hnew =>
    rw [hnew, Loop.signalled, before.signal_ticked]
    exact hc.signalled before hbefore
  | @proceeded _ before hbefore round hnew =>
    rw [hnew]
    exact hc.signalled before hbefore

end Control

/-! ## Letting time pass -/

namespace Agent

variable {T : RouteTable σ} {a : Agent σ}

/-- The next move of all is not in the past, and does not wait. -/
theorem now_le_of_next? {ticksFirst : Bool} {time : Nat} {move : Move}
    (h : a.next? ticksFirst = some (time, move)) :
    a.now ≤ time ∧ ∀ later, move ≠ .elapse later := by
  obtain ⟨place, hplace, hnext⟩ := List.mem_mapIdx.1 (mem_of_firstLeast_eq_some _ h)
  unfold nextOf at hnext
  split at hnext
  · cases hnext
    exact ⟨le_max_right .., nofun⟩
  · cases hnext
    exact ⟨le_max_right .., nofun⟩
  · cases hnext
    refine ⟨le_rfl, ?_⟩
    intro later
    split <;> exact nofun

/-- Making the moves that are due is a run, whatever is drawn. It goes no further than its limit. -/
theorem exists_after?_run (draws : Nat → Bool) (limit : Option Nat) (fuel : Nat) (a : Agent σ) :
    (∃ hs, after? T a hs = some (run T draws limit fuel a)) ∧
      ∀ latest, limit = some latest → a.now ≤ latest →
        (run T draws limit fuel a).now ≤ latest := by
  induction fuel generalizing a with
  | zero => exact ⟨⟨[], rfl⟩, fun _ _ hnow => hnow⟩
  | succ fuel ih =>
    simp only [run]
    split
    case h_1 => exact ⟨⟨[], rfl⟩, fun _ _ hnow => hnow⟩
    case h_2 time move hnext =>
      obtain ⟨hlater, hmove⟩ := now_le_of_next? hnext
      split
      case isFalse => exact ⟨⟨[], rfl⟩, fun _ _ hnow => hnow⟩
      case isTrue hlimit =>
        split
        case h_1 => exact ⟨⟨[], rfl⟩, fun _ _ hnow => hnow⟩
        case h_2 b hb =>
          obtain ⟨⟨hs, hrun⟩, hwithin⟩ := ih b
          have hwait : a.happen? T (.move (.elapse time)) = some { a with now := time } :=
            if_pos hlater
          constructor
          · refine ⟨.move (.elapse time) :: .move move :: hs, ?_⟩
            rw [after?_cons, hwait, Option.bind_some, after?_cons, happen?, hb, Option.bind_some,
              hrun]
          · intro latest hlatest _
            apply hwithin latest hlatest
            rw [hlatest] at hlimit
            have hnow : b.now = time := by
              rcases (step_control (h := .move move) hb).now with hnow | ⟨later, helapse⟩
              · exact hnow
              · cases helapse
                exact absurd rfl (hmove later)
            rw [hnow]
            simpa using hlimit

/-- Letting time pass is a run, whatever is drawn. -/
theorem exists_after?_advance (T : RouteTable σ) (draws : Nat → Bool) (a : Agent σ) (time : Nat) :
    ∃ hs, after? T a hs = some (a.advance T draws time) := by
  obtain ⟨⟨hs, hrun⟩, hwithin⟩ :=
    exists_after?_run (T := T) draws (some (a.now + time)) (a.moves time) a
  refine ⟨hs ++ [.move (.elapse (a.now + time))], ?_⟩
  rw [after?_concat, hrun, Option.bind_some]
  exact if_pos (hwithin _ rfl (Nat.le_add_right ..))

/-- Waiting for the loops is a run, and no loop is left after it. -/
theorem exists_after?_of_join? {draws : Nat → Bool} {b : Agent σ} (h : a.join? T draws = some b) :
    (∃ hs, after? T a hs = some b) ∧ b.loops = [] := by
  unfold join? at h
  split at h
  case isFalse => cases h
  case isTrue =>
    obtain ⟨hended, hb⟩ := Option.ite_none_right_eq_some.1 h
    cases hb
    obtain ⟨⟨hs, hrun⟩, -⟩ := exists_after?_run (T := T) draws none (a.moves 0) a.takeLoops
    refine ⟨⟨.move .takeLoops :: hs, ?_⟩, List.isEmpty_iff.1 hended⟩
    rw [after?_cons]
    exact hrun

end Agent

/-! ## Runs and their loops -/

namespace Agent

variable {T : RouteTable σ} {a b : Agent σ}

theorem start_of_stopped (h : a.stopped = true) : a.start = a := by
  unfold start
  rw [h]
  rfl

/-- After a stop all loops are told to end, and so they are in all that follows. -/
theorem told_after? {before later : List (Happening σ)}
    (hb : after? T a (before ++ .move .stop :: later) = some b) : b.control.Told := by
  rw [after?_append] at hb
  obtain ⟨c, -, hb⟩ := Option.bind_eq_some_iff.1 hb
  refine after?_induction (T := T) (P := fun a => a.control.Told) ?_ c.control.told_stop
    (a := c.stop) hb
  intro a h b hstep hold
  exact (step_control hstep).told hold

/-- There is at most one loop of each kind as long as no abandoned agent is started. -/
theorem running_le_one (hnew : ∀ kind, a.control.running kind ≤ 1) {hs : List (Happening σ)}
    (hcalm : ∀ first c, first ++ [.move .start] <+: hs → after? T a first = some c →
      ¬ c.control.Abandoned) (hb : after? T a hs = some b) (kind : LoopKind) :
    b.control.running kind ≤ 1 := by
  induction hs using List.reverseRecOn generalizing b kind with
  | nil =>
    cases hb
    exact hnew kind
  | append_singleton hs h ih =>
    rw [after?_concat] at hb
    obtain ⟨c, hc, hstep⟩ := Option.bind_eq_some_iff.1 hb
    have hone : ∀ kind, c.control.running kind ≤ 1 := by
      apply ih _ hc
      intro first d hfirst hd
      exact hcalm first d (hfirst.trans (List.prefix_append ..)) hd
    apply (step_control hstep).running_le_one hone
    intro hstart
    rw [hstart] at hcalm
    exact hcalm hs c (List.prefix_refl _) hc

/-- An agent is abandoned by taking over its loops while they run and are not told to end. -/
theorem exists_takeLoops (hnew : ¬ a.control.Abandoned) {hs : List (Happening σ)}
    (hb : after? T a hs = some b) (habandoned : b.control.Abandoned) :
    ∃ first c, first ++ [.move .takeLoops] <+: hs ∧ after? T a first = some c ∧
      c.stopped = false ∧ c.hasLoops = true ∧ c.loops ≠ [] := by
  induction hs using List.reverseRecOn generalizing b with
  | nil =>
    cases hb
    exact absurd habandoned hnew
  | append_singleton hs h ih =>
    rw [after?_concat] at hb
    obtain ⟨c, hc, hstep⟩ := Option.bind_eq_some_iff.1 hb
    rcases (step_control hstep).abandoned habandoned with hold | ⟨rfl, hstopped, hknown, hsome⟩
    · obtain ⟨first, d, hfirst, hd⟩ := ih hc hold
      exact ⟨first, d, hfirst.trans (List.prefix_append ..), hd⟩
    · exact ⟨hs, c, List.prefix_refl _, hc, hstopped, hknown, hsome⟩

/-- An agent runs one loop of each kind at most, at any time and whichever calls are made when,
exactly as long as nobody starts it while it is abandoned: not stopped, and with loops that run but
were all taken over by somebody who waits for them. Only taking over running loops that were not
told to end leaves an agent so. Once an agent is stopped, starting it does nothing, and all loops
that run are told to end. -/
theorem running_le_one_iff (T : RouteTable σ) (settings : ProbeSettings) (applyInterval : Duration)
    (router : Router) (prober : Prober) (table : σ) (clock : Nat) (hs : List (Happening σ)) :
    let idle := Agent.new settings applyInterval router prober table clock
    ((∀ first b, first <+: hs → after? T idle first = some b →
        ∀ kind, b.control.running kind ≤ 1) ↔
      ∀ first b, first ++ [.move .start] <+: hs → after? T idle first = some b →
        ¬ b.control.Abandoned) ∧
    (∀ first b, first <+: hs → after? T idle first = some b → b.control.Abandoned →
      ∃ earlier c, earlier ++ [.move .takeLoops] <+: first ∧ after? T idle earlier = some c ∧
        c.stopped = false ∧ c.hasLoops = true ∧ c.loops ≠ []) ∧
    ∀ before later b, before ++ .move .stop :: later <+: hs →
      after? T idle (before ++ .move .stop :: later) = some b →
        b.stopped = true ∧ b.start = b ∧ ∀ l ∈ b.loops, l.signalled = true := by
  intro idle
  refine ⟨⟨?_, ?_⟩, ?_, ?_⟩
  · -- The start of an abandoned agent is possible, and one more prefix of the run.
    intro hone first b hfirst hb habandoned
    have hstart : after? T idle (first ++ [.move .start]) = some b.start := by
      rw [after?_concat, hb]
      rfl
    obtain ⟨kind, hmany⟩ := (step_control (T := T) (h := .move .start)
      (show b.happen? T _ = some b.start from rfl)).exists_running habandoned
    exact absurd (hone _ _ hfirst hstart kind) (Nat.not_le.2 hmany)
  · intro hcalm first b hfirst hb kind
    refine running_le_one (a := idle) (fun kind => Nat.zero_le 1) ?_ hb kind
    intro earlier c hearlier hc
    exact hcalm earlier c (hearlier.trans hfirst) hc
  · intro first b _ hb habandoned
    exact exists_takeLoops (fun h => h.2.2 rfl) hb habandoned
  · intro before later b _ hb
    obtain ⟨hstopped, htold⟩ := told_after? hb
    exact ⟨hstopped, start_of_stopped hstopped, htold⟩

/-- A prober without sockets. -/
def socketless : Prober := ⟨.privileged, leastPayload, 7, 5, 3, fun _ => false⟩

/-- An agent without paths and sockets. -/
def blank : Agent RouteTable.Memory :=
  .new .default RoutingSettings.default.applyInterval (.new .default) socketless .empty 0

/-- An agent is started, stopped and started again. -/
def startedAgain : List (Happening RouteTable.Memory) := [.move .start, .move .stop, .move .start]

/-- The second start does nothing; and to leave an agent abandoned its loops have to be taken over.
-/
theorem running_le_one_iff_startedAgain :
    (∃ b, after? RouteTable.memory blank startedAgain = some b ∧
      (∀ kind, b.control.running kind ≤ 1) ∧ b.control.kinds = [.probe, .apply] ∧
      b.stopped = true ∧ b.start = b ∧ ∀ l ∈ b.loops, l.signalled = true) ∧
    ∃ b, after? RouteTable.memory blank [.move .start, .move .takeLoops] = some b ∧
      b.control.Abandoned ∧ ∃ earlier c,
        earlier ++ [.move .takeLoops] <+: [.move .start, .move .takeLoops] ∧
        after? RouteTable.memory blank earlier = some c ∧ c.stopped = false ∧
        c.hasLoops = true ∧ c.loops ≠ [] := by
  constructor
  · obtain ⟨hone, -, hstopped⟩ := running_le_one_iff RouteTable.memory .default
      RoutingSettings.default.applyInterval (.new .default) socketless .empty 0 startedAgain
    have hcalm : ∀ first b, first ++ [.move .start] <+: startedAgain →
        after? RouteTable.memory blank first = some b → ¬ b.control.Abandoned := by
      intro first b hfirst hb
      match first, hfirst with
      | [], _ =>
        cases hb
        exact fun habandoned => habandoned.2.2 rfl
      | [_], hfirst => simp [startedAgain] at hfirst
      | [_, _], hfirst =>
        obtain ⟨rest, hrest⟩ := hfirst
        cases hrest
        cases hb
        exact fun habandoned => Bool.noConfusion habandoned.1
      | _ :: _ :: _ :: _, hfirst => simp [startedAgain] at hfirst
    refine ⟨_, rfl, hone.2 hcalm startedAgain _ (List.prefix_refl _) rfl, rfl, ?_⟩
    exact hstopped [.move .start] [.move .start] _ (List.prefix_refl _) rfl
  · obtain ⟨-, htaken, -⟩ := running_le_one_iff RouteTable.memory .default
      RoutingSettings.default.applyInterval (.new .default) socketless .empty 0
      [.move .start, .move .takeLoops]
    have habandoned : (blank.start.takeLoops).control.Abandoned := ⟨rfl, rfl, List.cons_ne_nil _ _⟩
    exact ⟨_, rfl, habandoned, htaken _ _ (List.prefix_refl _) rfl habandoned⟩

/-- Somebody waits for the loops of an agent that nobody stops, and the agent is started again: two
loops of each kind run. -/
theorem exists_two_running : ∃ b, after? RouteTable.memory blank
    [.move .start, .move .takeLoops, .move .start] = some b ∧
    b.control.running .probe = 2 ∧ b.control.running .apply = 2 :=
  ⟨_, rfl, rfl, rfl⟩

end Agent

end RouteKeeper
