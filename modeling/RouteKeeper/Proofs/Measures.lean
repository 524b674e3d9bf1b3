import Mathlib.Tactic.Ring
import RouteKeeper.Proofs.Recent

/-!
# What a window measures

However rounds are recorded and forgotten, a window measures the latest rounds since it was last
reset, as many as it has slots. Its average is formed from sums of durations and a division that
treats whole seconds and nanoseconds one by one; as long as the sum is a duration, the average is
the exact mean, rounded down.

## Main definitions

* `Window.HasAverage` — the average can be formed from durations.
* `Window.Change` — a call that records a round or resets the window.
* `Window.since` — the rounds recorded since the last reset.

## Main statements

* `Duration.sharedAmong_eq` — dividing in two parts rounds down the exact quotient.
* `Window.average?_eq_some`, `Window.average?_eq_none` — the average that is formed is the exact
  one.
* `Window.recent_changed` — a window holds the latest rounds since the last reset.
* `Window.measures_made` — all that a window measures, after any calls.
-/
namespace RouteKeeper

/-! ## Averages of durations -/

namespace Duration

/-- Dividing two digits one by one, and what is left of them together, is dividing the number. -/
theorem div_add_div_mod (high low base parts : Nat) (h : 0 < parts) :
    high / parts * base + (low / parts + (high % parts * base + low % parts) / parts) =
      (high * base + low) / parts := by
  have hhigh := Nat.div_add_mod high parts
  have hlow := Nat.div_add_mod low parts
  generalize high / parts = qh at *
  generalize high % parts = rh at *
  generalize low / parts = ql at *
  generalize low % parts = rl at *
  have hsplit : high * base + low = rh * base + rl + parts * (qh * base + ql) := by
    rw [← hhigh, ← hlow]
    ring
  rw [hsplit, Nat.add_mul_div_left _ _ h]
  ring

/-- The two parts make up the exact quotient, rounded down. -/
theorem sharedAmong_eq (d : Duration) {count : UInt32} (h : count ≠ 0) :
    d.sharedAmong count = some ⟨d.nanos / count.toNat, (Nat.div_le_self _ _).trans d.nanos_le⟩ := by
  have hparts : 0 < count.toNat := by
    refine Nat.pos_of_ne_zero fun hzero => h ?_
    exact UInt32.toNat_inj.1 hzero
  have hnanos : d.wholeSeconds * 1000000000 + d.subsecond = d.nanos := Nat.div_add_mod' _ _
  simp only [sharedAmong, if_neg h, div_add_div_mod _ _ _ _ hparts, hnanos]
  rw [ofNanos?, dif_pos ((Nat.div_le_self _ _).trans d.nanos_le)]

@[simp] theorem total_cons (d : Duration) (l : List Duration) :
    total (d :: l) = d.nanos + total l := rfl

theorem total_perm {l l' : List Duration} (h : l.Perm l') : total l = total l' := by
  induction h with
  | nil => rfl
  | cons d _ ih => rw [total_cons, total_cons, ih]
  | swap d e l => exact Nat.add_left_comm ..
  | trans _ _ ih₁ ih₂ => exact ih₁.trans ih₂

/-- Durations of zero add nothing. -/
theorem total_filter_isZero (l : List Duration) : total (l.filter (!·.isZero)) = total l := by
  induction l with
  | nil => rfl
  | cons d l ih =>
    cases hzero : d.isZero with
    | true => simp [hzero, ih, (isZero_iff d).1 hzero]
    | false => simp [hzero, ih]

/-- No more than the longest one, as many times. -/
theorem total_le_of_le {l : List Duration} {high : Nat} (h : ∀ d ∈ l, d.nanos ≤ high) :
    total l ≤ l.length * high := by
  induction l with
  | nil => exact Nat.zero_le _
  | cons d l ih =>
    rw [total_cons, List.length_cons, Nat.succ_mul, Nat.add_comm]
    exact Nat.add_le_add (ih fun e he => h e (List.mem_cons_of_mem _ he)) (h d List.mem_cons_self)

/-- No less than the shortest one, as many times. -/
theorem le_total_of_le {l : List Duration} {low : Nat} (h : ∀ d ∈ l, low ≤ d.nanos) :
    l.length * low ≤ total l := by
  induction l with
  | nil => exact Nat.le_of_eq (Nat.zero_mul low)
  | cons d l ih =>
    rw [total_cons, List.length_cons, Nat.succ_mul, Nat.add_comm]
    exact Nat.add_le_add (h d List.mem_cons_self) (ih fun e he => h e (List.mem_cons_of_mem _ he))

/-- The average lies between two of the durations. -/
theorem mean_between {l : List Duration} (h : l ≠ []) :
    (∃ d ∈ l, d ≤ mean l) ∧ ∃ d ∈ l, mean l ≤ d := by
  have hpos : 0 < l.length := List.length_pos_iff.2 h
  constructor
  · by_contra! hall
    have hlow : l.length * ((mean l).nanos + 1) ≤ total l :=
      le_total_of_le fun d hd => Nat.lt_of_not_le (hall d hd)
    have hmean : (mean l).nanos + 1 ≤ total l / l.length :=
      (Nat.le_div_iff_mul_le hpos).2 (by rwa [Nat.mul_comm])
    exact absurd hmean (Nat.not_succ_le_self _)
  · by_contra! hall
    have hbelow : ∀ d ∈ l, d.nanos < (mean l).nanos := fun d hd => Nat.lt_of_not_le (hall d hd)
    have hhigh : total l ≤ l.length * ((mean l).nanos - 1) :=
      total_le_of_le fun d hd => Nat.le_sub_one_of_lt (hbelow d hd)
    have hmean : (mean l).nanos ≤ (mean l).nanos - 1 := Nat.div_le_of_le_mul hhigh
    obtain ⟨d, hd⟩ := List.exists_mem_of_ne_nil l h
    have := hbelow d hd
    omega

theorem ofNanos?_eq_none_iff {n : Nat} : ofNanos? n = none ↔ maxNanos < n := by
  simp only [ofNanos?]
  split <;> simp_all

/-- Adding one after the other fails exactly if the whole sum is too long. -/
theorem sum?_eq (l : List Duration) : sum? l = ofNanos? (total l) := by
  -- The induction needs any sum so far, also one that is too long.
  suffices hfold : ∀ l n, l.foldl (fun sum d => sum.bind (·.add? d)) (ofNanos? n) =
      ofNanos? (n + total l) by
    have hzero : ofNanos? 0 = some zero := rfl
    rw [sum?, ← hzero, hfold, Nat.zero_add]
  intro l
  induction l with
  | nil => exact fun n => rfl
  | cons d l ih =>
    intro n
    have hadd : (ofNanos? n).bind (·.add? d) = ofNanos? (n + d.nanos) := by
      by_cases hn : n ≤ maxNanos
      · simp only [ofNanos?, dif_pos hn, Option.bind_some, add?]
      · rw [ofNanos?_eq_none_iff.2 (Nat.lt_of_not_le hn), ofNanos?_eq_none_iff.2 (by omega)]
        rfl
    rw [List.foldl_cons, hadd, ih, total_cons, Nat.add_assoc]

end Duration

namespace Window

theorem length_answered_le (w : Window) : w.answered.length ≤ w.capacity := by
  have hslots : w.answered.length ≤ w.slots.size := by
    rw [← Array.length_toList, ← List.length_map Sample.latency]
    exact List.length_filter_le _ _
  exact hslots.trans w.size_le

/-- The average can be formed: the answer times add up to a duration, and a 32-bit counter counts
them. -/
def HasAverage (w : Window) : Prop :=
  Duration.total w.answered ≤ Duration.maxNanos ∧ w.answered.length < UInt32.size

instance (w : Window) : Decidable w.HasAverage := inferInstanceAs (Decidable (_ ∧ _))

/-- If it can be formed, the average is the exact mean, rounded down. -/
theorem average?_eq_some {w : Window} (h : w.HasAverage) : w.average? = some w.latency := by
  obtain ⟨hsum, hcounted⟩ := h
  have hcount : (UInt32.ofNat w.answered.length).toNat = w.answered.length :=
    UInt32.toNat_ofNat_of_lt hcounted
  have hzero : UInt32.ofNat w.answered.length = 0 ↔ w.answered = [] := by
    rw [← UInt32.toNat_inj, hcount]
    exact List.length_eq_zero_iff
  rw [average?, Duration.sum?_eq]
  simp only [Duration.ofNanos?, dif_pos hsum, Option.bind_some, if_pos hcounted, hzero]
  by_cases hnone : w.answered = []
  · rw [if_pos hnone, latency, hnone]
    rfl
  · rw [if_neg hnone, Duration.sharedAmong_eq _ (mt hzero.1 hnone)]
    simp only [hcount, latency, Duration.mean]

theorem average?_eq_none {w : Window} (h : ¬ w.HasAverage) : w.average? = none := by
  rw [average?, Duration.sum?_eq]
  by_cases hsum : Duration.total w.answered ≤ Duration.maxNanos
  · have hcounted : ¬ w.answered.length < UInt32.size := fun hcounted => h ⟨hsum, hcounted⟩
    simp only [Duration.ofNanos?, dif_pos hsum, Option.bind_some, if_neg hcounted]
  · rw [Duration.ofNanos?_eq_none_iff.2 (Nat.lt_of_not_le hsum)]
    rfl

/-! ## Calls -/

/-- A call that changes a window. -/
inductive Change where
  | record (sample : Sample)
  | reset
deriving DecidableEq

/-- The window after a call. -/
def change (w : Window) : Change → Window
  | .record sample => w.record sample
  | .reset => w.reset

/-- The window after calls, one after the other. -/
def changed (w : Window) (changes : List Change) : Window := changes.foldl change w

/-- The rounds that were recorded since the last reset, the oldest first. -/
def since (changes : List Change) : List Sample :=
  changes.foldl (fun rounds c => match c with | .record s => rounds ++ [s] | .reset => []) []

section Calls

variable (w : Window) (changes : List Change) (n : Nat)

theorem changed_concat (c : Change) : w.changed (changes ++ [c]) = (w.changed changes).change c := by
  rw [changed, List.foldl_concat, changed]

@[simp] theorem since_record (s : Sample) : since (changes ++ [.record s]) = since changes ++ [s] := by
  rw [since, List.foldl_concat, since]

@[simp] theorem since_reset : since (changes ++ [.reset]) = [] := by
  rw [since, List.foldl_concat]

@[simp] theorem capacity_change (c : Change) : (w.change c).capacity = w.capacity := by
  cases c with
  | record s => exact w.capacity_record s
  | reset => exact w.capacity_reset

/-- The capacity never changes. -/
@[simp] theorem capacity_changed : (w.changed changes).capacity = w.capacity := by
  induction changes using List.reverseRecOn with
  | nil => rfl
  | append_singleton changes c ih => rw [changed_concat, capacity_change, ih]

@[simp] theorem recorded_record (s : Sample) : (w.record s).recorded = countOne w.recorded := by
  obtain ⟨capacity, slots, next, recorded, _, _, _, _⟩ := w
  unfold record
  dsimp only
  split <;> rfl

/-- The rounds since the last reset are counted, up to the largest number. -/
theorem recorded_changed :
    ((new n).changed changes).recorded = Min.min (since changes).length (UInt64.size - 1) := by
  induction changes using List.reverseRecOn with
  | nil => rfl
  | append_singleton changes c ih =>
    rw [changed_concat]
    cases c with
    | record s =>
      rw [change, recorded_record, ih, since_record, List.length_append, List.length_singleton,
        countOne]
      omega
    | reset =>
      rw [since_reset]
      rfl

/-- A window holds the latest rounds since the last reset, as many as it has slots. -/
theorem recent_changed :
    ((new n).changed changes).recent = (since changes).rtake (Max.max n 1) := by
  induction changes using List.reverseRecOn with
  | nil => rw [changed, List.foldl_nil, recent_new, since, List.foldl_nil, List.rtake_nil]
  | append_singleton changes c ih =>
    rw [changed_concat]
    cases c with
    | record s =>
      rw [change, recent_record, ih, capacity_changed, capacity_new, since_record,
        rtake_rtake_concat]
    | reset => rw [change, recent_reset, since_reset, List.rtake_nil]

end Calls

/-! ## Measures of the latest rounds -/

/-- The answer times of rounds. -/
def answers (rounds : List Sample) : List Duration :=
  (rounds.map Sample.latency).filter (!·.isZero)

section Recent

variable (w : Window)

theorem length_recent : w.recent.length = w.slots.size := by
  rw [w.perm_recent.length_eq, Array.length_toList]

theorem lossHits_eq_recent : w.lossHits = w.recent.countP Sample.lost :=
  (w.perm_recent.countP_eq _).symm

theorem incomplete_iff_recent :
    w.incomplete = true ↔
      w.recent.length < w.capacity ∨ ∃ s ∈ w.recent, s.latency.isZero = true := by
  simp only [incomplete, Bool.or_eq_true, decide_eq_true_eq, List.any_eq_true, length_recent,
    w.perm_recent.mem_iff]

/-- The ring holds the answer times of the latest rounds, in another order. -/
theorem perm_answers : w.answered.Perm (answers w.recent) :=
  ((w.perm_recent.map _).filter _).symm

theorem nanos_latency :
    w.latency.nanos = Duration.total (answers w.recent) / (answers w.recent).length := by
  rw [latency, Duration.nanos_mean, Duration.total_perm w.perm_answers, w.perm_answers.length_eq]

/-- The average lies between two answer times. -/
theorem latency_between (h : answers w.recent ≠ []) :
    (∃ d ∈ answers w.recent, d ≤ w.latency) ∧ ∃ d ∈ answers w.recent, w.latency ≤ d := by
  have hanswered : w.answered ≠ [] := by
    intro hnone
    rw [← List.length_eq_zero_iff, w.perm_answers.length_eq, List.length_eq_zero_iff] at hnone
    exact h hnone
  obtain ⟨⟨d, hd, hle⟩, e, he, hge⟩ := Duration.mean_between hanswered
  exact ⟨⟨d, w.perm_answers.mem_iff.1 hd, hle⟩, e, w.perm_answers.mem_iff.1 he, hge⟩

/-- The average is zero exactly if there are no answer times. -/
theorem latency_isZero_iff : w.latency.isZero = true ↔ answers w.recent = [] := by
  constructor
  · intro hzero
    by_contra hsome
    obtain ⟨⟨d, hd, hle⟩, -⟩ := w.latency_between hsome
    have hnonzero := (List.mem_filter.1 hd).2
    rw [Bool.not_eq_true', ← Bool.not_eq_true, Duration.isZero_iff] at hnonzero
    rw [Duration.isZero_iff] at hzero
    rw [Duration.le_iff, hzero] at hle
    exact hnonzero (Nat.le_zero.1 hle)
  · intro hnone
    rw [Duration.isZero_iff, nanos_latency, hnone]
    rfl

/-- The sum of the answer times, told by the latest rounds. -/
theorem total_answered :
    Duration.total w.answered = Duration.total (w.recent.map Sample.latency) := by
  rw [Duration.total_perm w.perm_answers, answers, Duration.total_filter_isZero]

end Recent

/-! ## After any calls -/

/-- A window with so many slots, at least one, after calls. -/
def made (n : UInt64) (changes : List Change) : Window := (new n.toNat).changed changes

/-- The latest rounds since the last reset, as many as the window has slots. -/
def latest (n : UInt64) (changes : List Change) : List Sample :=
  (since changes).rtake (Max.max n.toNat 1)

theorem length_latest (n : UInt64) (changes : List Change) :
    (latest n changes).length = Min.min (since changes).length (Max.max n.toNat 1) := by
  rw [latest, List.rtake, List.length_drop]
  omega

@[simp] theorem recent_made (n : UInt64) (changes : List Change) :
    (made n changes).recent = latest n changes := recent_changed changes n.toNat

@[simp] theorem capacity_made (n : UInt64) (changes : List Change) :
    (made n changes).capacity = Max.max n.toNat 1 := by
  rw [made, capacity_changed, capacity_new]

/-- As many slots hold a round as there are latest rounds: a count that stops at the largest number
is still no less than the slots. -/
theorem length_made (n : UInt64) (changes : List Change) :
    (made n changes).length = (latest n changes).length := by
  have hslots : n.toNat < UInt64.size := n.toNat_lt
  rw [length, capacity_made, made, recorded_changed, length_latest]
  simp only [UInt64.size] at *
  omega

/-- What a window measures after any calls, in terms of the latest rounds since it was last reset,
as many as it has slots: how many they are, all rounds counted, how many of them are lost, and
whether one is missing or has no answer time. If the times of these rounds add up to a duration and
the slots can be counted in 32 bits, the average is formed; it is the exact mean of the answer times
rounded down, lies between two of them, and is zero exactly if there are none. -/
theorem measures_made (n : UInt64) (changes : List Change) :
    (made n changes).capacity = Max.max n.toNat 1 ∧
      (latest n changes).length = Min.min (since changes).length (Max.max n.toNat 1) ∧
      (made n changes).length = (latest n changes).length ∧
      (made n changes).recorded = Min.min (since changes).length (UInt64.size - 1) ∧
      (made n changes).lossHits = (latest n changes).countP Sample.lost ∧
      ((made n changes).incomplete = true ↔ (latest n changes).length < Max.max n.toNat 1 ∨
        ∃ s ∈ latest n changes, s.latency.isZero = true) ∧
      (Duration.total ((latest n changes).map Sample.latency) ≤ Duration.maxNanos →
        Max.max n.toNat 1 < UInt32.size →
          ∃ average, (made n changes).average? = some average ∧
            (made n changes).latency = average ∧
            average.nanos =
              Duration.total (answers (latest n changes)) / (answers (latest n changes)).length ∧
            (answers (latest n changes) ≠ [] →
              (∃ d ∈ answers (latest n changes), d ≤ average) ∧
                ∃ d ∈ answers (latest n changes), average ≤ d) ∧
            (average.isZero = true ↔ answers (latest n changes) = [])) := by
  refine ⟨capacity_made n changes, length_latest n changes, length_made n changes,
    recorded_changed changes n.toNat, ?_, ?_, fun hsum hslots => ⟨_, ?_, rfl, ?_, ?_, ?_⟩⟩
  · rw [lossHits_eq_recent, recent_made]
  · rw [incomplete_iff_recent, recent_made, capacity_made]
  · rw [← recent_made, ← total_answered] at hsum
    rw [← capacity_made n changes] at hslots
    exact average?_eq_some ⟨hsum, Nat.lt_of_le_of_lt (length_answered_le _) hslots⟩
  · rw [nanos_latency, recent_made]
  · rw [← recent_made]
    exact latency_between _
  · rw [latency_isZero_iff, recent_made]

/-- A window of two slots: a round before a reset, then three rounds, one of them lost. -/
def handful : List Change :=
  [.record ⟨.millis 90, true⟩, .reset, .record ⟨.millis 70, true⟩, .record ⟨.seconds 4, false⟩,
    .record ⟨⟨1000000001, by decide⟩, false⟩]

/-- The latest two rounds count, with the exact mean of an odd sum rounded down. -/
theorem measures_made_handful :
    Duration.total ((latest 2 handful).map Sample.latency) ≤ Duration.maxNanos ∧
      Max.max (2 : UInt64).toNat 1 < UInt32.size ∧
      (made 2 handful).recorded = 3 ∧ (made 2 handful).length = 2 ∧
      (made 2 handful).average? = some ⟨2500000000, by decide⟩ := by
  have hsum : Duration.total ((latest 2 handful).map Sample.latency) ≤ Duration.maxNanos := by
    decide
  obtain ⟨-, -, hlength, hrecorded, -, -, haverage⟩ := measures_made 2 handful
  obtain ⟨average, hformed, -, hmean, -⟩ := haverage hsum (by decide)
  refine ⟨hsum, by decide, hrecorded, hlength, ?_⟩
  rw [hformed]
  exact congrArg some (Duration.ext hmean)

end Window

end RouteKeeper
