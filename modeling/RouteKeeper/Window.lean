import RouteKeeper.Double
import RouteKeeper.Duration

/-!
# Windows of recent probe rounds

A window is a ring of as many slots as rounds it remembers, at least one. A slot that was never
written counts as a round without an answer time that was not lost. The latency of a window averages
the rounds that have an answer time; its loss counts lost rounds against all slots.

## Main definitions

* `Sample` — the outcome of one round.
* `Window` — the ring, with `record` and `reset`.
* `Loss` — lost rounds out of slots, with the share as a double.
* `Loss.less`, `Loss.lessShare` — shares compared as exact ratios, and as doubles.
* `Window.average?` — the average as it is formed; `Window.latency` is the exact one.
* `Window.fails` — the window cannot be kept, or has no average.
-/
namespace RouteKeeper

/-- The outcome of a round: the time until the answer, zero without one, and whether it is lost. -/
structure Sample where
  latency : Duration
  lost : Bool
deriving DecidableEq

/-- Lost rounds out of the slots of a window. -/
structure Loss where
  hits : Nat
  slots : Nat
deriving DecidableEq

namespace Loss

/-- The smaller share, as an exact ratio. Out of the same slots this is the smaller double too, as
long as the slots are no more than a double can count. -/
def less (a b : Loss) : Bool := a.hits * b.slots < b.hits * a.slots

/-- The share as a double. -/
def share (l : Loss) : Double := .ofFloat (Double.ofCount l.hits / Double.ofCount l.slots)

/-- The smaller share, as a double. Different ratios can be the same double. -/
def lessShare (a b : Loss) : Bool := a.share.toFloat < b.share.toFloat

/-- The share is at least so many percent. -/
def reaches (l : Loss) (percent : Nat) : Bool := l.hits * 100 ≥ percent * l.slots

/-- Out of the same number of slots the order is that of the lost rounds. -/
theorem less_iff_of_slots_eq {a b : Loss} (h : a.slots = b.slots) (hp : 0 < b.slots) :
    a.less b = true ↔ a.hits < b.hits := by
  simp only [less, decide_eq_true_eq, h]
  exact Nat.mul_lt_mul_right hp

end Loss

/-- A ring of the latest rounds. The slots are made when they are written first, one after the
other; those that are not made yet were never written. -/
structure Window where
  capacity : Nat
  slots : Array Sample
  /-- The slot that is written next. -/
  next : Nat
  /-- The rounds recorded since the last reset, counted up to the largest 64-bit number. -/
  recorded : Nat
  next_lt : next < capacity
  size_le : slots.size ≤ capacity
  next_eq : slots.size < capacity → next = slots.size
  recorded_lt : recorded < UInt64.size

namespace Window

/-- The window without rounds; a capacity of zero is raised to one. -/
def new (capacity : Nat) : Window where
  capacity := Max.max capacity 1
  slots := #[]
  next := 0
  recorded := 0
  next_lt := by omega
  size_le := Nat.zero_le _
  next_eq := fun _ => rfl
  recorded_lt := by decide

/-- The number of rounds a window remembers where nobody chose one. -/
def defaultCapacity : Nat := 10

theorem capacity_pos (w : Window) : 0 < w.capacity := Nat.lt_of_le_of_lt (Nat.zero_le _) w.next_lt

@[simp] theorem capacity_new (n : Nat) : (new n).capacity = Max.max n 1 := rfl

/-- The number of slots that hold a round. -/
def length (w : Window) : Nat := Min.min w.recorded w.capacity

/-- No round was recorded since the last reset. -/
def isEmpty (w : Window) : Bool := w.recorded == 0

/-- The slot after a slot. -/
def after (slot capacity : Nat) : Nat := if slot + 1 = capacity then 0 else slot + 1

/-- The count of rounds with one more. -/
def countOne (recorded : Nat) : Nat := Min.min (recorded + 1) (UInt64.size - 1)

theorem after_lt {slot capacity : Nat} (h : slot < capacity) : after slot capacity < capacity := by
  unfold after
  split <;> omega

theorem countOne_lt (recorded : Nat) : countOne recorded < UInt64.size := by
  simp only [countOne, UInt64.size]
  omega

/-- Write a round over the oldest one. -/
def record (w : Window) (s : Sample) : Window :=
  match w with
  | ⟨capacity, slots, next, recorded, next_lt, size_le, next_eq, _⟩ =>
    if h : next < slots.size then
      { capacity
        slots := slots.set next s h
        next := after next capacity
        recorded := countOne recorded
        next_lt := after_lt next_lt
        size_le := by simpa using size_le
        next_eq := by
          intro hs
          rw [Array.size_set] at hs
          have := next_eq hs
          omega
        recorded_lt := countOne_lt recorded }
    else
      { capacity
        slots := slots.push s
        next := after next capacity
        recorded := countOne recorded
        next_lt := after_lt next_lt
        size_le := by
          rw [Array.size_push]
          omega
        next_eq := by
          intro hs
          rw [Array.size_push] at hs ⊢
          have := next_eq (by omega)
          unfold after
          split <;> omega
        recorded_lt := countOne_lt recorded }

@[simp] theorem capacity_record (w : Window) (s : Sample) : (w.record s).capacity = w.capacity := by
  obtain ⟨capacity, slots, next, recorded, _, _, _, _⟩ := w
  unfold record
  dsimp only
  split <;> rfl

/-- Forget all rounds. -/
def reset (w : Window) : Window := new w.capacity

@[simp] theorem capacity_reset (w : Window) : w.reset.capacity = w.capacity := by
  have := w.capacity_pos
  simp only [reset, capacity_new]
  omega

/-- The answer times in the window. -/
def answered (w : Window) : List Duration :=
  (w.slots.toList.map Sample.latency).filter (!·.isZero)

/-- The exact average of the answer times, rounded down; zero without any. -/
def latency (w : Window) : Duration := Duration.mean w.answered

/-- The average as it is formed: the answer times are added up as durations and counted by a 32-bit
counter, then the sum is divided. There is none if the sum or the count leaves its range. -/
def average? (w : Window) : Option Duration :=
  (Duration.sum? w.answered).bind fun sum =>
    if w.answered.length < UInt32.size then
      let count := UInt32.ofNat w.answered.length
      if count = 0 then some .zero else sum.sharedAmong count
    else none

/-- The lost rounds in the window. -/
def lossHits (w : Window) : Nat := w.slots.toList.countP Sample.lost

/-- The lost rounds out of all slots. -/
def loss (w : Window) : Loss := ⟨w.lossHits, w.capacity⟩

/-- The loss is at least so many percent. -/
def lossReaches (w : Window) (percent : Nat) : Bool := w.loss.reaches percent

/-- Some slot has no answer time. -/
def incomplete (w : Window) : Bool :=
  w.slots.size < w.capacity || w.slots.toList.any (·.latency.isZero)

@[simp] theorem slots_loss (w : Window) : w.loss.slots = w.capacity := rfl

/-! ## Windows that fail -/

/-- The most slots of a window: a slot takes sixteen bytes of memory, of which there are fewer than
`2 ^ 63`. -/
def mostSlots : Nat := 576460752303423487

/-- The window does not fit into memory, or its average cannot be formed. -/
def fails (w : Window) : Bool := w.capacity > mostSlots || w.average?.isNone

end Window

end RouteKeeper
