/-!
# Lengths of time

A duration counts nanoseconds. Its range is that of a 64-bit count of whole seconds with a
nanosecond part below one second, so sums can leave the range and are partial.
-/
namespace RouteKeeper

/-- The longest duration: `2 ^ 64 - 1` seconds and 999 999 999 nanoseconds. -/
def Duration.maxNanos : Nat := 18446744073709551615999999999

/-- A length of time in nanoseconds. -/
structure Duration where
  nanos : Nat
  nanos_le : nanos ≤ Duration.maxNanos
deriving DecidableEq

namespace Duration

@[ext] theorem ext {a b : Duration} (h : a.nanos = b.nanos) : a = b := by
  cases a; cases b; cases h; rfl

/-- The duration of that many nanoseconds, if there is one. -/
def ofNanos? (n : Nat) : Option Duration :=
  if h : n ≤ maxNanos then some ⟨n, h⟩ else none

/-- The duration of that many nanoseconds, at most the longest. -/
def clamp (n : Nat) : Duration := ⟨min n maxNanos, Nat.min_le_right _ _⟩

def zero : Duration := ⟨0, Nat.zero_le _⟩

/-- The longest duration. -/
def longest : Duration := ⟨maxNanos, Nat.le_refl _⟩

instance : Inhabited Duration := ⟨zero⟩

/-- Whole seconds. -/
def seconds (s : Nat) (h : s * 1000000000 ≤ maxNanos := by decide) : Duration :=
  ⟨s * 1000000000, h⟩

/-- Whole milliseconds. -/
def millis (m : Nat) (h : m * 1000000 ≤ maxNanos := by decide) : Duration := ⟨m * 1000000, h⟩

/-- Whole microseconds. -/
def micros (m : Nat) (h : m * 1000 ≤ maxNanos := by decide) : Duration := ⟨m * 1000, h⟩

@[simp] theorem nanos_zero : zero.nanos = 0 := rfl
@[simp] theorem nanos_longest : longest.nanos = maxNanos := rfl

theorem nanos_clamp (n : Nat) : (clamp n).nanos = min n maxNanos := rfl

def isZero (d : Duration) : Bool := d.nanos == 0

@[simp] theorem isZero_iff (d : Duration) : d.isZero = true ↔ d.nanos = 0 := by simp [isZero]

instance : LT Duration := ⟨fun a b => a.nanos < b.nanos⟩
instance : LE Duration := ⟨fun a b => a.nanos ≤ b.nanos⟩
instance (a b : Duration) : Decidable (a < b) := inferInstanceAs (Decidable (a.nanos < b.nanos))
instance (a b : Duration) : Decidable (a ≤ b) := inferInstanceAs (Decidable (a.nanos ≤ b.nanos))

theorem lt_iff (a b : Duration) : a < b ↔ a.nanos < b.nanos := Iff.rfl
theorem le_iff (a b : Duration) : a ≤ b ↔ a.nanos ≤ b.nanos := Iff.rfl

/-- The longer of two. -/
def max (a b : Duration) : Duration := if a.nanos ≤ b.nanos then b else a

@[simp] theorem nanos_max (a b : Duration) : (a.max b).nanos = Max.max a.nanos b.nanos := by
  unfold max
  split <;> omega

/-- The time by which the first is longer than the second, zero if it is not. -/
def minus (a b : Duration) : Duration := ⟨a.nanos - b.nanos, by have := a.nanos_le; omega⟩

@[simp] theorem nanos_minus (a b : Duration) : (a.minus b).nanos = a.nanos - b.nanos := rfl

/-- The sum, if it is a duration. -/
def add? (a b : Duration) : Option Duration := ofNanos? (a.nanos + b.nanos)

/-- The whole seconds. -/
def wholeSeconds (d : Duration) : Nat := d.nanos / 1000000000

/-- The nanoseconds beyond the whole seconds. -/
def subsecond (d : Duration) : Nat := d.nanos % 1000000000

/-- The duration in seconds: the whole seconds and the rest are rounded one by one, then added. -/
def inSeconds (d : Duration) : Float :=
  (UInt64.ofNat d.wholeSeconds).toFloat + (UInt64.ofNat d.subsecond).toFloat / 1e9

/-- The duration in milliseconds, from the rounded seconds. -/
def inMillis (d : Duration) : Float := d.inSeconds * 1000.0

/-! ## Averages -/

/-- The sum in nanoseconds of a list of durations. -/
def total (l : List Duration) : Nat := l.foldr (fun d n => d.nanos + n) 0

theorem total_le (l : List Duration) : total l ≤ l.length * maxNanos := by
  induction l with
  | nil => simp [total]
  | cons d r ih =>
    simp only [total, List.foldr_cons, List.length_cons] at *
    have := d.nanos_le
    rw [Nat.add_mul]
    omega

/-- The average of a list of durations, rounded down; zero for the empty list. -/
def mean (l : List Duration) : Duration :=
  ⟨total l / l.length, by
    rcases Nat.eq_zero_or_pos l.length with h | h
    · simp [h]
    · exact (Nat.div_le_iff_le_mul h).2 (by
        have := total_le l
        rw [Nat.mul_comm] at this
        omega)⟩

@[simp] theorem nanos_mean (l : List Duration) : (mean l).nanos = total l / l.length := rfl

/-- The sum of durations, added one after the other; there is none if it becomes too long. -/
def sum? (l : List Duration) : Option Duration :=
  l.foldl (fun sum d => sum.bind (·.add? d)) (some zero)

/-- The duration divided by a count, unless that is zero. Whole seconds and nanoseconds are divided
one by one, and the nanoseconds get their share of the seconds that are left. -/
def sharedAmong (d : Duration) (count : UInt32) : Option Duration :=
  if count = 0 then none
  else
    let parts := count.toNat
    let left := d.wholeSeconds % parts * 1000000000 + d.subsecond % parts
    ofNanos? (d.wholeSeconds / parts * 1000000000 + (d.subsecond / parts + left / parts))

end Duration

end RouteKeeper
