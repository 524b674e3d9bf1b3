import Mathlib.Data.List.DropRight
import RouteKeeper.Window

/-!
# The rounds of a window in order

A window is a ring, and the oldest round stands where the next one is written. Read from there, the
ring is the list of the latest rounds, and recording a round puts it at the end of the list and
drops from the front what is too many.

## Main definitions

* `Window.recent` — the rounds of a window, the oldest first.

## Main statements

* `Window.recent_new`, `Window.recent_record` — the latest rounds of the operations on windows.
* `Window.perm_recent` — these are the rounds that the ring holds.
-/
namespace RouteKeeper

theorem rtake_rtake {α : Type} (l : List α) (m n : Nat) :
    (l.rtake m).rtake n = l.rtake (min n m) := by
  simp only [List.rtake_eq_reverse_take_reverse, List.reverse_reverse, List.take_take]

/-- Of the latest elements and one more, the latest are those of all elements and the one more. -/
theorem rtake_rtake_concat {α : Type} (l : List α) (a : α) (count : Nat) :
    (l.rtake count ++ [a]).rtake count = (l ++ [a]).rtake count := by
  cases count with
  | zero => rw [List.rtake_zero, List.rtake_zero]
  | succ fewer =>
    rw [List.rtake_concat_succ, List.rtake_concat_succ, rtake_rtake,
      Nat.min_eq_left (Nat.le_succ fewer)]

theorem rtake_of_length_le {α : Type} {l : List α} {count : Nat} (h : l.length ≤ count) :
    l.rtake count = l := by
  rw [List.rtake, Nat.sub_eq_zero_of_le h, List.drop_zero]

namespace Window

/-- The rounds of a window, the oldest first. -/
def recent (w : Window) : List Sample := w.slots.toList.drop w.next ++ w.slots.toList.take w.next

/-- The latest rounds are the rounds that the ring holds. -/
theorem perm_recent (w : Window) : w.recent.Perm w.slots.toList := by
  unfold recent
  apply List.perm_append_comm.trans
  rw [List.take_append_drop]

@[simp] theorem recent_new (capacity : Nat) : (new capacity).recent = [] := rfl

@[simp] theorem recent_reset (w : Window) : w.reset.recent = [] := recent_new w.capacity

/-- After a slot come the slots behind it, which are none after the last slot. -/
theorem drop_after {α : Type} {l : List α} {slot capacity : Nat} (h : l.length ≤ capacity) :
    l.drop (after slot capacity) ++ l.take (after slot capacity) =
      l.drop (slot + 1) ++ l.take (slot + 1) := by
  unfold after
  split
  case isFalse => rfl
  case isTrue hlast =>
    have hlength : l.length ≤ slot + 1 := by omega
    rw [List.drop_zero, List.take_zero, List.append_nil, List.drop_eq_nil_of_le hlength,
      List.take_of_length_le hlength, List.nil_append]

/-- Recording a round puts it behind the latest ones. -/
theorem recent_record (w : Window) (s : Sample) :
    (w.record s).recent = (w.recent ++ [s]).rtake w.capacity := by
  obtain ⟨capacity, slots, next, recorded, next_lt, size_le, next_eq, recorded_lt⟩ := w
  unfold record
  dsimp only
  split
  case isTrue hwritten =>
    -- The ring is full: as long as it is not, the slot that is next is not made yet.
    have hfull : slots.toList.length = capacity := by
      rw [Array.length_toList]
      by_contra hroom
      have hnext := next_eq (by omega)
      omega
    have hnext : next < slots.toList.length := by rwa [Array.length_toList]
    have hoverwritten : (slots.toList.set next s).take (next + 1) =
        slots.toList.take next ++ [s] := by
      rw [List.take_succ_eq_append_getElem (by simpa using hwritten), List.take_set_of_le le_rfl,
        List.getElem_set_self]
    have hone :
        (slots.toList.drop next ++ slots.toList.take next ++ [s]).length - capacity = 1 := by
      simp only [List.length_append, List.length_drop, List.length_take, List.length_singleton]
      omega
    simp only [recent, Array.toList_set]
    rw [drop_after (by rw [List.length_set, hfull]), List.drop_set_of_lt (Nat.lt_succ_self next),
      hoverwritten, List.rtake, hone, List.drop_eq_getElem_cons hnext]
    simp only [List.cons_append, List.drop_succ_cons, List.drop_zero, List.append_assoc]
  case isFalse hfresh =>
    have hnext : next = slots.toList.length := by
      rw [Array.length_toList]
      exact next_eq (by omega)
    have hroom : (slots.toList ++ [s]).length ≤ capacity := by
      rw [List.length_append, List.length_singleton, ← hnext]
      omega
    have hall : (slots.toList ++ [s]).length ≤ next + 1 := by
      rw [List.length_append, List.length_singleton, hnext]
    simp only [recent, Array.toList_push]
    rw [drop_after hroom, List.drop_eq_nil_of_le hall, List.take_of_length_le hall, hnext,
      List.drop_length, List.take_length, List.nil_append, List.nil_append,
      rtake_of_length_le hroom]

end Window

end RouteKeeper
