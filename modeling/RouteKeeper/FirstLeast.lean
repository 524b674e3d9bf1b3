/-!
# The first of the least

Choosing from a list by a comparison: the walk keeps the element that it has until a strictly lesser
one comes, so that of equals the first is chosen.
-/
namespace RouteKeeper

/-- Keep the element that the walk has unless the next one is less. -/
def keepLess {α : Type} (less : α → α → Bool) (kept next : α) : α :=
  if less next kept then next else kept

/-- The first element of a list such that no later one is less. -/
def firstLeast {α : Type} (less : α → α → Bool) : List α → Option α
  | [] => none
  | a :: r => some (r.foldl (keepLess less) a)

/-! ## Comparisons that can fail -/

/-- Keep the element that the walk has unless the next one is less, if that can be told. -/
def keepLess? {α : Type} (less? : α → α → Option Bool) (kept next : α) : Option α :=
  (less? next kept).map fun isLess => if isLess then next else kept

/-- The first element of a list such that no later one is less, if every comparison on the walk can
be made. -/
def firstLeast? {α : Type} (less? : α → α → Option Bool) : List α → Option (Option α)
  | [] => some none
  | a :: r => (r.foldlM (keepLess? less?) a).map some

section

variable {α : Type} (less : α → α → Bool)

@[simp] theorem firstLeast_nil : firstLeast less [] = none := rfl

@[simp] theorem firstLeast_eq_none_iff (l : List α) : firstLeast less l = none ↔ l = [] := by
  cases l <;> simp [firstLeast]

theorem foldl_keepLess_mem (a : α) (l : List α) : l.foldl (keepLess less) a ∈ a :: l := by
  induction l generalizing a with
  | nil => simp
  | cons b r ih =>
    have h := ih (keepLess less a b)
    simp only [List.foldl_cons, List.mem_cons] at *
    rcases h with h | h
    · unfold keepLess at h ⊢
      split at h <;> simp_all
    · exact .inr (.inr h)

/-- What is chosen is in the list. -/
theorem mem_of_firstLeast_eq_some {l : List α} {a : α} (h : firstLeast less l = some a) :
    a ∈ l := by
  cases l with
  | nil => simp at h
  | cons b r =>
    simp only [firstLeast, Option.some.injEq] at h
    exact h ▸ foldl_keepLess_mem less b r

end

end RouteKeeper
