import Mathlib.Data.List.Induction
import RouteKeeper.FirstLeast

/-!
# The chosen element is the first of the least

What is chosen by a comparison has nothing below it and only greater elements before it, provided
that the comparison is that of a total preorder: it is asymmetric, and not being less can be
chained. So what is chosen from a list in another order is equal to it in the comparison.

## Main definitions

* `StandsFirst` — an element stands in a list as the first of the least.
* `Comparison` — a comparison that a total preorder gives.

## Main statements

* `firstLeast?_eq_some`, `firstLeast?_eq_none` — choosing by a comparison that can fail.
* `Comparison.firstLeast_eq_some_iff` — what is chosen is what stands first, and conversely.
* `Comparison.firstLeast_perm` — choosing from a list in another order.
-/
namespace RouteKeeper

/-- Choosing goes along with a map that keeps the comparison. -/
theorem firstLeast_map {α : Type} {less : α → α → Bool} {f : α → α}
    (h : ∀ a b, less (f a) (f b) = less a b) (l : List α) :
    firstLeast less (l.map f) = (firstLeast less l).map f := by
  have hfold : ∀ (l : List α) (a : α),
      (l.map f).foldl (keepLess less) (f a) = f (l.foldl (keepLess less) a) := by
    intro l
    induction l with
    | nil => intro a; rfl
    | cons b l ih =>
      intro a
      have hkept : keepLess less (f a) (f b) = f (keepLess less a b) := by
        simp only [keepLess, h]
        split <;> rfl
      rw [List.map_cons, List.foldl_cons, List.foldl_cons, hkept, ih]
  cases l with
  | nil => rfl
  | cons a l =>
    rw [List.map_cons, firstLeast, firstLeast, hfold]
    rfl

/-- Choosing depends on the comparisons within the list only. -/
theorem firstLeast_congr {α : Type} {less less' : α → α → Bool} {l : List α}
    (h : ∀ a ∈ l, ∀ b ∈ l, less a b = less' a b) : firstLeast less l = firstLeast less' l := by
  cases l with
  | nil => rfl
  | cons a l =>
    rw [firstLeast, firstLeast]
    congr 1
    induction l generalizing a with
    | nil => rfl
    | cons b l ih =>
      have hkept : keepLess less a b = keepLess less' a b := by
        rw [keepLess, keepLess, h b (by simp) a (by simp)]
      rw [List.foldl_cons, List.foldl_cons, hkept]
      refine ih _ fun c hc d hd => ?_
      have hmem : ∀ e ∈ keepLess less' a b :: l, e ∈ a :: b :: l := by
        intro e he
        rcases List.mem_cons.1 he with rfl | he
        · rw [keepLess]
          split <;> simp
        · simp [he]
      exact h c (hmem c hc) d (hmem d hd)

/-! ## Comparisons that can fail -/

section

variable {α : Type} {less : α → α → Bool} {less? : α → α → Option Bool} {ok : α → Prop}

/-- The walk comes to its end over elements that can all be compared. -/
theorem foldlM_keepLess?_eq_some (hsome : ∀ a b, ok a → ok b → less? a b = some (less a b)) {a : α}
    {l : List α} (h : ∀ b ∈ a :: l, ok b) :
    l.foldlM (keepLess? less?) a = some (l.foldl (keepLess less) a) := by
  induction l generalizing a with
  | nil => rfl
  | cons b l ih =>
    have ha := h a List.mem_cons_self
    have hb := h b (List.mem_cons_of_mem _ List.mem_cons_self)
    have hkept : keepLess? less? a b = some (keepLess less a b) := by
      rw [keepLess?, hsome b a hb ha, Option.map_some, keepLess]
    rw [List.foldlM_cons, hkept, List.foldl_cons]
    refine ih fun c hc => ?_
    rcases List.mem_cons.1 hc with rfl | hc
    · rw [keepLess]
      split
      · exact hb
      · exact ha
    · exact h c (List.mem_cons_of_mem _ (List.mem_cons_of_mem _ hc))

/-- The walk fails over an element that cannot be compared, for every element is compared once. -/
theorem foldlM_keepLess?_eq_none (hok : ∀ a b, less? a b ≠ none → ok a ∧ ok b) {a : α} {l : List α}
    (hl : l ≠ []) (h : ∃ b ∈ a :: l, ¬ ok b) : l.foldlM (keepLess? less?) a = none := by
  induction l generalizing a with
  | nil => exact absurd rfl hl
  | cons b l ih =>
    rw [List.foldlM_cons]
    cases hless : less? b a with
    | none => simp only [keepLess?, hless, Option.map_none, Option.bind_eq_bind, Option.bind_none]
    | some isLess =>
      obtain ⟨hb, ha⟩ := hok b a (by rw [hless]; exact Option.some_ne_none _)
      obtain ⟨c, hc, hbad⟩ := h
      have hlater : c ∈ l := by
        rcases List.mem_cons.1 hc with rfl | hc
        · exact absurd ha hbad
        rcases List.mem_cons.1 hc with rfl | hc
        · exact absurd hb hbad
        · exact hc
      simp only [keepLess?, hless, Option.map_some, Option.bind_eq_bind, Option.bind_some]
      exact ih (List.ne_nil_of_mem hlater) ⟨c, List.mem_cons_of_mem _ hlater, hbad⟩

/-- A list is chosen from without a failure if there is nothing to compare, or all can be compared.
-/
theorem firstLeast?_eq_some (hsome : ∀ a b, ok a → ok b → less? a b = some (less a b)) {l : List α}
    (h : l.length ≤ 1 ∨ ∀ a ∈ l, ok a) : firstLeast? less? l = some (firstLeast less l) := by
  match l, h with
  | [], _ => rfl
  | [a], _ => rfl
  | a :: b :: l, h =>
    have hall : ∀ c ∈ a :: b :: l, ok c := h.resolve_left (by simp)
    rw [firstLeast?, foldlM_keepLess?_eq_some hsome hall, Option.map_some, firstLeast]

/-- Otherwise choosing fails. -/
theorem firstLeast?_eq_none (hok : ∀ a b, less? a b ≠ none → ok a ∧ ok b) {l : List α}
    (h : ¬ (l.length ≤ 1 ∨ ∀ a ∈ l, ok a)) : firstLeast? less? l = none := by
  simp only [not_or, Nat.not_le, not_forall] at h
  obtain ⟨hlong, a, ha, hbad⟩ := h
  obtain ⟨first, rest, rfl⟩ := List.exists_cons_of_length_pos (Nat.zero_lt_of_lt hlong)
  have hrest : rest ≠ [] := by
    rintro rfl
    exact Nat.lt_irrefl _ hlong
  rw [firstLeast?, foldlM_keepLess?_eq_none hok hrest ⟨a, ha, hbad⟩, Option.map_none]

end

/-! ## Standing first -/

section

variable {α : Type} {less : α → α → Bool}

/-- An element stands in a list as the first of the least: all before it are greater, and none after
it is less. -/
def StandsFirst (less : α → α → Bool) (l : List α) (a : α) : Prop :=
  ∃ before after, l = before ++ a :: after ∧ (∀ b ∈ before, less a b = true) ∧
    ∀ b ∈ after, less b a = false

theorem standsFirst_filter_iff {p : α → Bool} {l : List α} {a : α} :
    StandsFirst less (l.filter p) a ↔
      ∃ before after, l = before ++ a :: after ∧ p a = true ∧
        (∀ b ∈ before, p b = true → less a b = true) ∧
        ∀ b ∈ after, p b = true → less b a = false := by
  constructor
  · rintro ⟨kept, rest, hsplit, hkept, hrest⟩
    obtain ⟨before, tail, rfl, rfl, htail⟩ := List.filter_eq_append_iff.1 hsplit
    obtain ⟨skipped, after, rfl, hskipped, ha, rfl⟩ := List.filter_eq_cons_iff.1 htail
    refine ⟨before ++ skipped, after, (List.append_assoc ..).symm, ha, fun b hb hp => ?_,
      fun b hb hp => hrest b (List.mem_filter.2 ⟨hb, hp⟩)⟩
    rcases List.mem_append.1 hb with hb | hb
    · exact hkept b (List.mem_filter.2 ⟨hb, hp⟩)
    · exact absurd hp (hskipped b hb)
  · rintro ⟨before, after, rfl, ha, hbefore, hafter⟩
    refine ⟨before.filter p, after.filter p, ?_, fun b hb => ?_, fun b hb => ?_⟩
    · rw [List.filter_append, List.filter_cons_of_pos ha]
    · exact hbefore b (List.mem_filter.1 hb).1 (List.mem_filter.1 hb).2
    · exact hafter b (List.mem_filter.1 hb).1 (List.mem_filter.1 hb).2

/-- The walk stays with an element as long as nothing less comes. -/
theorem foldl_keepLess_of_forall {a : α} {l : List α} (h : ∀ b ∈ l, less b a = false) :
    l.foldl (keepLess less) a = a := by
  induction l with
  | nil => rfl
  | cons b l ih =>
    have hstays : keepLess less a b = a := by simp only [keepLess, h b List.mem_cons_self]; rfl
    rw [List.foldl_cons, hstays, ih fun c hc => h c (List.mem_cons_of_mem _ hc)]

/-- What stands first is chosen. -/
theorem StandsFirst.firstLeast_eq {l : List α} {a : α} (h : StandsFirst less l a) :
    firstLeast less l = some a := by
  obtain ⟨before, after, rfl, hbefore, hafter⟩ := h
  have hstays := foldl_keepLess_of_forall hafter
  cases before with
  | nil => rw [List.nil_append, firstLeast, hstays]
  | cons c before =>
    have hless := hbefore _ (foldl_keepLess_mem less c before)
    rw [List.cons_append, firstLeast, List.foldl_append, List.foldl_cons, keepLess, if_pos hless,
      hstays]

end

/-! ## Total preorders -/

/-- A comparison that a total preorder gives. -/
structure Comparison {α : Type} (less : α → α → Bool) : Prop where
  asymm {a b : α} : less a b = true → less b a = false
  chain {a b c : α} : less b a = false → less c b = false → less c a = false

namespace Comparison

variable {α : Type} {less : α → α → Bool}

theorem irrefl (h : Comparison less) (a : α) : less a a = false := by
  cases haa : less a a with
  | false => rfl
  | true => exact haa.symm.trans (h.asymm haa)

/-- What is less than one that nothing else is less than is less than all. -/
theorem less_of_less (h : Comparison less) {a b c : α} (hca : less c a = true)
    (hba : less b a = false) : less c b = true := by
  by_contra hcb
  rw [h.chain hba (Bool.not_eq_true _ ▸ hcb)] at hca
  cases hca

/-- Nothing in the list is less than what stands first. -/
theorem least_of_standsFirst (h : Comparison less) {l : List α} {a : α}
    (ha : StandsFirst less l a) : ∀ b ∈ l, less b a = false := by
  obtain ⟨before, after, rfl, hbefore, hafter⟩ := ha
  intro b hb
  rcases List.mem_append.1 hb with hb | hb
  · exact h.asymm (hbefore b hb)
  rcases List.mem_cons.1 hb with rfl | hb
  · exact h.irrefl b
  · exact hafter b hb

/-- One step of the walk: the next element is taken if it is less, and then it is less than all that
came before. -/
theorem standsFirst_keepLess (h : Comparison less) {l : List α} {a : α}
    (ha : StandsFirst less l a) (c : α) : StandsFirst less (l ++ [c]) (keepLess less a c) := by
  have hleast := h.least_of_standsFirst ha
  cases hca : less c a with
  | true =>
    rw [keepLess, if_pos hca]
    exact ⟨l, [], rfl, fun b hb => h.less_of_less hca (hleast b hb), nofun⟩
  | false =>
    obtain ⟨before, after, rfl, hbefore, hafter⟩ := ha
    rw [keepLess, if_neg (Bool.not_eq_true _ ▸ hca)]
    refine ⟨before, after ++ [c], by simp, hbefore, fun b hb => ?_⟩
    rcases List.mem_append.1 hb with hb | hb
    · exact hafter b hb
    · rwa [List.mem_singleton.1 hb]

/-- Wherever the walk has come to, what it keeps stands first in what it has seen. -/
theorem standsFirst_foldl (h : Comparison less) (a : α) (l : List α) :
    StandsFirst less (a :: l) (l.foldl (keepLess less) a) := by
  induction l using List.reverseRecOn with
  | nil => exact ⟨[], [], rfl, nofun, nofun⟩
  | append_singleton l c ih =>
    rw [List.foldl_append, List.foldl_cons, List.foldl_nil]
    exact h.standsFirst_keepLess ih c

/-- What is chosen is what stands first. -/
theorem firstLeast_eq_some_iff (h : Comparison less) {l : List α} {a : α} :
    firstLeast less l = some a ↔ StandsFirst less l a := by
  refine ⟨fun ha => ?_, StandsFirst.firstLeast_eq⟩
  cases l with
  | nil => cases ha
  | cons c l =>
    rw [firstLeast, Option.some.injEq] at ha
    exact ha ▸ h.standsFirst_foldl c l

/-- Nothing in a list is less than what is chosen from it. -/
theorem firstLeast_least (h : Comparison less) {l : List α} {a : α}
    (ha : firstLeast less l = some a) : ∀ b ∈ l, less b a = false :=
  h.least_of_standsFirst (h.firstLeast_eq_some_iff.1 ha)

/-- What is chosen from the list in another order is neither less nor greater. -/
theorem firstLeast_perm (h : Comparison less) {l l' : List α} (hperm : l'.Perm l) {a a' : α}
    (ha : firstLeast less l = some a) (ha' : firstLeast less l' = some a') :
    less a a' = false ∧ less a' a = false :=
  ⟨h.firstLeast_least ha' a (hperm.mem_iff.2 (mem_of_firstLeast_eq_some less ha)),
    h.firstLeast_least ha a' (hperm.mem_iff.1 (mem_of_firstLeast_eq_some less ha'))⟩

end Comparison

end RouteKeeper
