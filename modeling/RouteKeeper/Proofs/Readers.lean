import Mathlib.Data.List.TakeDrop
import RouteKeeper.Text.Reader

/-!
# Laws of readers

What each way of making a reader does with a text that starts as it expects, and with one that does
not. Repetition reads value after value up to where the reader fails; since every value takes a
character, it never stops for another reason.

## Main definitions

* `Reader.Chain` — values that a reader reads one after the other, up to where it fails.

## Main statements

* `Reader.bind_of_eq`, `Reader.orElse_of_none` — sequence and choice.
* `Reader.takeWhile_append` — the longest run of characters.
* `Reader.Chain.many` — repetition reads the whole chain.
-/
namespace RouteKeeper.Text.Reader

variable {α β : Type} {r s : Reader α} {f : α → Reader β} {cs rest : List Char} {a : α}

/-! ## Sequence and choice -/

theorem bind_of_eq (h : r cs = some (a, rest)) : (r >>= f) cs = f a rest := by
  show (r cs).bind (fun x => f x.1 x.2) = _
  rw [h]
  rfl

theorem bind_of_none (h : r cs = none) : (r >>= f) cs = none := by
  show (r cs).bind (fun x => f x.1 x.2) = _
  rw [h]
  rfl

theorem bind_eq_some_iff {x : β × List Char} :
    (r >>= f) cs = some x ↔ ∃ a next, r cs = some (a, next) ∧ f a next = some x := by
  show (r cs).bind (fun y => f y.1 y.2) = some x ↔ _
  simp only [Option.bind_eq_some_iff, Prod.exists]

theorem orElse_of_eq {x : α × List Char} (h : r cs = some x) : (r <|> s) cs = some x := by
  show (r cs <|> s cs) = _
  rw [h]
  rfl

theorem orElse_of_none (h : r cs = none) : (r <|> s) cs = s cs := by
  show (r cs <|> s cs) = _
  rw [h]
  rfl

theorem map_of_eq {g : α → β} (h : r cs = some (a, rest)) : (g <$> r) cs = some (g a, rest) := by
  show (r cs).bind _ = _
  rw [h]
  rfl

theorem map_of_none {g : α → β} (h : r cs = none) : (g <$> r) cs = none := by
  show (r cs).bind _ = _
  rw [h]
  rfl

theorem discard_of_eq (h : r cs = some (a, rest)) : discard r cs = some ((), rest) :=
  map_of_eq h

theorem discard_of_none (h : r cs = none) : discard r cs = none := map_of_none h

theorem optional_of_eq (h : r cs = some (a, rest)) : optional r cs = some (some a, rest) :=
  orElse_of_eq (map_of_eq h)

theorem optional_of_none (h : r cs = none) : optional r cs = some (none, cs) :=
  orElse_of_none (map_of_none h)

/-! ## Characters -/

variable {p : Char → Bool} {c : Char}

theorem satisfy_cons (h : p c = true) : satisfy p (c :: rest) = some (c, rest) := if_pos h

/-- The text does not start with a character that passes the test. -/
def Stops (p : Char → Bool) (cs : List Char) : Prop := ∀ c ∈ cs.head?, p c = false

theorem stops_nil : Stops p [] := nofun

theorem stops_cons (h : p c = false) : Stops p (c :: rest) := by
  rintro d hd
  cases hd
  exact h

theorem Stops.left {q : Char → Bool} (h : Stops (fun c => p c || q c) cs) : Stops p cs := fun c hc =>
  (Bool.or_eq_false_iff.1 (h c hc)).1

theorem Stops.right {q : Char → Bool} (h : Stops (fun c => p c || q c) cs) : Stops q cs := fun c hc =>
  (Bool.or_eq_false_iff.1 (h c hc)).2

theorem Stops.append (h : Stops p cs) (hne : cs ≠ []) (rest : List Char) : Stops p (cs ++ rest) := by
  cases cs with
  | nil => exact absurd rfl hne
  | cons c cs => exact stops_cons (h c rfl)

theorem satisfy_of_stops (h : Stops p cs) : satisfy p cs = none := by
  cases cs with
  | nil => rfl
  | cons c cs => exact if_neg (Bool.eq_false_iff.1 (h c rfl))

@[simp] theorem char_self : char c (c :: rest) = some ((), rest) :=
  discard_of_eq (satisfy_cons (decide_eq_true rfl))

theorem char_of_stops (h : Stops (· = c) cs) : char c cs = none :=
  discard_of_none (satisfy_of_stops h)

theorem exactly_append (s : String) (rest : List Char) :
    exactly s (s.toList ++ rest) = some ((), rest) := by
  rw [exactly]
  induction s.toList with
  | nil => rfl
  | cons c l ih => exact (bind_of_eq char_self).trans ih

theorem exactly_eq_none {s : String} (h : ¬ s.toList <+: cs) : exactly s cs = none := by
  rw [exactly]
  generalize s.toList = l at h ⊢
  induction l generalizing cs with
  | nil => exact absurd List.nil_prefix h
  | cons c l ih =>
    cases cs with
    | nil => exact bind_of_none (char_of_stops stops_nil)
    | cons d cs =>
      by_cases hd : d = c
      · subst hd
        rw [List.cons_prefix_cons] at h
        exact (bind_of_eq char_self).trans (ih (by simpa using h))
      · exact bind_of_none (char_of_stops (stops_cons (decide_eq_false hd)))

theorem exactlyMany_append (ds : List Char) (h : ∀ c ∈ ds, p c = true) (rest : List Char) :
    exactlyMany p ds.length (ds ++ rest) = some (ds, rest) := by
  induction ds with
  | nil => rfl
  | cons c ds ih =>
    rw [List.length_cons, exactlyMany]
    refine (bind_of_eq (satisfy_cons (h c List.mem_cons_self))).trans ?_
    exact bind_of_eq (ih fun d hd => h d (List.mem_cons_of_mem c hd))

/-- So many characters leave some of those that pass the test, and all that comes after them. -/
theorem exactlyMany_eq_some {n : Nat} {ds read left : List Char} (hds : ∀ c ∈ ds, p c = true)
    (hrest : Stops p rest) (h : exactlyMany p n (ds ++ rest) = some (read, left)) :
    ∃ more, (∀ c ∈ more, p c = true) ∧ left = more ++ rest := by
  induction n generalizing ds read left with
  | zero =>
    cases h
    exact ⟨ds, hds, rfl⟩
  | succ n ih =>
    rw [exactlyMany] at h
    obtain ⟨c, next, hfirst, hlater⟩ := bind_eq_some_iff.1 h
    obtain ⟨later, left', hlater, hread⟩ := bind_eq_some_iff.1 hlater
    cases hread
    cases ds with
    | nil =>
      rw [List.nil_append, satisfy_of_stops hrest] at hfirst
      cases hfirst
    | cons d ds =>
      rw [List.cons_append, satisfy_cons (hds d List.mem_cons_self)] at hfirst
      cases hfirst
      exact ih (fun e he => hds e (List.mem_cons_of_mem _ he)) hlater

theorem list_takeWhile_append (h : ∀ c ∈ cs, p c = true) (hrest : Stops p rest) :
    (cs ++ rest).takeWhile p = cs := by
  rw [List.takeWhile_append_of_pos h]
  cases rest with
  | nil => exact List.append_nil cs
  | cons c rest => rw [List.takeWhile_cons_of_neg (by simp [hrest c rfl]), List.append_nil]

theorem list_dropWhile_append (h : ∀ c ∈ cs, p c = true) (hrest : Stops p rest) :
    (cs ++ rest).dropWhile p = rest := by
  rw [List.dropWhile_append_of_pos h]
  cases rest with
  | nil => rfl
  | cons c rest => exact List.dropWhile_cons_of_neg (by simp [hrest c rfl])

/-- The longest run of characters that pass the test. -/
theorem takeWhile_append (h : ∀ c ∈ cs, p c = true) (hrest : Stops p rest) :
    takeWhile p (cs ++ rest) = some (cs, rest) := by
  rw [takeWhile, List.span_eq_takeWhile_dropWhile, list_takeWhile_append h hrest,
    list_dropWhile_append h hrest]

theorem takeWhile_of_stops (h : Stops p cs) : takeWhile p cs = some ([], cs) := by
  have hnone := takeWhile_append (List.forall_mem_nil fun c => p c = true) h
  rwa [List.nil_append] at hnone

theorem takeWhile1_cons (h : p c = true) :
    takeWhile1 p (c :: rest) = some (c :: rest.takeWhile p, rest.dropWhile p) := by
  refine (bind_of_eq (satisfy_cons h)).trans (bind_of_eq ?_)
  rw [takeWhile, List.span_eq_takeWhile_dropWhile]

theorem takeWhile1_append (hne : cs ≠ []) (h : ∀ c ∈ cs, p c = true) (hrest : Stops p rest) :
    takeWhile1 p (cs ++ rest) = some (cs, rest) := by
  cases cs with
  | nil => exact absurd rfl hne
  | cons c cs =>
    refine (bind_of_eq (satisfy_cons (h c List.mem_cons_self))).trans ?_
    exact bind_of_eq (takeWhile_append (fun d hd => h d (List.mem_cons_of_mem c hd)) hrest)

theorem takeWhile1_of_stops (h : Stops p cs) : takeWhile1 p cs = none :=
  bind_of_none (satisfy_of_stops h)

/-! ## Repetition -/

/-- The reader reads the values one after the other, each from a character or more, and fails on the
rest. -/
inductive Chain (r : Reader α) : List Char → List α → List Char → Prop
  | nil {cs : List Char} (h : r cs = none) : Chain r cs [] cs
  | cons {cs next rest : List Char} {a : α} {as : List α} (h : r cs = some (a, next))
    (hless : next.length < cs.length) (hchain : Chain r next as rest) : Chain r cs (a :: as) rest

/-- Repetition reads the whole chain. -/
theorem Chain.many {as : List α} (h : Chain r cs as rest) : many r cs = some (as, rest) := by
  -- the fuel is enough as long as it is no shorter than the text
  suffices hfuel : ∀ fuel : List Char, cs.length ≤ fuel.length → ∀ read,
      manyAfter r fuel read cs = some (read.reverse ++ as, rest) from
    (hfuel cs (Nat.le_refl _) []).trans rfl
  induction h with
  | nil h =>
    intro fuel _ read
    cases fuel with
    | nil => rw [manyAfter, List.append_nil]
    | cons c fuel => rw [manyAfter, h, List.append_nil]
  | cons h hless _ ih =>
    intro fuel hfuel read
    cases fuel with
    | nil => exact absurd (Nat.lt_of_lt_of_le hless hfuel) (Nat.not_lt_zero _)
    | cons c fuel =>
      rw [manyAfter, h]
      dsimp only
      rw [ih fuel (Nat.le_of_lt_succ (Nat.lt_of_lt_of_le hless hfuel)), List.reverse_cons,
        List.append_assoc]
      rfl

theorem Chain.satisfy_append {ds : List Char} (h : ∀ c ∈ ds, p c = true) {other : Reader Char}
    (hrest : (satisfy p <|> other) rest = none) : Chain (satisfy p <|> other) (ds ++ rest) ds rest := by
  induction ds with
  | nil => exact .nil hrest
  | cons c ds ih =>
    exact .cons (orElse_of_eq (satisfy_cons (h c List.mem_cons_self))) (Nat.lt_succ_self _)
      (ih fun d hd => h d (List.mem_cons_of_mem c hd))

theorem many_of_none (h : r cs = none) : many r cs = some ([], cs) := (Chain.nil h).many

end RouteKeeper.Text.Reader
