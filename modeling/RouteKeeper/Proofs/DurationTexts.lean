import Mathlib.Data.List.TakeWhile
import RouteKeeper.Proofs.Numerals

/-!
# Durations are read back

The standard text of a duration lists its parts, each with a unit. Reading adds the parts up; as
they came from one duration, no sum on the way is out of range and none carries.

## Main definitions

* `Duration.Written` — texts of items with what they add up to.

## Main statements

* `Duration.readItem?_append` — how one item is read.
* `Duration.ofText_text` — every duration is read back from its text.
-/
namespace RouteKeeper

open Text Text.Reader

theorem ReadFault.bind_of_eq {α β : Type} {x : Except ReadFault α} {a : α}
    {f : α → Except ReadFault β} (h : x = .ok a) : (x >>= f) = f a := by
  rw [h]
  rfl

namespace Duration

/-! ## Items -/

theorem isDigit_eq (c : Char) : isDigit c = c.isDigit := by
  refine Bool.eq_iff_iff.2 ?_
  rw [Char.isDigit_iff_toNat, isDigit, Bool.and_eq_true, decide_eq_true_eq, decide_eq_true_eq]

/-- The name of a unit. -/
structure Named (name : String) (unit : Unit) : Prop where
  known : unit? name = some unit
  ne_nil : name.toList ≠ []
  letters : ∀ c ∈ name.toList, isUnitLetter c = true

theorem Named.first {name : String} {unit : Unit} (h : Named name unit) (rest : List Char) :
    ∀ c ∈ (name.toList ++ rest).head?, isUnitLetter c = true := by
  obtain ⟨-, hne, hletters⟩ := h
  rw [List.head?_append_of_ne_nil _ hne]
  exact fun c hc => hletters c (List.mem_of_mem_head? hc)

/-- No letter is a digit or white space. -/
theorem isUnitLetter_disjoint {c : Char} (h : isUnitLetter c = true) :
    (isDigit c || isBlank c) = false := by
  have hrange : (97 ≤ c.toNat ∧ c.toNat ≤ 122) ∨ (65 ≤ c.toNat ∧ c.toNat ≤ 90) ∨ c.toNat = 181 := by
    simp only [isUnitLetter, Bool.or_eq_true, Bool.and_eq_true, decide_eq_true_eq] at h
    rcases h with (h | h) | rfl
    · exact .inl h
    · exact .inr (.inl h)
    · exact .inr (.inr rfl)
  have hzero : '0'.toNat = 48 := rfl
  have hnine : '9'.toNat = 57 := rfl
  simp only [isDigit, isBlank, hzero, hnine, Bool.or_eq_false_iff, Bool.and_eq_false_iff,
    decide_eq_false_iff_not, beq_eq_false_iff_ne]
  omega

theorem not_isBlank_of_isDigit {c : Char} (h : isDigit c = true) : isBlank c = false := by
  have hrange := Char.isDigit_iff_toNat.1 ((isDigit_eq c).symm.trans h)
  have hzero : '0'.toNat = 48 := rfl
  have hnine : '9'.toNat = 57 := rfl
  simp only [isBlank, Bool.or_eq_false_iff, Bool.and_eq_false_iff, decide_eq_false_iff_not,
    beq_eq_false_iff_ne]
  omega

theorem readDigits_append {ds rest : List Char} (hds : ∀ c ∈ ds, c.isDigit = true)
    (hrest : Stops (fun c => isDigit c || isBlank c) rest) : readDigits (ds ++ rest) = (ds, rest) := by
  have hrun : ∀ c ∈ ds, (isDigit c || isBlank c) = true := by
    intro c hc
    rw [isDigit_eq, hds c hc, Bool.true_or]
  have hfilter : ds.filter isDigit = ds :=
    List.filter_eq_self.2 fun c hc => (isDigit_eq c).trans (hds c hc)
  rw [readDigits, list_takeWhile_append hrun hrest, hfilter, List.drop_left]

/-- A number and the name of a unit, before white space or the end, are an item. -/
theorem readItem?_append {n : Nat} {name : String} {unit : Unit} {rest : List Char}
    (hn : n < UInt64.size) (hname : Named name unit)
    (hrest : ∀ c ∈ rest.head?, isBlank c = true) (hstop : Stops isUnitLetter rest) :
    readItem? ((toString n ++ name).toList ++ rest) = some (⟨n, none, unit⟩, rest) := by
  have hdigits : readDigits (Nat.toDigits 10 n ++ (name.toList ++ rest)) =
      (Nat.toDigits 10 n, name.toList ++ rest) :=
    readDigits_append (numeral_toDigits n).digits fun c hc =>
      isUnitLetter_disjoint (hname.first rest c hc)
  have hword : word64OfDigits? (Nat.toDigits 10 n) = some n := by
    rw [word64OfDigits?, foldl_toDigits, word?, if_pos hn]
  have hfraction : readFraction? (name.toList ++ rest) = some (none, name.toList ++ rest) := by
    rw [readFraction?.eq_def]
    split
    case h_1 cs heq => exact absurd (hname.first rest '.' (by rw [heq]; rfl)) (by decide)
    case h_2 => rfl
  have hletters : (name.toList ++ rest).takeWhile isUnitLetter = name.toList :=
    list_takeWhile_append hname.letters hstop
  have hend : rest.head?.all (fun c => isDigit c || isBlank c) = true := by
    rw [Option.all_eq_true]
    intro c hc
    rw [hrest c hc, Bool.or_true]
  rw [String.toList_append, Nat.toString_eq_ofList_toDigits, String.toList_ofList, List.append_assoc,
    readItem?, hdigits]
  simp only [hword, hfraction, hletters, Option.bind_eq_bind, Option.bind_some, String.ofList_toList,
    hname.known, List.drop_left, hend, if_true]
  rfl

instance (name : String) (unit : Unit) : Decidable (Named name unit) :=
  decidable_of_iff
    (unit? name = some unit ∧ name.toList ≠ [] ∧ name.toList.all isUnitLetter = true)
    ⟨fun h => ⟨h.1, h.2.1, List.all_eq_true.1 h.2.2⟩,
      fun h => ⟨h.known, h.ne_nil, List.all_eq_true.2 h.letters⟩⟩

/-! ## Sums -/

theorem word?_of_lt {n : Nat} (h : n < UInt64.size) : word? n = some n := if_pos h

/-- Less than a second of nanoseconds is not carried. -/
theorem addParts_of_lt {sum part : Parts} (hseconds : sum.1 + part.1 < UInt64.size)
    (hnanos : sum.2 + part.2 < 1000000000) :
    addParts sum part = .ok (sum.1 + part.1, sum.2 + part.2) := by
  have hword : sum.2 + part.2 < UInt64.size := Nat.lt_trans hnanos (by decide)
  rw [addParts, word?_of_lt hword]
  show (if _ then _ else _) = _
  rw [if_neg (Nat.lt_asymm hnanos), word?_of_lt hseconds]
  show (if _ then _ else _) = _
  rw [if_pos hnanos]
  rfl

/-- So many of a unit. -/
def Unit.times (n : Nat) : Unit → Parts
  | .nanoseconds scale => (0, n * scale)
  | .seconds scale | .wholeSeconds scale => (n * scale, 0)

theorem Unit.whole?_of_lt {n : Nat} {unit : Unit} (hseconds : (unit.times n).1 < UInt64.size)
    (hnanos : (unit.times n).2 < UInt64.size) : unit.whole? n = some (unit.times n) := by
  cases unit with
  | nanoseconds scale => exact congrArg (Option.map _) (word?_of_lt hnanos)
  | seconds scale => exact congrArg (Option.map _) (word?_of_lt hseconds)
  | wholeSeconds scale => exact congrArg (Option.map _) (word?_of_lt hseconds)

@[simp] theorem Unit.times_zero (unit : Unit) : unit.times 0 = (0, 0) := by
  cases unit <;> simp only [times, Nat.zero_mul]

theorem Item.addTo_of_lt {n : Nat} {unit : Unit} {sum : Parts}
    (hseconds : sum.1 + (unit.times n).1 < UInt64.size)
    (hnanos : sum.2 + (unit.times n).2 < 1000000000) :
    Item.addTo ⟨n, none, unit⟩ sum = .ok (sum.1 + (unit.times n).1, sum.2 + (unit.times n).2) := by
  have hwhole : unit.whole? n = some (unit.times n) := by
    refine Unit.whole?_of_lt (by omega) ?_
    simp only [UInt64.size]
    omega
  rw [addTo, hwhole]
  exact ReadFault.bind_of_eq (addParts_of_lt hseconds hnanos)

/-- Texts of items, and what the items add up to. -/
inductive Written : List String → Parts → Prop
  | nil : Written [] (0, 0)
  | cons {n : Nat} {name : String} {unit : Unit} {sum : Parts} {parts : List String}
    (hn : n < UInt64.size) (hname : Named name unit) (h : Written parts sum) :
    Written ((toString n ++ name) :: parts) ((unit.times n).1 + sum.1, (unit.times n).2 + sum.2)

namespace Written

variable {parts rest : List String} {sum more : Parts}

theorem append (h : Written parts sum) (hrest : Written rest more) :
    Written (parts ++ rest) (sum.1 + more.1, sum.2 + more.2) := by
  induction h with
  | nil =>
    rw [Nat.zero_add, Nat.zero_add]
    exact hrest
  | cons hn hname _ ih =>
    rw [Nat.add_assoc, Nat.add_assoc]
    exact .cons hn hname ih

/-- An item starts with a digit, and there is more to it. -/
theorem exists_item {name : String} {unit : Unit} (n : Nat) (hname : Named name unit) :
    ∃ c cs, (toString n ++ name).toList = c :: cs ∧ isDigit c = true ∧ cs ≠ [] := by
  have hnumeral := numeral_toDigits n
  rw [String.toList_append, Nat.toString_eq_ofList_toDigits, String.toList_ofList]
  cases hds : Nat.toDigits 10 n with
  | nil => exact absurd hds hnumeral.ne_nil
  | cons c cs =>
    have hdigit : isDigit c = true :=
      (isDigit_eq c).trans (hnumeral.digits c (hds ▸ List.mem_cons_self))
    exact ⟨c, cs ++ name.toList, rfl, hdigit, List.append_ne_nil_of_right_ne_nil cs hname.ne_nil⟩

/-- What follows the first item: nothing, or a space and the other items. -/
def after : List String → List Char
  | [] => []
  | part :: parts => ' ' :: (" ".intercalate (part :: parts)).toList

theorem toList_intercalate_cons (part : String) (parts : List String) :
    (" ".intercalate (part :: parts)).toList = part.toList ++ after parts := by
  cases parts with
  | nil => rw [String.intercalate_singleton, after, List.append_nil]
  | cons other parts =>
    rw [String.intercalate_cons_cons, String.toList_append, String.toList_append, List.append_assoc]
    rfl

/-- There are no more items than characters. -/
theorem length_le (h : Written parts sum) : parts.length ≤ (" ".intercalate parts).toList.length := by
  induction h with
  | nil => exact Nat.zero_le _
  | @cons n name _ _ parts _ hname _ ih =>
    obtain ⟨c, cs, hitem, -⟩ := exists_item n hname
    rw [toList_intercalate_cons, hitem, List.length_append, List.length_cons, List.length_cons]
    have hafter : parts.length ≤ (after parts).length := by
      cases parts with
      | nil => exact Nat.zero_le _
      | cons other parts => exact Nat.le_succ_of_le ih
    omega

/-- The first item starts with a digit, and there is more to it. -/
theorem exists_first (h : Written parts sum) (hne : parts ≠ []) :
    ∃ c cs, (" ".intercalate parts).toList = c :: cs ∧ isDigit c = true ∧ cs ≠ [] := by
  cases h with
  | nil => exact absurd rfl hne
  | @cons n name _ _ parts _ hname =>
    obtain ⟨c, cs, hitem, hdigit, hmore⟩ := exists_item n hname
    rw [toList_intercalate_cons, hitem, List.cons_append]
    exact ⟨c, cs ++ after parts, rfl, hdigit, List.append_ne_nil_of_left_ne_nil hmore _⟩

/-- No white space comes before the first item. -/
theorem dropWhile_isBlank (h : Written parts sum) :
    (" ".intercalate parts).toList.dropWhile isBlank = (" ".intercalate parts).toList := by
  by_cases hne : parts = []
  · rw [hne]
    rfl
  · obtain ⟨c, cs, htext, hdigit, -⟩ := h.exists_first hne
    rw [htext]
    exact List.dropWhile_cons_of_neg (by rw [not_isBlank_of_isDigit hdigit]; exact Bool.false_ne_true)

/-- Items add up to what they were written for. -/
theorem readItems_eq {most : Nat} (h : Written parts sum) (hmost : parts.length ≤ most)
    {start : Parts} (hseconds : start.1 + sum.1 < UInt64.size)
    (hnanos : start.2 + sum.2 < 1000000000) {cs : List Char}
    (hcs : cs.dropWhile isBlank = (" ".intercalate parts).toList) :
    readItems most start cs = .ok (start.1 + sum.1, start.2 + sum.2) := by
  induction h generalizing most start cs with
  | nil =>
    cases most with
    | zero => exact if_pos (List.all_eq_true.2 (List.dropWhile_eq_nil_iff.1 hcs))
    | succ most =>
      rw [readItems, hcs]
      rfl
  | @cons n name unit sum parts hn hname h ih =>
    cases most with
    | zero => exact absurd hmost (Nat.not_succ_le_zero _)
    | succ most =>
      obtain ⟨c, text, hitem, hdigit, -⟩ := exists_item n hname
      have hblank : ∀ c ∈ (after parts).head?, isBlank c = true := by
        cases parts with
        | nil => exact nofun
        | cons => exact fun c hc => Option.some.inj hc ▸ rfl
      have hstop : Stops isUnitLetter (after parts) := by
        cases parts with
        | nil => exact stops_nil
        | cons => exact stops_cons rfl
      have hafter : (after parts).dropWhile isBlank = (" ".intercalate parts).toList := by
        cases parts with
        | nil => rfl
        | cons => exact h.dropWhile_isBlank
      have hread := readItem?_append hn hname hblank hstop
      have hadd : Item.addTo ⟨n, none, unit⟩ start =
          .ok (start.1 + (unit.times n).1, start.2 + (unit.times n).2) :=
        Item.addTo_of_lt (by omega) (by omega)
      have hlater : readItems most (start.1 + (unit.times n).1, start.2 + (unit.times n).2)
          (after parts) =
            .ok (start.1 + (unit.times n).1 + sum.1, start.2 + (unit.times n).2 + sum.2) :=
        ih (Nat.le_of_succ_le_succ hmost) (by omega) (by omega) hafter
      rw [toList_intercalate_cons, hitem, List.cons_append] at hcs
      rw [hitem, List.cons_append] at hread
      rw [readItems, hcs]
      dsimp only
      rw [if_pos hdigit, hread, ← Nat.add_assoc, ← Nat.add_assoc]
      exact (ReadFault.bind_of_eq hadd).trans hlater

theorem part {n : Nat} {name : String} {unit : Unit} (hname : Named name unit)
    (hn : n < UInt64.size) : Written (part n name) (unit.times n) := by
  rw [Duration.part]
  split
  case isTrue hzero =>
    rw [hzero, Unit.times_zero]
    exact .nil
  case isFalse => exact .cons hn hname .nil

theorem partPlural {n : Nat} {name : String} {unit : Unit} (hname : Named name unit)
    (hplural : Named (name ++ "s") unit) (hn : n < UInt64.size) :
    Written (partPlural n name) (unit.times n) := by
  rw [Duration.partPlural]
  split
  case isTrue => exact part hplural hn
  case isFalse => exact part hname hn

end Written

/-! ## Durations -/

theorem wholeSeconds_lt (d : Duration) : d.wholeSeconds < UInt64.size := by
  have hmost := d.nanos_le
  simp only [wholeSeconds, maxNanos, UInt64.size] at *
  omega

/-- The listed parts of a duration add up to it. -/
theorem exists_listed (d : Duration) :
    ∃ parts, d.text = (if parts.isEmpty then "0s" else " ".intercalate parts) ∧
      Written parts (d.wholeSeconds, d.subsecond) := by
  have hseconds : d.wholeSeconds < UInt64.size := d.wholeSeconds_lt
  have hnanos : d.subsecond < 1000000000 := Nat.mod_lt _ (by decide)
  refine ⟨_, rfl, ?_⟩
  generalize d.wholeSeconds = s at hseconds ⊢
  generalize d.subsecond = n at hnanos ⊢
  have hword {m : Nat} (h : m ≤ s ∨ m ≤ n) : m < UInt64.size := by
    simp only [UInt64.size] at hseconds ⊢
    omega
  have hyears : Written (partPlural (s / 31557600) "year") _ :=
    .partPlural (by decide : Named _ (.wholeSeconds 31557600)) (by decide) (hword (by omega))
  have hmonths : Written (partPlural (s % 31557600 / 2630016) "month") _ :=
    .partPlural (by decide : Named _ (.wholeSeconds 2630016)) (by decide) (hword (by omega))
  have hdays : Written (partPlural (s % 31557600 % 2630016 / 86400) "day") _ :=
    .partPlural (by decide : Named _ (.wholeSeconds 86400)) (by decide) (hword (by omega))
  have hhours : Written (part (s % 31557600 % 2630016 % 86400 / 3600) "h") _ :=
    .part (by decide : Named _ (.wholeSeconds 3600)) (hword (by omega))
  have hminutes : Written (part (s % 31557600 % 2630016 % 86400 % 3600 / 60) "m") _ :=
    .part (by decide : Named _ (.seconds 60)) (hword (by omega))
  have hrest : Written (part (s % 31557600 % 2630016 % 86400 % 60) "s") _ :=
    .part (by decide : Named _ (.seconds 1)) (hword (by omega))
  have hmillis : Written (part (n / 1000000) "ms") _ :=
    .part (by decide : Named _ (.nanoseconds 1000000)) (hword (by omega))
  have hmicros : Written (part (n / 1000 % 1000) "us") _ :=
    .part (by decide : Named _ (.nanoseconds 1000)) (hword (by omega))
  have hlast : Written (part (n % 1000) "ns") _ :=
    .part (by decide : Named _ (.nanoseconds 1)) (hword (by omega))
  have hall := (((((((hyears.append hmonths).append hdays).append hhours).append hminutes).append
    hrest).append hmillis).append hmicros).append hlast
  refine (congrArg (Written _) (Prod.ext ?_ ?_)).mp hall
  · simp only [Unit.times]
    omega
  · simp only [Unit.times]
    omega

/-- The text of a duration is one of items that add up to it; zero has an item, too. -/
theorem exists_written (d : Duration) :
    ∃ parts ≠ [], d.text = " ".intercalate parts ∧ Written parts (d.wholeSeconds, d.subsecond) := by
  obtain ⟨parts, htext, hwritten⟩ := exists_listed d
  cases parts with
  | nil =>
    have hname : Named "s" (.seconds 1) := by decide
    generalize (d.wholeSeconds, d.subsecond) = sum at hwritten ⊢
    cases hwritten
    exact ⟨[toString 0 ++ "s"], List.cons_ne_nil _ _, htext.trans (by decide),
      .cons (by decide) hname .nil⟩
  | cons part parts => exact ⟨part :: parts, List.cons_ne_nil _ _, htext, hwritten⟩

theorem ofText_of_readItems {s : String} {seconds nanos : Nat} {d : Duration}
    (hzero : s.toList ≠ ['0']) (hblank : ¬ s.toList.all isBlank = true)
    (hread : readItems s.toList.length (0, 0) s.toList = .ok (seconds, nanos))
    (hvalue : ofNanos? (seconds * 1000000000 + nanos) = some d) : ofText s = .ok d := by
  rw [ofText]
  dsimp only
  rw [if_neg hzero, if_neg hblank]
  refine (ReadFault.bind_of_eq hread).trans ?_
  dsimp only
  rw [hvalue]
  rfl

/-- Every duration is read back from its text. -/
theorem ofText_text (d : Duration) : ofText d.text = .ok d := by
  obtain ⟨parts, hne, htext, hwritten⟩ := exists_written d
  let start : Parts := (0, 0)
  have hseconds : start.1 + d.wholeSeconds < UInt64.size :=
    (Nat.zero_add _).trans_lt d.wholeSeconds_lt
  have hnanos : start.2 + d.subsecond < 1000000000 :=
    (Nat.zero_add _).trans_lt (Nat.mod_lt _ (by decide))
  have hvalue : ofNanos? ((0 + d.wholeSeconds) * 1000000000 + (0 + d.subsecond)) = some d := by
    rw [Nat.zero_add, Nat.zero_add, wholeSeconds, subsecond, Nat.div_add_mod']
    exact dif_pos d.nanos_le
  obtain ⟨c, cs, htoList, hdigit, hmore⟩ := hwritten.exists_first hne
  have hzero : (" ".intercalate parts).toList ≠ ['0'] := by
    rw [htoList]
    exact fun heq => hmore (List.cons.inj heq).2
  have hblank : ¬ (" ".intercalate parts).toList.all isBlank = true := by
    rw [htoList, List.all_cons, not_isBlank_of_isDigit hdigit]
    exact Bool.false_ne_true
  have hfirst := hwritten.dropWhile_isBlank
  have hread := hwritten.readItems_eq hwritten.length_le hseconds hnanos hfirst
  rw [htext]
  exact ofText_of_readItems hzero hblank hread hvalue

end Duration

end RouteKeeper
