import Mathlib.Data.List.Infix
import RouteKeeper.Prefix.Text
import RouteKeeper.Text.Utf8
import RouteKeeper.Text.Words

/-!
# Plain text

A command is given words and answers in lines of words. Cutting a text into words undoes joining
them with white space, and trimming a text loses no phrase that begins and ends with other
characters. The texts of numbers, addresses and prefixes are plain: ASCII, without white space and
without the character zero.

## Main definitions

* `Text.Ascii`, `Text.Plain` — ASCII texts, and those without white space and the character zero.
* `Text.Utf8.ascii` — the bytes of an ASCII text.

## Main statements

* `Text.words_append`, `Text.words_eq_singleton` — the words of a text and of a word.
* `Text.infix_trim_iff` — trimming keeps the phrases of a text.
* `Text.Utf8.decodeLossy_ascii` — ASCII text is read back.
* `Prefix.plain_text` — the text of a prefix is plain.
-/
namespace RouteKeeper

namespace Text

/-! ## Words -/

section Cut

variable {α : Type} {p : α → Bool}

/-- A separator cuts a list in two. -/
theorem cutWhere_append (a b : List α) {c : α} (hc : p c = true) :
    cutWhere p (a ++ c :: b) = cutWhere p a ++ cutWhere p b := by
  induction a with
  | nil => simp [cutWhere, hc]
  | cons x a ih =>
    rw [List.cons_append, cutWhere, cutWhere, ih]
    split
    · rfl
    · cases h : cutWhere p a with
      | nil => exact absurd h (cutWhere_ne_nil p a)
      | cons q qs => rfl

/-- A list without separators is one part. -/
theorem cutWhere_eq_singleton {a : List α} (h : ∀ c ∈ a, p c = false) : cutWhere p a = [a] := by
  induction a with
  | nil => rfl
  | cons x a ih =>
    rw [cutWhere, h x List.mem_cons_self, ih fun c hc => h c (List.mem_cons_of_mem _ hc)]
    rfl

end Cut

/-- White space parts words. -/
theorem words_append (a b : List Char) {c : Char} (hc : isBlank c = true) :
    words (a ++ c :: b) = words a ++ words b := by
  rw [words, cutWhere_append a b hc, List.filter_append, words, words]

/-- A text without white space is one word. -/
theorem words_eq_singleton {a : List Char} (hne : a ≠ []) (h : ∀ c ∈ a, isBlank c = false) :
    words a = [a] := by
  rw [words, cutWhere_eq_singleton h]
  simpa using hne

/-! ## Phrases -/

/-- A phrase that does not begin with a dropped element stays. -/
theorem infix_dropWhile_iff {α : Type} {q : α → Bool} {phrase l : List α} {c : α}
    (hfirst : phrase.head? = some c) (hc : q c = false) :
    phrase <:+: l.dropWhile q ↔ phrase <:+: l := by
  refine ⟨fun h => h.trans (List.dropWhile_suffix q).isInfix, ?_⟩
  rintro ⟨before, after, rfl⟩
  obtain ⟨rest, rfl⟩ : ∃ rest, phrase = c :: rest := by
    cases phrase with
    | nil => cases hfirst
    | cons d rest => exact ⟨rest, by rw [Option.some.inj hfirst]⟩
  rw [List.append_assoc, List.dropWhile_append]
  split
  · rw [List.cons_append, List.dropWhile_cons_of_neg (by simp [hc])]
    exact ⟨[], after, rfl⟩
  · exact ⟨before.dropWhile q, after, by rw [List.append_assoc]⟩

/-- Trimming keeps a phrase that neither begins nor ends with white space. -/
theorem infix_trim_iff {phrase l : List Char} {c d : Char} (hfirst : phrase.head? = some c)
    (hc : isBlank c = false) (hlast : phrase.getLast? = some d) (hd : isBlank d = false) :
    phrase <:+: trim l ↔ phrase <:+: l := by
  have hlast' : phrase.reverse.head? = some d := by rwa [List.head?_reverse]
  rw [trim, ← List.reverse_infix, List.reverse_reverse, infix_dropWhile_iff hlast' hd,
    List.reverse_infix, infix_dropWhile_iff hfirst hc]

/-! ## Plain characters -/

/-- An ASCII character other than white space and zero. -/
def isPlain (c : Char) : Bool := !isBlank c && c != '\x00' && decide (c.toNat < 128)

/-- A text of ASCII characters. -/
def Ascii (s : String) : Prop := ∀ c ∈ s.toList, c.toNat < 128

/-- A text of plain characters. -/
def Plain (s : String) : Prop := ∀ c ∈ s.toList, isPlain c = true

instance (s : String) : Decidable (Ascii s) :=
  decidable_of_iff (s.toList.all fun c => decide (c.toNat < 128)) (by simp [Ascii])

instance (s : String) : Decidable (Plain s) :=
  decidable_of_iff (s.toList.all isPlain) (by simp [Plain])

theorem isPlain_iff {c : Char} :
    isPlain c = true ↔ isBlank c = false ∧ c ≠ '\x00' ∧ c.toNat < 128 := by
  simp [isPlain, and_assoc]

theorem Plain.ascii {s : String} (h : Plain s) : Ascii s := fun c hc => (isPlain_iff.1 (h c hc)).2.2

theorem Ascii.append {s t : String} (hs : Ascii s) (ht : Ascii t) : Ascii (s ++ t) := by
  intro c hc
  rw [String.toList_append, List.mem_append] at hc
  exact hc.elim (hs c) (ht c)

theorem Plain.append {s t : String} (hs : Plain s) (ht : Plain t) : Plain (s ++ t) := by
  intro c hc
  rw [String.toList_append, List.mem_append] at hc
  exact hc.elim (hs c) (ht c)

theorem mem_intersperse {α : Type} {sep a : α} {l : List α} (h : a ∈ l.intersperse sep) :
    a = sep ∨ a ∈ l := by
  induction l with
  | nil => cases h
  | cons b l ih =>
    cases l with
    | nil => exact .inr h
    | cons d l =>
      rw [List.intersperse_cons_cons, List.mem_cons, List.mem_cons] at h
      rcases h with rfl | rfl | h
      · exact .inr List.mem_cons_self
      · exact .inl rfl
      · exact (ih h).imp_right (List.mem_cons_of_mem _)

theorem Plain.intercalate {sep : String} {l : List String} (hsep : Plain sep)
    (hl : ∀ s ∈ l, Plain s) : Plain (sep.intercalate l) := by
  intro c hc
  rw [String.toList_intercalate, List.intercalate, List.mem_flatten] at hc
  obtain ⟨part, hpart, hc⟩ := hc
  rcases mem_intersperse hpart with rfl | hpart
  · exact hsep c hc
  · obtain ⟨s, hs, rfl⟩ := List.mem_map.1 hpart
    exact hl s hs c hc

/-- The text of a number in a base up to sixteen is plain. -/
theorem isPlain_of_mem_toDigits {base n : Nat} (hbase : 1 < base) (hle : base ≤ 16) {c : Char}
    (hc : c ∈ Nat.toDigits base n) : isPlain c = true := by
  have hdigit : ∀ k < 16, isPlain (Nat.digitChar k) = true := by decide
  induction n using Nat.strongRecOn with
  | _ n ih =>
    by_cases hn : n < base
    · rw [Nat.toDigits_of_lt_base hn, List.mem_singleton] at hc
      rw [hc]
      exact hdigit n (by omega)
    · rw [Nat.toDigits_of_base_le hbase (Nat.le_of_not_lt hn), List.mem_append,
        List.mem_singleton] at hc
      rcases hc with hc | rfl
      · exact ih (n / base) (Nat.div_lt_self (by omega) hbase) hc
      · exact hdigit _ ((Nat.mod_lt n (by omega)).trans_le hle)

theorem plain_toString (n : Nat) : Plain (toString n) := by
  intro c hc
  rw [Nat.toString_eq_ofList_toDigits, String.toList_ofList] at hc
  exact isPlain_of_mem_toDigits (by decide) (by decide) hc

end Text

namespace Address

theorem plain_dotted (n : Nat) : Text.Plain (dotted n) := by
  refine Text.Plain.intercalate (by decide) fun s hs => ?_
  obtain ⟨shift, -, rfl⟩ := List.mem_map.1 hs
  exact Text.plain_toString _

theorem plain_colonText (l : List Nat) : Text.Plain (colonText l) := by
  refine Text.Plain.intercalate (by decide) fun s hs => ?_
  obtain ⟨g, -, rfl⟩ := List.mem_map.1 hs
  intro c hc
  rw [String.toList_ofList] at hc
  exact Text.isPlain_of_mem_toDigits (by decide) (by decide) hc

theorem plain_text (a : Address) : Text.Plain a.text := by
  cases a with
  | v4 b => exact plain_dotted _
  | v6 b =>
    have hmapped : Text.Plain "::ffff:" := by decide
    have hgap : Text.Plain "::" := by decide
    by_cases h : b.toNat >>> 32 = 0xFFFF
    · simp only [text, h, if_true]
      exact hmapped.append (plain_dotted _)
    · simp only [text, if_neg h]
      generalize groups b.toNat = gs
      split
      · exact ((plain_colonText _).append hgap).append (plain_colonText _)
      · exact plain_colonText _

end Address

/-- The text of a prefix is plain. -/
theorem Prefix.plain_text (p : Prefix) : Text.Plain p.text :=
  have hslash : Text.Plain "/" := by decide
  (p.address.plain_text.append hslash).append (Text.plain_toString _)

/-! ## ASCII bytes -/

namespace Text.Utf8

/-- The bytes of an ASCII text. -/
def ascii (cs : List Char) : List UInt8 := cs.map fun c => UInt8.ofNat c.toNat

/-- ASCII text is read back. -/
theorem decodeLossy_ascii {cs : List Char} (h : ∀ c ∈ cs, c.toNat < 128) :
    decodeLossy (ascii cs) = cs := by
  induction cs with
  | nil => simp [ascii, decodeLossy, pieces]
  | cons c cs ih =>
    have hc : (UInt8.ofNat c.toNat).toNat = c.toNat := by
      have := h c List.mem_cons_self
      simp only [UInt8.toNat_ofNat']
      omega
    have hrest := ih fun d hd => h d (List.mem_cons_of_mem _ hd)
    rw [ascii, decodeLossy] at hrest
    rw [ascii, List.map_cons, decodeLossy, pieces, hc, if_pos (h c List.mem_cons_self),
      List.map_cons, hrest, Option.getD_some, Char.ofNat_toNat]

end Text.Utf8

end RouteKeeper
