import RouteKeeper.Proofs.PlainText
import RouteKeeper.RouteTable.System

/-!
# Telling a command and reading it

The table behind a command gives it words and reads off what it writes. The words for a change and
for a lookup can be given to any command, but for an interface whose name holds the character zero.
A failure is forgiven if the complaint has a phrase in it. The interface of a route is the word
after `dev` in the line that lists the route.

## Main definitions

* `CommandResult.Succeeds`, `CommandResult.FailsWith`, `CommandResult.Lists` — how a command ended.
* `RouteTable.Clean` — the arguments can be given to a command.
* `RouteTable.Names` — a listing names an interface.

## Main statements

* `RouteTable.forgiven_exists_iff`, `RouteTable.forgiven_missing_iff` — which failures are forgiven.
* `RouteTable.clean_changeArguments`, `RouteTable.clean_listArguments` — a command can be told.
* `RouteTable.changed_effect` — what a change does if the command does what it is told or fails.
* `RouteTable.ownerIn_of_names` — the interface is read off a listing that names it.
-/
namespace RouteKeeper

open Text

variable {σ : Type}

namespace CommandResult

/-- The command ended with success. -/
def Succeeds : CommandResult → Prop
  | .ended true _ _ => True
  | _ => False

/-- The command failed and complains with this phrase. -/
def FailsWith (phrase : String) : CommandResult → Prop
  | .ended false _ complaint => phrase.toList <:+: Utf8.decodeLossy complaint
  | _ => False

/-- The command ended with success, and what it wrote has a property. -/
def Lists (P : List UInt8 → Prop) : CommandResult → Prop
  | .ended true output _ => P output
  | _ => False

/-- The failure of the command is forgiven. -/
def Forgiven (forgives : List Char → Bool) : CommandResult → Prop
  | .ended false _ complaint => forgives (RouteTable.complaintText complaint) = true
  | _ => False

/-- The command ended, with success or not, and wrote an ASCII text: complaints if it failed. -/
def writing (ok : Bool) (text : String) : CommandResult :=
  .ended ok (if ok then Utf8.ascii text.toList else []) (if ok then [] else Utf8.ascii text.toList)

theorem failsWith_writing_iff {text phrase : String} (h : Ascii text) :
    (writing false text).FailsWith phrase ↔ phrase.toList <:+: text.toList := by
  simp [writing, FailsWith, Utf8.decodeLossy_ascii h]

end CommandResult

namespace RouteTable

/-! ## Complaints -/

theorem mentions_iff {phrase text : List Char} : mentions phrase text = true ↔ phrase <:+: text := by
  induction text with
  | nil => simp [mentions]
  | cons c text ih => simp [mentions, ih, List.infix_cons_iff]

/-- A phrase that neither begins nor ends with white space is looked for in the whole complaint. -/
theorem forgiven_mentions_iff {phrase : String} {r : CommandResult} {c d : Char}
    (hfirst : phrase.toList.head? = some c) (hc : isBlank c = false)
    (hlast : phrase.toList.getLast? = some d) (hd : isBlank d = false) :
    r.Forgiven (mentions phrase.toList) ↔ r.FailsWith phrase := by
  cases r with
  | absent => rfl
  | ended ok output complaint =>
    cases ok with
    | true => rfl
    | false => exact mentions_iff.trans (infix_trim_iff hfirst hc hlast hd)

theorem forgiven_exists_iff {r : CommandResult} :
    r.Forgiven (mentions "File exists".toList) ↔ r.FailsWith "File exists" :=
  forgiven_mentions_iff (c := 'F') (d := 's') (by decide) (by decide) (by decide) (by decide)

theorem forgiven_missing_iff {r : CommandResult} :
    r.Forgiven (mentions "No such process".toList) ↔ r.FailsWith "No such process" :=
  forgiven_mentions_iff (c := 'N') (d := 's') (by decide) (by decide) (by decide) (by decide)

theorem not_forgiven_never {r : CommandResult} : ¬ r.Forgiven (fun _ => false) := by
  rcases r with reason | ⟨_ | _, output, complaint⟩ <;> simp [CommandResult.Forgiven]

/-! ## Arguments -/

/-- No argument holds the character zero. -/
def Clean (arguments : List String) : Prop := ∀ a ∈ arguments, '\x00' ∉ a.toList

theorem clean_iff {arguments : List String} :
    arguments.any (·.contains '\x00') = false ↔ Clean arguments := by
  simp [Clean, String.contains_char_eq]

theorem not_mem_of_plain {s : String} (h : Plain s) : '\x00' ∉ s.toList :=
  fun hmem => (isPlain_iff.1 (h _ hmem)).2.1 rfl

theorem clean_tableArguments (table : Option Nat) : Clean (tableArguments table) := by
  cases table with
  | none => exact nofun
  | some t =>
    rintro a ha
    simp only [tableArguments, List.mem_cons, List.not_mem_nil, or_false] at ha
    rcases ha with rfl | rfl
    · decide
    · exact not_mem_of_plain (plain_toString t)

theorem clean_changeArguments {table : Option Nat} {verb interface : String} {d : Prefix}
    {gateway : Option Address} (hverb : Plain verb) (hinterface : '\x00' ∉ interface.toList) :
    Clean (changeArguments table verb d interface gateway) := by
  intro a ha
  simp only [changeArguments, List.mem_append, List.mem_cons, List.not_mem_nil, or_false] at ha
  rcases ha with (((rfl | rfl | rfl) | hgateway) | (rfl | rfl)) | htable
  · decide
  · exact not_mem_of_plain hverb
  · exact not_mem_of_plain d.plain_text
  · cases gateway with
    | none => cases hgateway
    | some g =>
      simp only [List.mem_cons, List.not_mem_nil, or_false] at hgateway
      rcases hgateway with rfl | rfl
      · decide
      · exact not_mem_of_plain g.plain_text
  · decide
  · exact hinterface
  · exact clean_tableArguments table a htable

theorem clean_listArguments (table : Option Nat) (d : Prefix) : Clean (listArguments table d) := by
  intro a ha
  simp only [listArguments, List.mem_cons, List.not_mem_nil, or_false] at ha
  rcases ha with rfl | rfl | rfl | rfl | rfl | rfl | rfl | rfl
  · split <;> decide
  · decide
  · decide
  · decide
  · decide
  · exact not_mem_of_plain d.plain_text
  · decide
  · cases table with
    | none => decide
    | some t => exact not_mem_of_plain (plain_toString t)

theorem started_of_clean {run : Command σ} {arguments : List String} (h : Clean arguments) (s : σ) :
    started run arguments s = run arguments s := by
  rw [started, clean_iff.2 h]
  rfl

theorem started_of_not_clean {run : Command σ} {arguments : List String} (h : ¬ Clean arguments)
    (s : σ) : started run arguments s = (.absent "nul byte found in provided data", s) := by
  have hnul : arguments.any (·.contains '\x00') = true := by
    rw [← Bool.not_eq_false, clean_iff]
    exact h
  rw [started, hnul]
  rfl

section Changed

variable {α : Type} {run : Command σ} {arguments : List String} {forgives : List Char → Bool}
  {cause : String → RouteError} {s : σ}

/-- A change counts as a success if the command is given its arguments and succeeds, or fails in a
way that is forgiven; and it does what the command does. -/
theorem changed_of_clean (h : Clean arguments) :
    (changed run arguments forgives cause s).2 = (run arguments s).2 ∧
      ((changed run arguments forgives cause s).1 = .ok () ↔
        (run arguments s).1.Succeeds ∨ (run arguments s).1.Forgiven forgives) := by
  simp only [changed, started_of_clean h]
  rcases run arguments s with ⟨reason | ⟨_ | _, output, complaint⟩, after⟩
  · simp [CommandResult.Succeeds, CommandResult.Forgiven]
  · cases hforgiven : forgives (complaintText complaint) <;>
      simp [CommandResult.Succeeds, CommandResult.Forgiven, hforgiven]
  · simp [CommandResult.Succeeds]

/-- What is seen of the state after a change, if the command that it runs does what it is told or
fails. A command that cannot be given its arguments does nothing. -/
theorem changed_effect (look : σ → α) {told : α}
    (hrun : ((run arguments s).1.Succeeds ∨ (run arguments s).1.Forgiven forgives) ∧
        look (run arguments s).2 = told ∨
      ¬ ((run arguments s).1.Succeeds ∨ (run arguments s).1.Forgiven forgives) ∧
        look (run arguments s).2 = look s) :
    (changed run arguments forgives cause s).1 = .ok () ∧
        look (changed run arguments forgives cause s).2 = told ∨
      (changed run arguments forgives cause s).1 ≠ .ok () ∧
        look (changed run arguments forgives cause s).2 = look s := by
  by_cases hclean : Clean arguments
  · obtain ⟨hstate, hok⟩ : (changed run arguments forgives cause s).2 = (run arguments s).2 ∧ _ :=
      changed_of_clean hclean
    rwa [hstate, ne_eq, hok]
  · simp [changed, started_of_not_clean hclean]

end Changed

/-! ## Listings -/

/-- A listing names an interface: the first word `dev` of its first line is followed by it. -/
def Names (interface : String) (listing : List UInt8) : Prop :=
  ∃ front back, Utf8.decodeLossy listing =
      front ++ "dev".toList ++ ' ' :: interface.toList ++ back ∧
    '\n' ∉ front ∧ "dev".toList ∉ words front ∧
    (front = [] ∨ ∃ before c, isBlank c = true ∧ front = before ++ [c]) ∧
    (back = [] ∨ ∃ c after, isBlank c = true ∧ back = c :: after)

/-- The name of an interface: it is not empty and has neither white space nor the character zero. -/
def IsName (interface : String) : Prop :=
  interface.toList ≠ [] ∧ ∀ c ∈ interface.toList, isBlank c = false ∧ c ≠ '\x00'

theorem deviceIn_append {before after : List (List Char)} (h : "dev".toList ∉ before)
    (interface : List Char) :
    deviceIn (before ++ "dev".toList :: interface :: after) = some (.ofList interface) := by
  induction before with
  | nil => rfl
  | cons word before ih =>
    rw [List.mem_cons, not_or] at h
    rw [List.cons_append, deviceIn, if_neg (Ne.symm h.1), ih h.2]

/-- The first line of a text. -/
theorem head?_lines (text : List Char) :
    (lines text).head? = some (text.takeWhile (· != '\n')) := by
  induction text with
  | nil => rfl
  | cons c text ih =>
    rw [lines] at ih ⊢
    by_cases hc : c = '\n'
    · simp [cutWhere, hc]
    · cases hcut : cutWhere (· == '\n') text with
      | nil => exact absurd hcut (cutWhere_ne_nil _ text)
      | cons part parts =>
        rw [hcut, List.head?_cons, Option.some.injEq] at ih
        simp [cutWhere, hc, hcut, ih]

/-- The words of a line that names an interface. -/
theorem words_of_named {front back : List Char} {interface : String} (hname : IsName interface)
    (hfront : front = [] ∨ ∃ before c, isBlank c = true ∧ front = before ++ [c])
    (hback : back = [] ∨ ∃ c after, isBlank c = true ∧ back = c :: after) :
    ∃ after, words (front ++ ("dev".toList ++ ' ' :: (interface.toList ++ back))) =
      words front ++ "dev".toList :: interface.toList :: after := by
  have hinterface : words interface.toList = [interface.toList] :=
    words_eq_singleton hname.1 fun c hc => (hname.2 c hc).1
  obtain ⟨after, hrest⟩ : ∃ after, words (interface.toList ++ back) = interface.toList :: after := by
    rcases hback with rfl | ⟨c, rest, hc, rfl⟩
    · exact ⟨[], by rw [List.append_nil, hinterface]⟩
    · exact ⟨words rest, by rw [words_append _ _ hc, hinterface, List.singleton_append]⟩
  have hdev : words ("dev".toList ++ ' ' :: (interface.toList ++ back)) =
      "dev".toList :: interface.toList :: after := by
    have hplain : Plain "dev" := by decide
    rw [words_append _ _ (by decide), hrest,
      words_eq_singleton (by decide) fun c hc => (isPlain_iff.1 (hplain c hc)).1,
      List.singleton_append]
  refine ⟨after, ?_⟩
  rcases hfront with rfl | ⟨before, c, hc, rfl⟩
  · exact hdev
  · rw [List.append_assoc, List.singleton_append, words_append _ _ hc, words_append _ _ hc, hdev]
    simp [words, cutWhere]

/-- The interface is read off a listing that names it. -/
theorem ownerIn_of_names {interface : String} {listing : List UInt8} (h : Names interface listing)
    (hname : IsName interface) : ownerIn listing = some interface := by
  obtain ⟨front, back, htext, hline, hfirst, hfront, hback⟩ := h
  have hblank : isBlank '\n' = true := by decide
  have hnewline : '\n' ∉ interface.toList := by
    intro hmem
    rw [(hname.2 _ hmem).1] at hblank
    cases hblank
  -- What follows the interface on its line is empty or begins with white space.
  have hback' : back.takeWhile (· != '\n') = [] ∨
      ∃ c after, isBlank c = true ∧ back.takeWhile (· != '\n') = c :: after := by
    rcases hback with rfl | ⟨c, after, hc, rfl⟩
    · exact .inl rfl
    · by_cases hend : c = '\n'
      · exact .inl (by simp [hend])
      · exact .inr ⟨c, after.takeWhile (· != '\n'), hc, by simp [hend]⟩
  have hhead : (Utf8.decodeLossy listing).takeWhile (· != '\n') =
      front ++ ("dev".toList ++ ' ' :: (interface.toList ++ back.takeWhile (· != '\n'))) := by
    have hall : ∀ c ∈ front ++ "dev".toList ++ ' ' :: interface.toList, (c != '\n') = true := by
      intro c hc
      rw [bne_iff_ne]
      rintro rfl
      simp only [List.mem_append, List.mem_cons, hline, hnewline, or_false, false_or] at hc
      revert hc
      decide
    have hsplit : front ++ "dev".toList ++ ' ' :: interface.toList ++ back =
        (front ++ "dev".toList ++ ' ' :: interface.toList) ++ back := by simp
    rw [htext, hsplit, List.takeWhile_append_of_pos hall]
    simp
  obtain ⟨after, hwords⟩ := words_of_named hname hfront hback'
  have hlines := head?_lines (Utf8.decodeLossy listing)
  cases hcut : lines (Utf8.decodeLossy listing) with
  | nil =>
    rw [hcut] at hlines
    cases hlines
  | cons line rest =>
    rw [hcut, List.head?_cons, Option.some.injEq] at hlines
    rw [ownerIn, hcut, List.findSome?_cons, hlines, hhead, hwords, deviceIn_append hfirst,
      String.ofList_toList]

/-- Nothing is read off an empty listing. -/
theorem ownerIn_nil : ownerIn [] = none := by
  simp [ownerIn, Utf8.decodeLossy, Utf8.pieces, lines, cutWhere, words, deviceIn]

end RouteTable

end RouteKeeper
