import RouteKeeper.Proofs.Readers
import RouteKeeper.Toml.Scalar
import RouteKeeper.Toml.Writer

/-!
# Written strings are read back

Whatever its characters, a string is read back from the form that it is written in. The inside of a
string in tripled quotes is read in pieces of many characters and with quotes of its own, also right
before the closing ones; it is told here character by character.

## Main definitions

* `Inside` — how a text stands for the inside of a string in tripled quotes.

## Main statements

* `escapeOf_cases` — a character stands for itself, or has an escape that is read as it.
* `basicString_escaped` — strings in double quotes.
* `Inside.longString` — strings in tripled quotes.
* `string_writeString` — strings of any form.
-/
namespace RouteKeeper.Toml

open Text Text.Reader

/-! ## Escapes -/

/-- The character may stand for itself between double quotes. -/
def standsInBasic (c : Char) : Bool := isPlain c && c ≠ '"' && c ≠ '\\'

/-- Without a code a character other than the line feed may stand for itself on one line. -/
theorem isPlain_of_not_needsCode {c : Char} (h : needsCode c = false) (hfeed : c ≠ '\n') :
    isPlain c = true := by
  simp only [needsCode, Bool.or_eq_false_iff, decide_eq_false_iff_not] at h
  simp only [isPlain, Bool.or_eq_true, Bool.and_eq_true, decide_eq_true_eq]
  by_cases htab : c = '\t'
  · exact .inl htab
  · refine .inr ⟨Nat.le_of_not_lt fun hlow => ?_, h.2⟩
    simp [hlow, htab, hfeed] at h

/-- A character with a code may be written by its code point. -/
theorem escape_hexCode {c : Char} (h : needsCode c = true) (rest : List Char) :
    escape ('u' :: (hexCode c.toNat ++ rest)) = some (c, rest) := by
  have hcodes : ∀ n < 128, (hexCode n).length = 4 ∧ (hexCode n).all (isDigitIn 16) = true ∧
      numberOf 16 (hexCode n) = n := by decide +kernel
  have hsmall : c.toNat < 128 := by
    simp only [needsCode, Bool.or_eq_true, Bool.and_eq_true, decide_eq_true_eq] at h
    omega
  obtain ⟨hlength, hdigits, hvalue⟩ := hcodes c.toNat hsmall
  have hread : exactlyMany (isDigitIn 16) 4 (hexCode c.toNat ++ rest) =
      some (hexCode c.toNat, rest) := by
    rw [← hlength]
    exact exactlyMany_append _ (List.all_eq_true.1 hdigits) rest
  have hchar : character? (numberOf 16 (hexCode c.toNat)) = some c := by
    rw [hvalue, character?, if_pos (by simp; omega), Char.ofNat_toNat]
  rw [escape]
  refine (bind_of_eq (satisfy_cons rfl)).trans ?_
  refine (bind_of_eq hread).trans ?_
  rw [hchar]
  rfl

/-- After a backslash the text is read as the character, and it does not continue the line. -/
structure IsEscape (c first : Char) (code : List Char) : Prop where
  no_space : isSpace first = false
  no_feed : first ≠ '\n'
  no_return : first ≠ '\r'
  reads (rest : List Char) : escape (first :: (code ++ rest)) = some (c, rest)

/-- A character other than the double quote stands for itself or has an escape. -/
theorem escapeOf_cases {c : Char} (hquote : c ≠ '"') :
    (escapeOf c = [c] ∧ standsInBasic c = true) ∨
      ∃ first code, escapeOf c = '\\' :: first :: code ∧ IsEscape c first code := by
  fun_cases escapeOf c with
  | case1 => exact .inr ⟨'b', [], rfl, by decide, by decide, by decide, fun _ => rfl⟩
  | case2 => exact .inr ⟨'t', [], rfl, by decide, by decide, by decide, fun _ => rfl⟩
  | case3 => exact .inr ⟨'n', [], rfl, by decide, by decide, by decide, fun _ => rfl⟩
  | case4 => exact .inr ⟨'f', [], rfl, by decide, by decide, by decide, fun _ => rfl⟩
  | case5 => exact .inr ⟨'r', [], rfl, by decide, by decide, by decide, fun _ => rfl⟩
  | case6 => exact .inr ⟨'\\', [], rfl, by decide, by decide, by decide, fun _ => rfl⟩
  | case7 _ _ _ _ _ _ _ hcoded =>
    exact .inr ⟨'u', hexCode c.toNat, rfl, by decide, by decide, by decide, escape_hexCode hcoded⟩
  | case8 _ _ _ hfeed _ _ hslash hcoded =>
    have hplain := isPlain_of_not_needsCode (Bool.eq_false_iff.2 hcoded) hfeed
    have hother : c ≠ '\\' := hslash
    exact .inl ⟨rfl, by simp [standsInBasic, hplain, hquote, hother]⟩

/-! ## Double quotes -/

/-- The characters of a string are read one by one, up to the closing quote. -/
theorem chain_escaped (cs : List Char) (run : Nat) (rest : List Char) :
    Chain ((satisfy fun c => isPlain c && c ≠ '"' && c ≠ '\\') <|> (do char '\\'; escape))
      (escaped false 0 cs run ++ '"' :: rest) cs ('"' :: rest) := by
  have hescape {first c : Char} {code : List Char} (h : IsEscape c first code) (next : List Char) :
      ((satisfy fun c => isPlain c && c ≠ '"' && c ≠ '\\') <|> (do char '\\'; escape))
        ('\\' :: first :: (code ++ next)) = some (c, next) :=
    (orElse_of_none (satisfy_of_stops (stops_cons rfl))).trans
      ((bind_of_eq char_self).trans (h.reads next))
  induction cs generalizing run with
  | nil =>
    refine .nil ((orElse_of_none (satisfy_of_stops (stops_cons rfl))).trans ?_)
    exact bind_of_none (char_of_stops (stops_cons rfl))
  | cons c cs ih =>
    rw [escaped]
    by_cases hquote : c = '"'
    · subst hquote
      have hread : IsEscape '"' '"' [] := ⟨by decide, by decide, by decide, fun _ => rfl⟩
      rw [if_pos rfl, if_neg (Nat.not_lt_zero _)]
      exact .cons (hescape hread _) (Nat.lt_add_of_pos_right (by decide : 0 < 2)) (ih 0)
    · rw [if_neg hquote, Bool.false_and, if_neg Bool.false_ne_true, List.append_assoc]
      rcases escapeOf_cases hquote with ⟨hself, hstands⟩ | ⟨first, code, hcode, hread⟩
      · rw [hself]
        exact .cons (orElse_of_eq (satisfy_cons hstands)) (by simp) (ih 0)
      · rw [hcode]
        exact .cons (hescape hread _) (by simp; omega) (ih 0)

/-- Every string can be written in double quotes on one line. -/
theorem basicString_escaped (cs rest : List Char) :
    basicString ('"' :: (escaped false 0 cs 0 ++ '"' :: rest)) = some (.ofList cs, rest) := by
  rw [basicString]
  refine (bind_of_eq char_self).trans ?_
  refine (bind_of_eq (chain_escaped cs 0 rest).many).trans ?_
  exact bind_of_eq char_self

/-! ## Tripled quotes -/

/-- How a text stands for the inside of a string in tripled quotes, given which characters stand for
themselves and how other pieces of it are read: character by character, up to closing quotes that
come after up to two more, and with one or two quotes in a row elsewhere. -/
inductive Inside (q : Char) (p : Char → Bool) (other : Reader (List Char)) (rest : List Char) :
    List Char → List Char → Prop
  | close {k : Nat} (hk : k ≤ 2) :
    Inside q p other rest (List.replicate (k + 3) q ++ rest) (List.replicate k q)
  | plain {c : Char} {next cs : List Char} (hc : p c = true) (h : Inside q p other rest next cs) :
    Inside q p other rest (c :: next) (c :: cs)
  | other {text next chunk cs : List Char} (hstops : Stops p text)
    (hread : other text = some (chunk, next)) (hless : next.length < text.length)
    (h : Inside q p other rest next cs) : Inside q p other rest text (chunk ++ cs)
  | quotes {k : Nat} {next cs : List Char} (hk : 1 ≤ k ∧ k ≤ 2) (hnext : Stops (· = q) next)
    (h : Inside q p other rest next cs) :
    Inside q p other rest (List.replicate k q ++ next) (List.replicate k q ++ cs)

namespace Inside

variable {q : Char} {p : Char → Bool} {other : Reader (List Char)} {text cs rest : List Char}

theorem takeWhile_replicate (k : Nat) {next : List Char} (h : Stops (· = q) next) :
    takeWhile (· = q) (List.replicate k q ++ next) = some (List.replicate k q, next) :=
  takeWhile_append (fun _ hc => decide_eq_true (List.eq_of_mem_replicate hc)) h

/-- A character that stands for itself joins the piece that comes next, if that is one of such
characters. -/
theorem exists_chain_cons {inner : Reader (List Char)} {c : Char} {next : List Char}
    {chunks : List (List Char)} (hc : p c = true)
    (hchain : Chain ((takeWhile1 p <|> other) <|> inner) next chunks rest) :
    ∃ joined, joined.flatten = c :: chunks.flatten ∧
      Chain ((takeWhile1 p <|> other) <|> inner) (c :: next) joined rest := by
  have htake {c : Char} {next : List Char} (hc : p c = true) :
      ((takeWhile1 p <|> other) <|> inner) (c :: next) =
        some (c :: next.takeWhile p, next.dropWhile p) :=
    orElse_of_eq (orElse_of_eq (takeWhile1_cons hc))
  by_cases hnext : ∃ d t, next = d :: t ∧ p d = true
  · obtain ⟨d, t, rfl, hd⟩ := hnext
    cases hchain with
    | nil hnone =>
      rw [htake hd] at hnone
      cases hnone
    | @cons _ left _ chunk later hread hless hlater =>
      rw [htake hd] at hread
      cases hread
      refine ⟨(c :: d :: t.takeWhile p) :: later, by simp, .cons ?_ (by simp at hless ⊢; omega) hlater⟩
      rw [htake hc, List.takeWhile_cons_of_pos hd, List.dropWhile_cons_of_pos hd]
  · refine ⟨[c] :: chunks, by simp, .cons ?_ (Nat.lt_succ_self _) hchain⟩
    rw [htake hc]
    cases next with
    | nil => rfl
    | cons d t =>
      have hd : ¬ p d = true := fun hd => hnext ⟨d, t, rfl, hd⟩
      rw [List.takeWhile_cons_of_neg hd, List.dropWhile_cons_of_neg hd]

/-- The inside is read in pieces, and what is left are the closing quotes and the quotes before
them. -/
theorem exists_chain (h : Inside q p other rest text cs) (hq : p q = false)
    (hother : ∀ t, other (q :: t) = none) (hrest : Stops (· = q) rest) :
    ∃ chunks k, k ≤ 2 ∧ chunks.flatten ++ List.replicate k q = cs ∧
      Chain ((takeWhile1 p <|> other) <|> innerQuotes q) text chunks
        (List.replicate (k + 3) q ++ rest) := by
  have hquotes (k : Nat) {next : List Char} (hnext : Stops (· = q) next) :
      ((takeWhile1 p <|> other) <|> innerQuotes q) (List.replicate (k + 1) q ++ next) =
        innerQuotes q (List.replicate (k + 1) q ++ next) :=
    orElse_of_none ((orElse_of_none (takeWhile1_of_stops (stops_cons hq))).trans (hother _))
  induction h with
  | @close k hk =>
    refine ⟨[], k, hk, rfl, .nil ((hquotes (k + 2) hrest).trans ?_)⟩
    refine (bind_of_eq (takeWhile_replicate _ hrest)).trans ?_
    rw [if_neg (by simp)]
    rfl
  | @plain c next cs hc _ ih =>
    obtain ⟨chunks, k, hk, rfl, hchain⟩ := ih
    obtain ⟨joined, hjoined, hchain⟩ := exists_chain_cons hc hchain
    exact ⟨joined, k, hk, by rw [hjoined, List.cons_append], hchain⟩
  | @other text next chunk cs hstops hread hless _ ih =>
    obtain ⟨chunks, k, hk, rfl, hchain⟩ := ih
    refine ⟨chunk :: chunks, k, hk, by simp, .cons (orElse_of_eq ?_) hless hchain⟩
    exact (orElse_of_none (takeWhile1_of_stops hstops)).trans hread
  | @quotes k next cs hk hnext _ ih =>
    obtain ⟨chunks, k', hk', rfl, hchain⟩ := ih
    refine ⟨List.replicate k q :: chunks, k', hk', by simp, .cons ?_ (by simp; omega) hchain⟩
    obtain ⟨j, rfl⟩ := Nat.exists_eq_add_of_le' hk.1
    refine (hquotes j hnext).trans ((bind_of_eq (takeWhile_replicate _ hnext)).trans ?_)
    rw [if_pos (by simpa using hk.2)]
    rfl

/-- The string in tripled quotes with this inside. -/
theorem longString {opened : List Char} {x : Option Unit} (h : Inside q p other rest text cs)
    (hopening : optional newline opened = some (x, text)) (hq : p q = false)
    (hother : ∀ t, other (q :: t) = none) (hrest : Stops (· = q) rest) :
    Toml.longString q (takeWhile1 p <|> other) (q :: q :: q :: opened) = some (.ofList cs, rest) := by
  obtain ⟨chunks, k, hk, rfl, hchain⟩ := h.exists_chain hq hother hrest
  have hthree : exactlyMany (· = q) 3 (q :: q :: q :: opened) = some ([q, q, q], opened) :=
    exactlyMany_append [q, q, q] (by simp) opened
  have hclosing : closing q (List.replicate (k + 3) q ++ rest) = some (List.replicate k q, rest) := by
    refine (bind_of_eq (takeWhile_replicate _ hrest)).trans ?_
    rw [if_pos (by simp; omega), List.drop_replicate]
    rfl
  rw [Toml.longString]
  refine (bind_of_eq (discard_of_eq hthree)).trans ?_
  refine (bind_of_eq (discard_of_eq hopening)).trans ?_
  refine (bind_of_eq hchain.many).trans ?_
  exact bind_of_eq hclosing

/-- Up to two quotes before the rest of the inside, which does not start with one. -/
theorem replicate_append {k : Nat} {next : List Char} (h : Inside q p other rest next cs)
    (hk : k ≤ 2) (hnext : Stops (· = q) next) :
    Inside q p other rest (List.replicate k q ++ next) (List.replicate k q ++ cs) := by
  cases k with
  | zero => exact h
  | succ k => exact .quotes ⟨Nat.succ_pos k, hk⟩ hnext h

end Inside

theorem newline_of_stops {cs : List Char} (h : Stops (fun c => c = '\n' || c = '\r') cs) :
    newline cs = none :=
  (orElse_of_none (char_of_stops h.left)).trans (bind_of_none (char_of_stops h.right))

/-! ### Tripled double quotes -/

/-- A piece of a string in tripled double quotes, other than characters that stand for themselves.
-/
def longBasicOther : Reader (List Char) :=
  (do newline; return ['\n']) <|> lineContinuation <|> (do char '\\'; return [← escape])

theorem longBasicOther_escape {c first : Char} {code : List Char} (h : IsEscape c first code)
    (rest : List Char) :
    longBasicOther ('\\' :: first :: (code ++ rest)) = some ([c], rest) := by
  have hfeed : Stops (fun c => c = '\n' || c = '\r') (first :: (code ++ rest)) :=
    stops_cons (by simp [h.no_feed, h.no_return])
  have hcontinuation : lineContinuation ('\\' :: first :: (code ++ rest)) = none := by
    refine (bind_of_eq char_self).trans ?_
    refine (bind_of_eq (discard_of_eq (takeWhile_of_stops (stops_cons h.no_space)))).trans ?_
    exact bind_of_none (newline_of_stops hfeed)
  refine (orElse_of_none (bind_of_none (newline_of_stops (stops_cons rfl)))).trans ?_
  refine (orElse_of_none hcontinuation).trans ?_
  refine (bind_of_eq char_self).trans ?_
  exact bind_of_eq (h.reads rest)

/-- With escapes every string can stand in tripled double quotes. The induction takes the quotes
that come right before into account. -/
theorem inside_escaped (rest cs : List Char) {run : Nat} (hrun : run ≤ 2) :
    Inside '"' standsInBasic longBasicOther rest
      (List.replicate run '"' ++ (escaped true 2 cs run ++ '"' :: '"' :: '"' :: rest))
      (List.replicate run '"' ++ cs) := by
  induction cs generalizing run with
  | nil =>
    have hclose : Inside '"' standsInBasic longBasicOther rest
        (List.replicate (run + 3) '"' ++ rest) (List.replicate run '"') := .close hrun
    rw [← List.replicate_append_replicate, List.append_assoc] at hclose
    rwa [escaped, List.nil_append, List.append_nil]
  | cons c cs ih =>
    have hafter := ih (Nat.zero_le 2)
    rw [escaped]
    by_cases hquote : c = '"'
    · subst hquote
      rw [if_pos rfl]
      by_cases hmore : run < 2
      · have hnext := ih hmore
        rw [if_pos hmore]
        rwa [List.replicate_succ', List.append_assoc, List.append_assoc] at hnext
      · have hescape : IsEscape '"' '"' [] := ⟨by decide, by decide, by decide, fun _ => rfl⟩
        rw [if_neg hmore]
        exact .replicate_append (.other (stops_cons rfl) (longBasicOther_escape hescape _)
          (by simp only [List.nil_append, List.length_cons]; omega) hafter) hrun (stops_cons rfl)
    · rw [if_neg hquote]
      by_cases hfeed : c = '\n'
      · subst hfeed
        have hread (next : List Char) : longBasicOther ('\n' :: next) = some (['\n'], next) := rfl
        rw [if_pos (by decide)]
        exact .replicate_append (.other (stops_cons rfl) (hread _) (Nat.lt_succ_self _) hafter) hrun
          (stops_cons rfl)
      · rw [if_neg (by simp [hfeed]), List.append_assoc]
        rcases escapeOf_cases hquote with ⟨hself, hstands⟩ | ⟨first, code, hcode, hescape⟩
        · rw [hself]
          exact .replicate_append (.plain hstands hafter) hrun (stops_cons (decide_eq_false hquote))
        · rw [hcode]
          exact .replicate_append (.other (stops_cons rfl) (longBasicOther_escape hescape _)
            (by simp; omega) hafter) hrun (stops_cons rfl)

/-! ### Tripled single quotes -/

/-- The character may stand for itself between single quotes. -/
def standsInLiteral (c : Char) : Bool := isPlain c && c ≠ '\''

/-- A piece of a string in tripled single quotes, other than characters that stand for themselves.
-/
def longLiteralOther : Reader (List Char) := do newline; return ['\n']

/-- The run of a character so far and the longest one, after a further character. -/
def countRun (q : Char) (run : Nat × Nat) (c : Char) : Nat × Nat :=
  if c = q then (run.1 + 1, max run.2 (run.1 + 1)) else (0, run.2)

theorem longestRun_eq (q : Char) (cs : List Char) :
    longestRun q cs = (cs.foldl (countRun q) (0, 0)).2 := rfl

/-- The longest run only grows. -/
theorem le_longest (q : Char) (cs : List Char) (run : Nat × Nat) :
    run.2 ≤ (cs.foldl (countRun q) run).2 := by
  induction cs generalizing run with
  | nil => exact Nat.le_refl _
  | cons c cs ih =>
    refine Nat.le_trans ?_ (ih _)
    rw [countRun]
    split
    · exact Nat.le_max_left ..
    · exact Nat.le_refl _

/-- A string without codes and without three single quotes in a row can stand in tripled single
quotes. The induction takes the quotes that come right before into account. -/
theorem inside_literal (rest cs : List Char) {run most : Nat} (hrun : run ≤ 2)
    (hcoded : ∀ c ∈ cs, needsCode c = false) (hruns : (cs.foldl (countRun '\'') (run, most)).2 ≤ 2) :
    Inside '\'' standsInLiteral longLiteralOther rest
      (List.replicate run '\'' ++ (cs ++ '\'' :: '\'' :: '\'' :: rest))
      (List.replicate run '\'' ++ cs) := by
  induction cs generalizing run most with
  | nil =>
    have hclose : Inside '\'' standsInLiteral longLiteralOther rest
        (List.replicate (run + 3) '\'' ++ rest) (List.replicate run '\'') := .close hrun
    rw [← List.replicate_append_replicate, List.append_assoc] at hclose
    rwa [List.nil_append, List.append_nil]
  | cons c cs ih =>
    have hlater : ∀ c ∈ cs, needsCode c = false := fun d hd => hcoded d (List.mem_cons_of_mem c hd)
    by_cases hquote : c = '\''
    · subst hquote
      rw [List.foldl_cons, countRun, if_pos rfl] at hruns
      have hmore : run + 1 ≤ 2 :=
        Nat.le_trans (Nat.le_max_right most (run + 1)) 
          (Nat.le_trans (le_longest '\'' cs (run + 1, max most (run + 1))) hruns)
      have hnext := ih hmore hlater hruns
      rwa [List.replicate_succ', List.append_assoc, List.append_assoc] at hnext
    · rw [List.foldl_cons, countRun, if_neg hquote] at hruns
      have hafter := ih (Nat.zero_le 2) hlater hruns
      by_cases hfeed : c = '\n'
      · subst hfeed
        have hread (next : List Char) : longLiteralOther ('\n' :: next) = some (['\n'], next) := rfl
        exact .replicate_append (.other (stops_cons rfl) (hread _) (Nat.lt_succ_self _) hafter) hrun
          (stops_cons rfl)
      · have hplain := isPlain_of_not_needsCode (hcoded c List.mem_cons_self) hfeed
        have hstands : standsInLiteral c = true := by simp [standsInLiteral, hplain, hquote]
        exact .replicate_append (.plain hstands hafter) hrun (stops_cons (decide_eq_false hquote))

/-! ## The four forms -/

theorem not_mem_of_longestRun_eq_zero {q : Char} {cs : List Char} (h : longestRun q cs = 0) :
    q ∉ cs := by
  rw [longestRun_eq] at h
  induction cs with
  | nil => exact List.not_mem_nil
  | cons c cs ih =>
    rw [List.foldl_cons, countRun] at h
    split at h
    case isTrue =>
      have hone := le_longest q cs (1, max 0 1)
      rw [h] at hone
      exact absurd hone (by decide)
    case isFalse hne =>
      intro hmem
      rcases List.mem_cons.1 hmem with rfl | hmem
      · exact hne rfl
      · exact ih h hmem

/-- What is written between single quotes has neither codes nor single quotes, and is of one line.
-/
theorem of_formOf_literal (cs : List Char) : formOf cs = .literal →
    (∀ c ∈ cs, needsCode c = false) ∧ '\'' ∉ cs ∧ '\n' ∉ cs := by
  fun_cases formOf cs with
  | case2 coded backslash lines doubles singles _ hliteral =>
    intro _
    simp only [coded, singles, lines, Bool.and_eq_true, Bool.not_eq_true', decide_eq_true_eq,
      List.any_eq_false, List.contains_eq_mem, decide_eq_false_iff_not] at hliteral
    obtain ⟨⟨hcoded, hsingles⟩, hlines⟩ := hliteral
    exact ⟨fun c hc => Bool.eq_false_iff.2 (hcoded c hc),
      not_mem_of_longestRun_eq_zero hsingles, hlines⟩
  | _ =>
    intro hform
    cases hform

/-- What is written between tripled single quotes has neither codes nor three single quotes in a
row. -/
theorem of_formOf_longLiteral (cs : List Char) : formOf cs = .longLiteral →
    (∀ c ∈ cs, needsCode c = false) ∧ longestRun '\'' cs ≤ 2 := by
  fun_cases formOf cs with
  | case4 coded backslash lines doubles singles _ _ _ hliteral =>
    intro _
    simp only [coded, singles, Bool.and_eq_true, Bool.not_eq_true', decide_eq_true_eq,
      List.any_eq_false] at hliteral
    exact ⟨fun c hc => Bool.eq_false_iff.2 (hliteral.1 c hc), hliteral.2⟩
  | _ =>
    intro hform
    cases hform

/-- A line end before the inside is no part of the string. If it is left out, the inside must not
start with one. -/
theorem exists_optional_newline (cs text : List Char)
    (h : '\n' ∉ cs → Stops (fun c => c = '\n' || c = '\r') text) :
    ∃ x, optional newline (opening cs ++ text) = some (x, text) := by
  by_cases hlines : '\n' ∈ cs
  · have hopening : opening cs = ['\n'] := if_pos (by simpa using hlines)
    rw [hopening]
    exact ⟨some (), rfl⟩
  · have hopening : opening cs = [] := if_neg (by simpa using hlines)
    rw [hopening]
    exact ⟨none, optional_of_none (newline_of_stops (h hlines))⟩

/-- With escapes a string does not start with a line end, unless it has one. -/
theorem stops_escaped {cs : List Char} (h : '\n' ∉ cs) (rest : List Char) :
    Stops (fun c => c = '\n' || c = '\r') (escaped true 2 cs 0 ++ '"' :: rest) := by
  cases cs with
  | nil => exact stops_cons rfl
  | cons c cs =>
    rw [escaped]
    by_cases hquote : c = '"'
    · subst hquote
      exact stops_cons rfl
    · have hfeed : c ≠ '\n' := fun hc => h (hc ▸ List.mem_cons_self)
      rw [if_neg hquote, if_neg (by simp [hfeed]), List.append_assoc]
      rcases escapeOf_cases hquote with ⟨hself, hstands⟩ | ⟨first, code, hcode, -⟩
      · rw [hself]
        refine stops_cons ?_
        have hreturn : c ≠ '\r' := by
          rintro rfl
          exact absurd hstands (by decide)
        simp [hfeed, hreturn]
      · rw [hcode]
        exact stops_cons rfl

/-- The text in single quotes does not start a string in tripled quotes. -/
theorem longString_of_single {q : Char} {piece : Reader (List Char)} {inside rest : List Char}
    (hinside : Stops (· = q) inside) (hrest : Stops (· = q) rest) :
    longString q piece (q :: (inside ++ q :: rest)) = none := by
  refine bind_of_none (discard_of_none ?_)
  refine (bind_of_eq (satisfy_cons (decide_eq_true rfl))).trans (bind_of_none ?_)
  cases inside with
  | nil =>
    refine (bind_of_eq (satisfy_cons (decide_eq_true rfl))).trans (bind_of_none ?_)
    exact bind_of_none (satisfy_of_stops hrest)
  | cons c inside => exact bind_of_none (satisfy_of_stops (stops_cons (hinside c rfl)))

theorem stops_escaped_quote (cs : List Char) : Stops (· = '"') (escaped false 0 cs 0) := by
  cases cs with
  | nil => exact stops_nil
  | cons c cs =>
    rw [escaped]
    by_cases hquote : c = '"'
    · subst hquote
      exact stops_cons rfl
    · rw [if_neg hquote, Bool.false_and, if_neg Bool.false_ne_true]
      rcases escapeOf_cases hquote with ⟨hself, -⟩ | ⟨first, code, hcode, -⟩
      · rw [hself]
        exact stops_cons (decide_eq_false hquote)
      · rw [hcode]
        exact stops_cons rfl

/-- A text with another first character is no string in these quotes. -/
theorem longString_of_stops {q : Char} {piece : Reader (List Char)} {text : List Char}
    (h : Stops (· = q) text) : longString q piece text = none :=
  bind_of_none (discard_of_none (bind_of_none (satisfy_of_stops h)))

section Forms

variable (cs : List Char) {rest : List Char}

theorem string_basic (hrest : Stops (· = '"') rest) :
    string ('"' :: (escaped false 0 cs 0 ++ '"' :: rest)) = some (.ofList cs, rest) := by
  refine (orElse_of_none ?_).trans (orElse_of_eq (basicString_escaped cs rest))
  exact longString_of_single (stops_escaped_quote cs) hrest

theorem string_literal (hform : formOf cs = .literal) (hrest : Stops (· = '\'') rest) :
    string ('\'' :: (cs ++ '\'' :: rest)) = some (.ofList cs, rest) := by
  obtain ⟨hcoded, hsingles, hlines⟩ := of_formOf_literal cs hform
  have hstands : ∀ c ∈ cs, standsInLiteral c = true := by
    intro c hc
    have hplain := isPlain_of_not_needsCode (hcoded c hc) fun hfeed => hlines (hfeed ▸ hc)
    have hquote : c ≠ '\'' := fun hquote => hsingles (hquote ▸ hc)
    simp [standsInLiteral, hplain, hquote]
  have hnone : Stops (· = '\'') cs := by
    intro c hc
    exact decide_eq_false fun hquote => hsingles (hquote ▸ List.mem_of_mem_head? hc)
  refine (orElse_of_none (longString_of_stops (stops_cons rfl))).trans ?_
  refine (orElse_of_none (bind_of_none (char_of_stops (stops_cons rfl)))).trans ?_
  refine (orElse_of_none (longString_of_single hnone hrest)).trans ?_
  refine (bind_of_eq char_self).trans ?_
  refine (bind_of_eq (takeWhile_append hstands (stops_cons rfl))).trans ?_
  exact bind_of_eq char_self

theorem string_longBasic (hrest : Stops (· = '"') rest) :
    string ('"' :: '"' :: '"' :: (opening cs ++ (escaped true 2 cs 0 ++ '"' :: '"' :: '"' :: rest))) =
      some (.ofList cs, rest) := by
  obtain ⟨x, hopening⟩ := exists_optional_newline cs _ fun hlines => stops_escaped hlines _
  exact orElse_of_eq
    ((inside_escaped rest cs (Nat.zero_le 2)).longString hopening rfl (fun _ => rfl) hrest)

theorem string_longLiteral (hform : formOf cs = .longLiteral) (hrest : Stops (· = '\'') rest) :
    string ('\'' :: '\'' :: '\'' :: (opening cs ++ (cs ++ '\'' :: '\'' :: '\'' :: rest))) =
      some (.ofList cs, rest) := by
  obtain ⟨hcoded, hruns⟩ := of_formOf_longLiteral cs hform
  have hstart : '\n' ∉ cs →
      Stops (fun c => c = '\n' || c = '\r') (cs ++ '\'' :: '\'' :: '\'' :: rest) := by
    intro hlines
    cases cs with
    | nil => exact stops_cons rfl
    | cons c cs =>
      have hfeed : c ≠ '\n' := fun hc => hlines (hc ▸ List.mem_cons_self)
      have hreturn : c ≠ '\r' := by
        rintro rfl
        exact absurd (hcoded '\r' List.mem_cons_self) (by decide)
      exact stops_cons (by simp [hfeed, hreturn])
  obtain ⟨x, hopening⟩ := exists_optional_newline cs _ hstart
  refine (orElse_of_none (longString_of_stops (stops_cons rfl))).trans ?_
  refine (orElse_of_none (bind_of_none (char_of_stops (stops_cons rfl)))).trans ?_
  exact orElse_of_eq ((inside_literal rest cs (Nat.zero_le 2) hcoded hruns).longString hopening rfl
    (fun _ => rfl) hrest)

end Forms

/-- A string is read back from the form that it is written in, before anything but a quote. -/
theorem string_writeString (s : String) {rest : List Char} (hdouble : Stops (· = '"') rest)
    (hsingle : Stops (· = '\'') rest) : string ((writeString s).toList ++ rest) = some (s, rest) := by
  have hs : s = String.ofList s.toList := String.ofList_toList.symm
  rw [writeString, String.toList_ofList]
  conv => rhs; rw [hs]
  cases hform : formOf s.toList with
  | basic => simpa using string_basic s.toList hdouble
  | literal => simpa using string_literal s.toList hform hsingle
  | longBasic => simpa using string_longBasic s.toList hdouble
  | longLiteral => simpa using string_longLiteral s.toList hform hsingle

end RouteKeeper.Toml
