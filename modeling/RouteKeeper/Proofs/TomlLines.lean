import RouteKeeper.Proofs.Numerals
import RouteKeeper.Proofs.Quoting
import RouteKeeper.Toml.Document

/-!
# Lines of TOML documents

A line with a header, one with a key and a value, and an empty one are read as what they were
written for, whatever line comes next. So a text that is made of such lines is read line by line to
its end.

## Main definitions

* `Toml.ReadsBack` — texts of values.
* `Toml.Row` — texts of statements.

## Main statements

* `Toml.Row.binding` — a key with a value.
* `Toml.statements_flatten` — all lines of a document.
-/
namespace RouteKeeper.Toml

open Text Text.Reader

/-! ## Values -/

/-- A text that is read as a value at the end of a line. It starts with nothing that spaces before
it, an array or an inline table would start with. -/
structure ReadsBack (text : String) (v : Value) : Prop where
  scalar_eq (rest : List Char) : scalar (text.toList ++ '\n' :: rest) = some (v, '\n' :: rest)
  first (rest : List Char) :
    Stops (fun c => isSpace c || c = '[' || c = '{') (text.toList ++ '\n' :: rest)

/-- A written string starts with a quote. -/
theorem exists_quote (s : String) :
    ∃ q cs, (writeString s).toList = q :: cs ∧ (q = '"' ∨ q = '\'') := by
  rw [writeString, String.toList_ofList]
  split
  · exact ⟨_, _, rfl, .inl rfl⟩
  · exact ⟨_, _, rfl, .inr rfl⟩
  · exact ⟨_, _, rfl, .inl rfl⟩
  · exact ⟨_, _, rfl, .inr rfl⟩

namespace ReadsBack

variable {text : String} {v : Value}

theorem value_eq (h : ReadsBack text v) (rest : List Char) :
    value maxDepth (text.toList ++ '\n' :: rest) = some (v, '\n' :: rest) := by
  refine Eq.trans ?_ (h.scalar_eq rest)
  have hfirst := h.first rest
  generalize text.toList ++ '\n' :: rest = cs at hfirst
  rw [maxDepth, value]
  refine (bind_of_eq (rfl : peek cs = some (cs.head?, cs))).trans (congrFun ?_ cs)
  split
  case h_1 heq => exact absurd (hfirst '[' heq) (by decide)
  case h_2 heq => exact absurd (hfirst '{' heq) (by decide)
  case h_3 => rfl

theorem stops_isSpace (h : ReadsBack text v) (rest : List Char) :
    Stops isSpace (text.toList ++ '\n' :: rest) :=
  (h.first rest).left.left

theorem text_writeString (s : String) : ReadsBack (writeString s) (.text s) := by
  obtain ⟨q, cs, htext, hq⟩ := exists_quote s
  refine ⟨fun rest => ?_, fun rest => ?_⟩
  · have hread : string ((writeString s).toList ++ '\n' :: rest) = some (s, '\n' :: rest) :=
      string_writeString s (stops_cons rfl) (stops_cons rfl)
    rw [htext, List.cons_append] at hread ⊢
    exact scalar_string hq hread
  · rw [htext, List.cons_append]
    rcases hq with rfl | rfl <;> exact stops_cons rfl

theorem integer {n : Nat} (h : n ≤ Settings.largestInteger) : ReadsBack (toString n) (.integer n) where
  scalar_eq := scalar_toString h
  first rest := by
    rw [Nat.toString_eq_ofList_toDigits, String.toList_ofList]
    exact (numeral_toDigits n).stops (by decide) _

theorem float {x : Float} (h : DecimalReadsBack x) :
    ReadsBack (Settings.floatFormat.write x) (.float x) where
  scalar_eq := scalar_write h
  first _ := stops_write x (by decide) rfl rfl rfl _

theorem boolean (b : Bool) : ReadsBack (toString b) (.boolean b) where
  scalar_eq rest := by cases b <;> rfl
  first rest := by
    cases b
    · exact stops_cons rfl
    · exact stops_cons rfl

end ReadsBack

/-! ## Keys -/

/-- A name that is a key without quotes. -/
structure Bare (name : String) : Prop where
  ne_nil : name.toList ≠ []
  bare : ∀ c ∈ name.toList, isBare c = true

instance (name : String) : Decidable (Bare name) :=
  decidable_of_iff (name.toList ≠ [] ∧ name.toList.all isBare = true)
    ⟨fun h => ⟨h.1, List.all_eq_true.1 h.2⟩, fun h => ⟨h.ne_nil, List.all_eq_true.2 h.bare⟩⟩

section Keys

variable {name : String} {gap rest : List Char}

theorem Bare.first (h : Bare name) (rest : List Char) :
    ∀ c ∈ (name.toList ++ rest).head?, isBare c = true := by
  obtain ⟨hne, hbare⟩ := h
  rw [List.head?_append_of_ne_nil _ hne]
  exact fun c hc => hbare c (List.mem_of_mem_head? hc)

/-- No space is bare, and no mark of the byte order. -/
theorem not_isSpace_of_isBare {c : Char} (h : isBare c = true) :
    (isSpace c || decide (c = '\uFEFF')) = false := by
  simp only [isSpace, Bool.or_eq_false_iff, decide_eq_false_iff_not]
  refine ⟨⟨?_, ?_⟩, ?_⟩
  all_goals
    rintro rfl
    exact absurd h (by decide)

theorem spaces_append (hgap : ∀ c ∈ gap, isSpace c = true) (hrest : Stops isSpace rest) :
    spaces (gap ++ rest) = some ((), rest) :=
  discard_of_eq (takeWhile_append hgap hrest)

theorem spaces_of_stops (h : Stops isSpace rest) : spaces rest = some ((), rest) :=
  discard_of_eq (takeWhile_of_stops h)

/-- A bare name is read up to spaces or a character that is not bare. -/
theorem keyPart_append (h : Bare name) (hgap : ∀ c ∈ gap, isSpace c = true)
    (hrest : Stops isSpace rest) (hend : Stops isBare (gap ++ rest)) :
    keyPart (name.toList ++ (gap ++ rest)) = some (name, rest) := by
  have hname : keyName (name.toList ++ (gap ++ rest)) = some (name, gap ++ rest) := by
    have hfirst := h.first (gap ++ rest)
    have hread := takeWhile1_append h.ne_nil h.bare hend
    generalize name.toList ++ (gap ++ rest) = cs at hfirst hread
    have hbare : (String.ofList <$> takeWhile1 isBare) cs = some (name, gap ++ rest) := by
      rw [map_of_eq hread, String.ofList_toList]
    rw [keyName]
    refine (bind_of_eq (rfl : peek cs = some (cs.head?, cs))).trans
      ((congrFun ?_ cs).trans hbare)
    split
    case h_1 heq => exact absurd (hfirst '"' heq) (by decide)
    case h_2 heq => exact absurd (hfirst '\'' heq) (by decide)
    case h_3 => rfl
  have hstart : Stops (fun c => isSpace c || c = '\uFEFF') (name.toList ++ (gap ++ rest)) :=
    fun c hc => not_isSpace_of_isBare (h.first _ c hc)
  refine (bind_of_eq (spaces_of_stops hstart.left)).trans ((bind_of_eq hname).trans ?_)
  exact bind_of_eq (spaces_append hgap hrest)

/-- A key without dots. -/
theorem key_append (h : Bare name) (hgap : ∀ c ∈ gap, isSpace c = true)
    (hrest : Stops isSpace rest) (hend : Stops isBare (gap ++ rest)) (hdot : Stops (· = '.') rest) :
    key (name.toList ++ (gap ++ rest)) = some ([name], rest) := by
  have hparts : separated keyPart (char '.') (name.toList ++ (gap ++ rest)) = some ([name], rest) :=
    (bind_of_eq (keyPart_append h hgap hrest hend)).trans
      (bind_of_eq (many_of_none (bind_of_none (char_of_stops hdot))))
  exact bind_of_eq hparts

end Keys

/-! ## Lines -/

theorem lineEnd_newline (rest : List Char) : lineEnd ('\n' :: rest) = some ((), rest) := rfl

/-- A line that is read as a statement, whatever line comes next. -/
structure Row (l : List Char) (s : Statement) : Prop where
  ne_nil : l ≠ []
  first : Stops (fun c => isSpace c || c = '\uFEFF') l
  statementHere_eq (rest : List Char) : statementHere (l ++ rest) = some (s, rest)

namespace Row

theorem blank : Row ['\n'] .blank where
  ne_nil := List.cons_ne_nil _ _
  first := stops_cons rfl
  statementHere_eq _ := rfl

theorem header {name : String} (h : Bare name) :
    Row ('[' :: (name.toList ++ [']', '\n'])) (.header [name]) where
  ne_nil := List.cons_ne_nil _ _
  first := stops_cons rfl
  statementHere_eq rest := by
    have htable : exactly "[[" ('[' :: (name.toList ++ ']' :: '\n' :: rest)) = none := by
      refine exactly_eq_none fun hprefix => ?_
      obtain ⟨more, hmore⟩ := (List.cons_prefix_cons.1 hprefix).2
      exact absurd (h.first (']' :: '\n' :: rest) '[' (by rw [← hmore]; rfl)) (by decide)
    have hkey : key (name.toList ++ ([] ++ ']' :: '\n' :: rest)) =
        some ([name], ']' :: '\n' :: rest) :=
      key_append h (List.forall_mem_nil _) (stops_cons rfl) (stops_cons rfl) (stops_cons rfl)
    rw [List.cons_append, List.append_assoc]
    refine (orElse_of_none (bind_of_none htable)).trans ((bind_of_eq char_self).trans ?_)
    exact (bind_of_eq hkey).trans ((bind_of_eq char_self).trans (bind_of_eq (lineEnd_newline rest)))

theorem binding {name text : String} {v : Value} (h : Bare name) (hv : ReadsBack text v) :
    Row (Settings.line name text).toList (.binding [name] v) := by
  have hline : (Settings.line name text).toList =
      name.toList ++ ([' '] ++ '=' :: ([' '] ++ (text.toList ++ ['\n']))) := by
    simp only [Settings.line, String.toList_append, List.append_assoc]
    rfl
  have hfirst : Stops (fun c => isSpace c || c = '\uFEFF') (Settings.line name text).toList := by
    rw [hline]
    exact fun c hc => not_isSpace_of_isBare (h.first _ c hc)
  refine ⟨hline ▸ List.append_ne_nil_of_left_ne_nil h.ne_nil _, hfirst, fun rest => ?_⟩
  rw [hline]
  simp only [List.append_assoc, List.cons_append, List.nil_append]
  generalize hafter : '=' :: ' ' :: (text.toList ++ '\n' :: rest) = after
  have hspace : ∀ c ∈ [' '], isSpace c = true := List.forall_mem_singleton.2 rfl
  have hkey : key (name.toList ++ ([' '] ++ after)) = some ([name], after) := by
    rw [← hafter]
    exact key_append h hspace (stops_cons rfl) (stops_cons rfl) (stops_cons rfl)
  have hspaces : spaces ([' '] ++ (text.toList ++ '\n' :: rest)) =
      some ((), text.toList ++ '\n' :: rest) :=
    spaces_append hspace (hv.stops_isSpace rest)
  have hbinding : Toml.binding (name.toList ++ ' ' :: after) = some (.binding [name] v, rest) := by
    refine (bind_of_eq hkey).trans ?_
    rw [← hafter]
    refine (bind_of_eq char_self).trans ((bind_of_eq hspaces).trans ?_)
    exact (bind_of_eq (hv.value_eq rest)).trans (bind_of_eq (lineEnd_newline rest))
  have hbare := h.first (' ' :: after)
  generalize name.toList ++ ' ' :: after = cs at hbinding hbare
  rw [statementHere]
  refine (bind_of_eq (rfl : peek cs = some (cs.head?, cs))).trans ((congrFun ?_ cs).trans hbinding)
  split
  case h_5 => rfl
  all_goals
    rename_i heq
    exact absurd (hbare _ heq) (by decide)

theorem statement_eq {l rest : List Char} {s : Statement} (h : Row l s) (hrest : Stops isSpace rest) :
    statement (l ++ rest) = some (s, rest) :=
  (bind_of_eq (h.statementHere_eq rest)).trans (bind_of_eq (spaces_of_stops hrest))

end Row

theorem stops_flatten {ls : List (List Char)} {ss : List Statement} (h : List.Forall₂ Row ls ss) :
    Stops (fun c => isSpace c || c = '\uFEFF') ls.flatten := by
  cases h with
  | nil => exact stops_nil
  | cons hrow _ => exact hrow.first.append hrow.ne_nil _

/-- A text of lines is read as their statements, one after the other. -/
theorem chain_flatten {ls : List (List Char)} {ss : List Statement} (h : List.Forall₂ Row ls ss) :
    Chain statement ls.flatten ss [] := by
  induction h with
  | nil => exact .nil rfl
  | @cons l s ls ss hrow hrows ih =>
    refine .cons (hrow.statement_eq (stops_flatten hrows).left) ?_ ih
    have hlength := List.length_pos_iff.2 hrow.ne_nil
    rw [List.flatten_cons, List.length_append]
    omega

/-- A text of lines is read to its end. -/
theorem statements_flatten {ls : List (List Char)} {ss : List Statement}
    (h : List.Forall₂ Row ls ss) : Reader.all? statements ls.flatten = some ss := by
  have hfirst := stops_flatten h
  have hstatements : statements ls.flatten = some (ss, []) := by
    refine (bind_of_eq (discard_of_eq (optional_of_none (char_of_stops hfirst.right)))).trans ?_
    exact (bind_of_eq (spaces_of_stops hfirst.left)).trans (chain_flatten h).many
  rw [Reader.all?, hstatements]

end RouteKeeper.Toml
