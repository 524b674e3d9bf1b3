import Mathlib.Data.List.Forall2
import RouteKeeper.Proofs.TomlLines

/-!
# Sections of TOML documents

A document of sections with different names, each with fields of different names, is read as a table
of tables. A section is a header and the lines after it; between two sections is an empty line.

## Main definitions

* `Toml.Section` — a section with the texts and values of its fields.

## Main statements

* `Toml.assemble_sections` — the statements of sections build their tables.
* `Toml.parse?_sections` — the text of sections is read as their tables.
-/
namespace RouteKeeper.Toml

open Text Text.Reader

/-! ## Entries -/

namespace Entries

variable {es : Entries} {name : String}

theorem get?_eq_none (h : name ∉ es.map (·.1)) : es.get? name = none := by
  rw [get?, Option.map_eq_none_iff, List.find?_eq_none]
  exact fun e he heq => h (of_decide_eq_true heq ▸ List.mem_map_of_mem he)

theorem put_of_notMem (h : name ∉ es.map (·.1)) (n : Node) : es.put name n = es ++ [(name, n)] := by
  rw [put, if_neg]
  simpa using h

theorem drop_of_notMem (h : name ∉ es.map (·.1)) : es.drop name = es := by
  rw [drop, List.filter_eq_self]
  exact fun e he => decide_eq_true fun heq => h (heq ▸ List.mem_map_of_mem he)

/-- A key without dots is entered in the table itself. -/
theorem bind_of_notMem (h : name ∉ es.map (·.1)) (n : Node) :
    es.bind false [name] n = some (es ++ [(name, n)]) := by
  have hchange : (if (false == [name].dropLast.isEmpty || (es.get? name).isSome) = true then none
      else some (es.put name n)) = some (es ++ [(name, n)]) := by
    rw [get?_eq_none h, put_of_notMem h]
    rfl
  exact hchange

end Entries

/-! ## Sections -/

/-- A field with the text of its value. -/
structure Field where
  name : String
  text : String
  value : Value

/-- The name needs no quotes, and the text is read as the value. -/
structure Field.WellFormed (f : Field) : Prop where
  bare : Bare f.name
  reads : ReadsBack f.text f.value

/-- A section with its fields. -/
structure Section where
  name : String
  fields : List Field

namespace Section

/-- A line with a header. -/
def headerLine (name : String) : String := s!"[{name}]\n"

/-- The lines of a section. -/
def text (s : Section) : String :=
  headerLine s.name ++ String.join (s.fields.map fun f => Settings.line f.name f.text)

/-- The lines of a section, one by one. -/
def lines (s : Section) : List (List Char) :=
  ('[' :: (s.name.toList ++ [']', '\n'])) :: s.fields.map fun f => (Settings.line f.name f.text).toList

/-- The statements of a section. -/
def statements (s : Section) : List Statement :=
  .header [s.name] :: s.fields.map fun f => .binding [f.name] f.value

/-- The names of the fields of a section. -/
def names (s : Section) : List String := s.fields.map (·.name)

/-- The entries of a section while the document is read. -/
def entries (s : Section) : Entries := s.fields.map fun f => (f.name, .leaf f.value)

/-- The table that a section says. -/
def table (s : Section) : Value := .table (s.fields.map fun f => (f.name, f.value))

/-- All fields are read back, and each is given once. -/
structure WellFormed (s : Section) : Prop where
  bare : Bare s.name
  fields : ∀ f ∈ s.fields, f.WellFormed
  nodup : s.names.Nodup

end Section

/-! ## Tables of sections -/

theorem notMem_of_nodup_append {name : String} {before after : List String}
    (h : (before ++ name :: after).Nodup) : name ∉ before := fun hmem =>
  (List.nodup_append.1 h).2.2 name hmem name List.mem_cons_self rfl

namespace Draft

/-- Bindings of new names become entries of the current table. -/
theorem foldlM_bindings {d : Draft} {fields : List Field}
    (h : (d.current.map (·.1) ++ fields.map (·.name)).Nodup) :
    (fields.map fun f => Statement.binding [f.name] f.value).foldlM add d =
      some { d with current := d.current ++ fields.map fun f => (f.name, .leaf f.value) } := by
  induction fields generalizing d with
  | nil =>
    rw [List.map_nil, List.map_nil, List.append_nil]
    rfl
  | cons f fields ih =>
    have hnew : f.name ∉ d.current.map (·.1) := notMem_of_nodup_append h
    have hadd : d.add (.binding [f.name] f.value) =
        some { d with current := d.current ++ [(f.name, .leaf f.value)] } := by
      rw [add, Entries.bind_of_notMem hnew]
      rfl
    rw [List.map_cons, List.foldlM_cons, hadd]
    refine (ih ?_).trans ?_
    · simpa [List.map_append, List.append_assoc] using h
    · rw [List.append_assoc]
      rfl

theorem finish_of_notMem {root : Entries} {name : String} (h : name ∉ root.map (·.1))
    (current : Entries) :
    finish ⟨root, [name], false, current⟩ = some (root ++ [(name, .table false false current)]) := by
  simp only [finish, List.getLast?_singleton, List.dropLast_singleton, Entries.descend,
    Entries.get?_eq_none h, Entries.put_of_notMem h]

theorem startTable_of_notMem {root : Entries} {name : String} (h : name ∉ root.map (·.1)) :
    startTable root [name] = some ⟨root, [name], false, []⟩ := by
  simp only [startTable, List.getLast?_singleton, List.dropLast_singleton, List.foldl_nil,
    Entries.descend, Option.bind_eq_bind, Option.bind_some, Option.pure_def,
    Entries.get?_eq_none h, Entries.drop_of_notMem h]

/-- A section after what was read completes it and becomes the current table. -/
theorem foldlM_section {d : Draft} {root : Entries} {s : Section} (hfinish : d.finish = some root)
    (hnew : s.name ∉ root.map (·.1)) (hnodup : s.names.Nodup) :
    s.statements.foldlM add d = some ⟨root, [s.name], false, s.entries⟩ := by
  have hadd : d.add (.header [s.name]) = some ⟨root, [s.name], false, []⟩ := by
    rw [add, hfinish]
    exact startTable_of_notMem hnew
  rw [Section.statements, List.foldlM_cons, hadd]
  exact foldlM_bindings hnodup

end Draft

/-! ## Documents -/

/-- The statements of sections with empty lines between them. -/
def documentStatements (sections : List Section) : List Statement :=
  [.blank].intercalate (sections.map Section.statements)

/-- The lines of sections with empty lines between them. -/
def documentLines (sections : List Section) : List (List Char) :=
  [['\n']].intercalate (sections.map Section.lines)

/-- Sections with an empty line before each complete what was read one by one. -/
theorem foldlM_sections {d : Draft} {root : Entries} {sections : List Section}
    (hfinish : d.finish = some root) (hnames : (root.map (·.1) ++ sections.map (·.name)).Nodup)
    (hfields : ∀ s ∈ sections, s.names.Nodup) :
    ((sections.flatMap fun s => .blank :: s.statements).foldlM Draft.add d).bind Draft.finish =
      some (root ++ sections.map fun s => (s.name, Node.table false false s.entries)) := by
  induction sections generalizing d root with
  | nil =>
    rw [List.map_nil, List.append_nil]
    exact hfinish
  | cons s sections ih =>
    have hnew : s.name ∉ root.map (·.1) := notMem_of_nodup_append hnames
    have hsection := Draft.foldlM_section hfinish hnew (hfields s List.mem_cons_self)
    have hrest := ih (Draft.finish_of_notMem hnew s.entries)
      (by simpa [List.append_assoc] using hnames)
      fun s' hs' => hfields s' (List.mem_cons_of_mem s hs')
    rw [List.append_assoc] at hrest
    rw [List.flatMap_cons, List.cons_append, List.foldlM_cons]
    show ((s.statements ++ _).foldlM Draft.add d).bind Draft.finish = _
    rw [List.foldlM_append, hsection]
    exact hrest

theorem blank_cons_documentStatements (s : Section) (sections : List Section) :
    .blank :: documentStatements (s :: sections) =
      (s :: sections).flatMap fun s => .blank :: s.statements := by
  induction sections generalizing s with
  | nil =>
    rw [documentStatements, List.map_singleton, List.intercalate_singleton, List.flatMap_singleton]
  | cons next sections ih =>
    rw [List.flatMap_cons, ← ih next, documentStatements, List.map_cons, List.map_cons,
      List.intercalate_cons_cons, List.append_assoc]
    rfl

/-- The statements of sections build their tables. -/
theorem assemble_sections {sections : List Section} (hnames : (sections.map (·.name)).Nodup)
    (hfields : ∀ s ∈ sections, s.names.Nodup) :
    assemble (documentStatements sections) =
      some (sections.map fun s => (s.name, Node.table false false s.entries)) := by
  cases sections with
  | nil => rfl
  | cons s sections =>
    have hempty : Draft.empty.finish = some [] := rfl
    have hnames' : (([] : Entries).map (·.1) ++ (s :: sections).map (·.name)).Nodup := hnames
    have hall := foldlM_sections hempty hnames' hfields
    rw [← blank_cons_documentStatements] at hall
    exact hall

/-- A finished table has the values of its nodes. -/
theorem closeEntries_map {α : Type} (name : α → String) (node : α → Node) (l : List α) :
    closeEntries (l.map fun a => (name a, node a)) = l.map fun a => (name a, (node a).close) := by
  induction l with
  | nil => rw [List.map_nil, List.map_nil, closeEntries]
  | cons a l ih => rw [List.map_cons, List.map_cons, closeEntries, ih]

theorem close_table (s : Section) (implied dotted : Bool) :
    (Node.table implied dotted s.entries).close = s.table := by
  rw [Node.close, Section.entries, closeEntries_map]
  simp only [Node.close, Section.table]

namespace Section

theorem flatten_lines (s : Section) : s.lines.flatten = s.text.toList := by
  have hfields : (s.fields.map fun f => (Settings.line f.name f.text).toList).flatten =
      (String.join (s.fields.map fun f => Settings.line f.name f.text)).toList := by
    rw [String.toList_join, List.flatMap_map]
    rfl
  have hheader : '[' :: (s.name.toList ++ [']', '\n']) = (headerLine s.name).toList := by
    simp only [headerLine, String.toList_append, List.append_assoc]
    rfl
  rw [lines, List.flatten_cons, hfields, text, String.toList_append, hheader]

theorem WellFormed.rows {s : Section} (h : s.WellFormed) : List.Forall₂ Row s.lines s.statements := by
  refine .cons (Row.header h.bare) ?_
  rw [List.forall₂_map_left_iff, List.forall₂_map_right_iff, List.forall₂_same]
  exact fun f hf => Row.binding (h.fields f hf).bare (h.fields f hf).reads

end Section

theorem flatten_documentLines (sections : List Section) :
    (documentLines sections).flatten = ("\n".intercalate (sections.map Section.text)).toList := by
  induction sections with
  | nil => rfl
  | cons s sections ih =>
    cases sections with
    | nil =>
      rw [documentLines, List.map_singleton, List.map_singleton, List.intercalate_singleton,
        String.intercalate_singleton, s.flatten_lines]
    | cons next sections =>
      rw [documentLines, List.map_cons, List.map_cons, List.intercalate_cons_cons,
        List.flatten_append, List.flatten_append, s.flatten_lines, List.map_cons, List.map_cons,
        String.intercalate_cons_cons, String.toList_append, String.toList_append]
      exact congrArg _ ih

theorem documentRows {sections : List Section} (h : ∀ s ∈ sections, s.WellFormed) :
    List.Forall₂ Row (documentLines sections) (documentStatements sections) := by
  induction sections with
  | nil => exact .nil
  | cons s sections ih =>
    have hrows := (h s List.mem_cons_self).rows
    have hrest := ih fun s' hs' => h s' (List.mem_cons_of_mem s hs')
    cases sections with
    | nil =>
      rwa [documentLines, documentStatements, List.map_singleton, List.map_singleton,
        List.intercalate_singleton, List.intercalate_singleton]
    | cons next sections =>
      rw [documentLines, documentStatements, List.map_cons, List.map_cons, List.map_cons,
        List.map_cons, List.intercalate_cons_cons, List.intercalate_cons_cons]
      exact List.rel_append (List.rel_append hrows (.cons .blank .nil)) hrest

/-- The text of sections with empty lines between them is read as their tables. -/
theorem parse?_sections {sections : List Section} (h : ∀ s ∈ sections, s.WellFormed)
    (hnames : (sections.map (·.name)).Nodup) :
    parse? ("\n".intercalate (sections.map Section.text)).toList =
      some (sections.map fun s => (s.name, s.table)) := by
  have hstatements := statements_flatten (documentRows h)
  have hassemble := assemble_sections hnames fun s hs => (h s hs).nodup
  rw [← flatten_documentLines, parse?, hstatements]
  show (assemble (documentStatements sections)).bind _ = _
  rw [hassemble]
  show some (closeEntries _) = _
  rw [closeEntries_map]
  simp only [close_table]

end RouteKeeper.Toml
