import RouteKeeper.Proofs.DurationTexts
import RouteKeeper.Proofs.Encoding
import RouteKeeper.Proofs.TomlSections

/-!
# Settings files are read back

The content that valid settings are saved as is read as the same settings, all texts, durations and
numbers included. What a file does not need to say, the system's route table, is not in it if it is
the main one. Conversely, whatever is read from a file is valid.

## Main definitions

* `Settings.sections` — the sections of a file with these settings.

## Main statements

* `Settings.parse?_text` — the text of settings is read as their sections.
* `Settings.read_sections` — the sections are read as the settings.
* `Settings.load_save` — settings files are read back.
-/
namespace RouteKeeper

open Toml (ReadsBack Section Field)

/-! ## Records -/

/-- A record that gives known fields, each once, is assigned field by field. -/
theorem Fields.assignNamed_eq_foldlM {α β : Type} {known seen : List String}
    {entries : List (String × α)} (assign : String → α → β → Except ReadFault β) (b : β)
    (hknown : ∀ name ∈ entries.map (·.1), name ∈ known)
    (hnodup : (seen ++ entries.map (·.1)).Nodup) :
    assignNamed known assign seen entries b = entries.foldlM (fun b e => assign e.1 e.2 b) b := by
  induction entries generalizing seen b with
  | nil => rfl
  | cons e entries ih =>
    have hnew : ¬ seen.contains e.1 = true := by
      rw [List.contains_iff_mem]
      exact Toml.notMem_of_nodup_append hnodup
    have hfirst : known.contains e.1 = true :=
      List.contains_iff_mem.2 (hknown e.1 List.mem_cons_self)
    have hrest : (e.1 :: seen ++ entries.map (·.1)).Nodup := List.perm_middle.nodup_iff.1 hnodup
    rw [assignNamed, if_neg hnew, if_pos hfirst, List.foldlM_cons]
    exact bind_congr fun b =>
      ih b (fun name hname => hknown name (List.mem_cons_of_mem e.1 hname)) hrest

namespace Toml

/-- A table whose keys are known is read key by key. -/
theorem assign_entries {β : Type} {known : List String} {entries : List (String × Value)}
    (assign : String → Value → β → Except ReadFault β) (default : β) (hknown : known.Nodup)
    (hnames : (entries.map (·.1)).Sublist known) :
    dataFormat.assign known default assign (.table entries) =
      entries.foldlM (fun b e => assign e.1 e.2 b) default :=
  Fields.assignNamed_eq_foldlM assign default (fun _ hname => hnames.subset hname)
    (hnames.nodup hknown)

/-- A section whose fields are known is read field by field. -/
theorem assign_table {β : Type} {known : List String} {s : Section}
    (assign : String → Value → β → Except ReadFault β) (default : β) (hknown : known.Nodup)
    (hnames : s.names.Sublist known) :
    dataFormat.assign known default assign s.table =
      s.fields.foldlM (fun b f => assign f.name f.value b) default := by
  have hentries : (s.fields.map fun f => (f.name, f.value)).map Prod.fst = s.names := by
    rw [List.map_map]
    rfl
  rw [Section.table, assign_entries assign default hknown (hentries ▸ hnames), List.foldlM_map]

theorem duration_text (d : Duration) : dataFormat.duration (.text d.text) = .ok d :=
  (ReadFault.bind_of_eq rfl).trans d.ofText_text

theorem natural_integer {n most : Nat} (h : n ≤ most) :
    dataFormat.natural most (.integer n) = some n :=
  if_pos h

end Toml

/-! ## Sections -/

namespace Settings

/-- A field with a duration. -/
def durationField (name : String) (d : Duration) : Field := ⟨name, quoted d, .text d.text⟩

/-- A field with a text. -/
def textField (name s : String) : Field := ⟨name, Toml.writeString s, .text s⟩

/-- A field with a number. -/
def naturalField (name : String) (n : Nat) : Field := ⟨name, toString n, .integer n⟩

/-- The section about probing. -/
def probeSection (s : ProbeSettings) : Section :=
  ⟨"probe", [textField "mode" s.mode.name, durationField "interval" s.interval,
    durationField "timeout" s.timeout, naturalField "payload_size" s.payloadSize]⟩

/-- The section about selection. -/
def selectionSection (s : Policy) : Section :=
  ⟨"selection", [textField "strategy" s.strategy.name, naturalField "window_size" s.windowSize,
    ⟨"reroute_ratio", floatFormat.write s.rerouteRatio, .float s.rerouteRatio⟩,
    durationField "reroute_diff" s.rerouteDiff,
    naturalField "route_delete_loss_threshold" s.deleteThreshold]⟩

/-- The section about routing; there is a table only if one is given. -/
def routingSection (s : RoutingSettings) : Section :=
  ⟨"router", durationField "apply_interval" s.applyInterval ::
    (s.table.map (naturalField "table")).toList⟩

/-- The section about logging. -/
def loggingSection (s : LoggingSettings) : Section :=
  ⟨"logging", [textField "level" s.level, textField "format" s.format,
    ⟨"color", toString s.color, .boolean s.color⟩]⟩

/-- The sections of a file with these settings. -/
def sections (s : Settings) : List Section :=
  [probeSection s.probe, selectionSection s.selection, routingSection s.routing,
    loggingSection s.logging]

theorem text_probeSection (s : ProbeSettings) : (probeSection s).text = probeText s := by
  have hheader : Section.headerLine "probe" = "[probe]\n" := by decide
  simp only [probeSection, Section.text, probeText, hheader, durationField, naturalField, textField,
    List.map_cons, List.map_nil, String.join_cons, String.join_nil, String.append_assoc,
    String.append_empty]

theorem text_selectionSection (s : Policy) : (selectionSection s).text = selectionText s := by
  have hheader : Section.headerLine "selection" = "[selection]\n" := by decide
  simp only [selectionSection, Section.text, selectionText, hheader, durationField, naturalField,
    textField, List.map_cons, List.map_nil, String.join_cons, String.join_nil, String.append_assoc,
    String.append_empty]

theorem text_routingSection (s : RoutingSettings) : (routingSection s).text = routingText s := by
  have hheader : Section.headerLine "router" = "[router]\n" := by decide
  obtain ⟨interval, table⟩ := s
  cases table <;>
    simp only [routingSection, Section.text, routingText, hheader, durationField, naturalField,
      Option.map_none, Option.map_some, Option.toList_none, Option.toList_some, List.map_cons,
      List.map_nil, String.join_cons, String.join_nil, String.append_assoc, String.append_empty]

theorem text_loggingSection (s : LoggingSettings) : (loggingSection s).text = loggingText s := by
  have hheader : Section.headerLine "logging" = "[logging]\n" := by decide
  simp only [loggingSection, Section.text, loggingText, hheader, textField, List.map_cons,
    List.map_nil, String.join_cons, String.join_nil, String.append_assoc, String.append_empty]

theorem text_eq (s : Settings) : s.text = "\n".intercalate (s.sections.map Section.text) := by
  simp only [text, sections, List.map_cons, List.map_nil, text_probeSection, text_selectionSection,
    text_routingSection, text_loggingSection]

/-! ## Reading -/

theorem names_probeSection (s : ProbeSettings) :
    (probeSection s).names.Sublist ["mode", "interval", "timeout", "payload_size"] :=
  List.Sublist.refl _

theorem names_selectionSection (s : Policy) : (selectionSection s).names.Sublist Policy.fieldNames :=
  List.Sublist.refl _

theorem names_routingSection (s : RoutingSettings) :
    (routingSection s).names.Sublist ["apply_interval", "table"] := by
  obtain ⟨interval, table⟩ := s
  cases table with
  | none => exact (List.nil_sublist _).cons_cons _
  | some table => exact List.Sublist.refl _

theorem names_loggingSection (s : LoggingSettings) :
    (loggingSection s).names.Sublist ["level", "format", "color"] :=
  List.Sublist.refl _

theorem read_probeSection {s : ProbeSettings} (h : s.payloadSize ≤ most64) :
    ProbeSettings.read Toml.dataFormat (probeSection s).table = .ok s := by
  have hmode : Toml.dataFormat.oneOf ProbeMode.names (.text s.mode.name) = some s.mode := by
    cases s.mode <;> rfl
  rw [ProbeSettings.read, Toml.assign_table _ _ (by decide) (names_probeSection s)]
  simp only [probeSection, durationField, textField, naturalField, List.foldlM_cons,
    List.foldlM_nil, hmode, Toml.duration_text, Toml.natural_integer h]
  rfl

theorem read_selectionSection {s : Policy} (hwindow : s.windowSize ≤ most64)
    (hthreshold : s.deleteThreshold ≤ most8) :
    Policy.read Toml.dataFormat (selectionSection s).table = .ok s := by
  have hstrategy : Toml.dataFormat.oneOf Strategy.names (.text s.strategy.name) = some s.strategy := by
    cases s.strategy <;> rfl
  rw [Policy.read, Toml.assign_table _ _ (by decide) (names_selectionSection s)]
  simp only [selectionSection, durationField, textField, naturalField, List.foldlM_cons,
    List.foldlM_nil, hstrategy, Toml.duration_text, Toml.natural_integer hwindow,
    Toml.natural_integer hthreshold]
  rfl

theorem read_routingSection {s : RoutingSettings} (h : ∀ table ∈ s.table, table ≤ most32) :
    RoutingSettings.read Toml.dataFormat (routingSection s).table = .ok s := by
  rw [RoutingSettings.read, Toml.assign_table _ _ (by decide) (names_routingSection s)]
  obtain ⟨interval, table⟩ := s
  cases table with
  | none =>
    simp only [routingSection, durationField, List.foldlM_cons, List.foldlM_nil,
      Toml.duration_text, Option.map_none, Option.toList_none]
    rfl
  | some table =>
    simp only [routingSection, durationField, naturalField, List.foldlM_cons, List.foldlM_nil,
      Toml.duration_text, Option.map_some, Option.toList_some, DataFormat.orNothing,
      Toml.natural_integer (h table rfl)]
    rfl

theorem read_loggingSection (s : LoggingSettings) :
    LoggingSettings.read Toml.dataFormat (loggingSection s).table = .ok s := by
  rw [LoggingSettings.read, Toml.assign_table _ _ (by decide) (names_loggingSection s)]
  rfl

/-- The sections of settings are read as the settings. -/
theorem read_sections {s : Settings} (hpayload : s.probe.payloadSize ≤ most64)
    (hwindow : s.selection.windowSize ≤ most64) (hthreshold : s.selection.deleteThreshold ≤ most8)
    (htable : ∀ table ∈ s.routing.table, table ≤ most32) :
    read Toml.dataFormat (.table (s.sections.map fun x => (x.name, x.table))) = .ok s := by
  have hentries : (s.sections.map fun x => (x.name, x.table)) =
      [("probe", (probeSection s.probe).table), ("selection", (selectionSection s.selection).table),
        ("router", (routingSection s.routing).table),
        ("logging", (loggingSection s.logging).table)] := rfl
  have hnames : ((s.sections.map fun x => (x.name, x.table)).map Prod.fst).Sublist
      ["probe", "selection", "router", "logging"] := List.Sublist.refl _
  rw [Settings.read, Toml.assign_entries _ _ (by decide) hnames, hentries]
  simp only [List.foldlM_cons, List.foldlM_nil, read_probeSection hpayload,
    read_selectionSection hwindow hthreshold, read_routingSection htable, read_loggingSection]
  rfl

/-! ## Writing -/

theorem wellFormed_durationField {name : String} (h : Toml.Bare name) (d : Duration) :
    (durationField name d).WellFormed := ⟨h, ReadsBack.text_writeString d.text⟩

theorem wellFormed_textField {name : String} (h : Toml.Bare name) (s : String) :
    (textField name s).WellFormed := ⟨h, ReadsBack.text_writeString s⟩

theorem wellFormed_naturalField {name : String} {n : Nat} (h : Toml.Bare name)
    (hn : n ≤ largestInteger) : (naturalField name n).WellFormed := ⟨h, ReadsBack.integer hn⟩

theorem wellFormed_probeSection {s : ProbeSettings} (h : s.payloadSize ≤ largestInteger) :
    (probeSection s).WellFormed where
  bare := (by decide : Toml.Bare "probe")
  fields := by
    simp only [probeSection, List.forall_mem_cons]
    exact ⟨wellFormed_textField (by decide) _, wellFormed_durationField (by decide) _,
      wellFormed_durationField (by decide) _, wellFormed_naturalField (by decide) h, nofun⟩
  nodup := (names_probeSection s).nodup (by decide)

theorem wellFormed_selectionSection {s : Policy} (hwindow : s.windowSize ≤ largestInteger)
    (hthreshold : s.deleteThreshold ≤ largestInteger)
    (hratio : Toml.DecimalReadsBack s.rerouteRatio) : (selectionSection s).WellFormed where
  bare := (by decide : Toml.Bare "selection")
  fields := by
    have hfloat : Field.WellFormed
        ⟨"reroute_ratio", floatFormat.write s.rerouteRatio, .float s.rerouteRatio⟩ :=
      ⟨(by decide : Toml.Bare "reroute_ratio"), ReadsBack.float hratio⟩
    simp only [selectionSection, List.forall_mem_cons]
    exact ⟨wellFormed_textField (by decide) _, wellFormed_naturalField (by decide) hwindow, hfloat,
      wellFormed_durationField (by decide) _, wellFormed_naturalField (by decide) hthreshold, nofun⟩
  nodup := (names_selectionSection s).nodup (by decide)

theorem wellFormed_routingSection {s : RoutingSettings}
    (h : ∀ table ∈ s.table, table ≤ largestInteger) : (routingSection s).WellFormed where
  bare := (by decide : Toml.Bare "router")
  fields := by
    simp only [routingSection, List.forall_mem_cons]
    refine ⟨wellFormed_durationField (by decide) _, fun f hf => ?_⟩
    obtain ⟨table, htable, rfl⟩ := Option.map_eq_some_iff.1 (Option.mem_toList.1 hf)
    exact wellFormed_naturalField (by decide) (h table htable)
  nodup := (names_routingSection s).nodup (by decide)

theorem wellFormed_loggingSection (s : LoggingSettings) : (loggingSection s).WellFormed where
  bare := (by decide : Toml.Bare "logging")
  fields := by
    have hcolor : Field.WellFormed ⟨"color", toString s.color, .boolean s.color⟩ :=
      ⟨(by decide : Toml.Bare "color"), ReadsBack.boolean s.color⟩
    simp only [loggingSection, List.forall_mem_cons]
    exact ⟨wellFormed_textField (by decide) _, wellFormed_textField (by decide) _, hcolor, nofun⟩
  nodup := (names_loggingSection s).nodup (by decide)

/-- The text of settings is read as their sections. -/
theorem parse?_text {s : Settings} (hpayload : s.probe.payloadSize ≤ largestInteger)
    (hwindow : s.selection.windowSize ≤ largestInteger)
    (hthreshold : s.selection.deleteThreshold ≤ largestInteger)
    (htable : ∀ table ∈ s.routing.table, table ≤ largestInteger)
    (hratio : Toml.DecimalReadsBack s.selection.rerouteRatio) :
    Toml.parse? s.text.toList = some (s.sections.map fun x => (x.name, x.table)) := by
  rw [text_eq]
  refine Toml.parse?_sections ?_ (by decide : ["probe", "selection", "router", "logging"].Nodup)
  simp only [sections, List.forall_mem_cons]
  exact ⟨wellFormed_probeSection hpayload, wellFormed_selectionSection hwindow hthreshold hratio,
    wellFormed_routingSection htable, wellFormed_loggingSection s.logging, nofun⟩

/-! ## Files -/

/-- A valid threshold is a percentage. -/
theorem deleteThreshold_le {s : Settings} (h : s.validate = .ok ()) :
    s.selection.deleteThreshold ≤ 100 := by
  have hnone : s.defect? = none := by
    rw [validate] at h
    split at h
    · cases h
    · assumption
  by_contra hlarge
  rw [defect?, if_pos (Nat.lt_of_not_le hlarge)] at hnone
  split at hnone
  · cases hnone
  · split at hnone <;> cases hnone

/-- Only valid settings are read. -/
theorem validate_of_load {content : FileContent} {s : Settings} (h : load content = .ok s) :
    s.validate = .ok () := by
  cases content with
  | missing => cases h
  | bytes bytes =>
    rw [load] at h
    split at h
    case h_1 => cases h
    case h_2 =>
      split at h
      case h_1 => cases h
      case h_2 => cases h
      case h_3 =>
        split at h
        case h_1 => cases h
        case h_2 hvalid =>
          cases h
          exact hvalid

/-- Valid settings whose text is read as their sections are read from its bytes. -/
theorem load_text {s : Settings} (hvalid : s.validate = .ok ())
    (hpayload : s.probe.payloadSize ≤ largestInteger)
    (hwindow : s.selection.windowSize ≤ largestInteger)
    (htable : ∀ table ∈ s.routing.table, table ≤ most32)
    (hratio : Toml.DecimalReadsBack s.selection.rerouteRatio) :
    load (.bytes s.text.toByteArray.data.toList) = .ok s := by
  have hthreshold : s.selection.deleteThreshold ≤ 100 := deleteThreshold_le hvalid
  have hword : largestInteger ≤ most64 := by decide
  have hsmall : most32 ≤ largestInteger := by decide
  have hparse := parse?_text hpayload hwindow (hthreshold.trans (by decide))
    (fun table h => (htable table h).trans hsmall) hratio
  have hread := read_sections (hpayload.trans hword) (hwindow.trans hword)
    (hthreshold.trans (by decide)) htable
  have htext : readText s.text.toList = .ok s := by
    rw [readText, hparse]
    exact hread
  rw [load, Text.Utf8.decode?_toByteArray]
  dsimp only
  rw [htext]
  dsimp only
  rw [hvalid]

/-- Valid settings are read back from the file that they are saved in, if their numbers are in the
range of the format and the decimal text of a finite ratio is read as the ratio; a system table is a
number of 32 bits. And all settings that are read are valid. -/
theorem load_save {s : Settings} (hvalid : s.validate = .ok ())
    (hpayload : s.probe.payloadSize ≤ largestInteger)
    (hwindow : s.selection.windowSize ≤ largestInteger)
    (htable : ∀ table ∈ s.routing.table, table ≤ most32)
    (hratio : Toml.DecimalReadsBack s.selection.rerouteRatio) :
    (∃ content, s.save = .ok content ∧
      load (.bytes content.toByteArray.data.toList) = .ok s) ∧
    ∀ content s', load content = .ok s' → s'.validate = .ok () := by
  have hsave : s.save = .ok s.text := by
    rw [save, if_neg]
    simp only [Bool.or_eq_true, decide_eq_true_eq]
    omega
  exact ⟨⟨s.text, hsave, load_text hvalid hpayload hwindow htable hratio⟩,
    fun _ _ => validate_of_load⟩

/-- Settings at the limits, with texts that need all kinds of quoting. -/
def quotedTexts : Settings where
  probe := ⟨.unprivileged, .longest, ⟨31557601000000001, by decide⟩, 9223372036854775807⟩
  selection := ⟨.preferDirect, 1, 1.2, .zero, 100⟩
  routing := ⟨⟨1, by decide⟩, some 4294967295⟩
  logging := ⟨"\"\x27\\\x00\n", "\"\"\"\x27\x27\x27µ→\x7f", false⟩

theorem load_save_quotedTexts :
    (quotedTexts.validate = .ok () ∧ quotedTexts.probe.payloadSize ≤ largestInteger ∧
      quotedTexts.selection.windowSize ≤ largestInteger ∧
      (∀ table ∈ quotedTexts.routing.table, table ≤ most32) ∧
      Toml.DecimalReadsBack quotedTexts.selection.rerouteRatio) ∧
    (∃ content, quotedTexts.save = .ok content ∧
      load (.bytes content.toByteArray.data.toList) = .ok quotedTexts) ∧
    ∀ content s', load content = .ok s' → s'.validate = .ok () := by
  have hvalid : quotedTexts.validate = .ok () := by decide +kernel
  have hpayload : quotedTexts.probe.payloadSize ≤ largestInteger := by decide
  have hwindow : quotedTexts.selection.windowSize ≤ largestInteger := by decide
  have htable : ∀ table ∈ quotedTexts.routing.table, table ≤ most32 := by decide
  have hratio : Toml.DecimalReadsBack quotedTexts.selection.rerouteRatio := by
    intro _ _ _ _
    decide +kernel
  exact ⟨⟨hvalid, hpayload, hwindow, htable, hratio⟩,
    load_save hvalid hpayload hwindow htable hratio⟩

end Settings

end RouteKeeper
