import RouteKeeper.Settings
import RouteKeeper.Text.Utf8
import RouteKeeper.Toml.Document
import RouteKeeper.Toml.Writer

/-!
# Settings files

Settings are kept in TOML files. Sections and fields that a file does not have are at their
defaults, and what it has beyond those is ignored; what it has of the wrong kind makes it
unreadable. Settings that were read are valid.

## Main definitions

* `Settings.load` — settings from the content of a file.
* `Settings.save` — the content of a file from settings.
-/
namespace RouteKeeper

/-! ## Reading -/

/-- TOML as a data format. A record may also be given as an array, and a date has no fields. A
choice may be given as the only key of a table, with nothing in it. -/
def Toml.dataFormat : DataFormat Toml.Value where
  record
    | .table entries => some (.named entries)
    | .array items => some (.placed items true)
    | .dateTime => some (.named [])
    | _ => none
  text
    | .text s => some s
    | _ => none
  integer
    | .integer i => some i
    | _ => none
  number
    | .float x => some x
    | .integer i => some (Float.ofInt i)
    | _ => none
  flag
    | .boolean b => some b
    | _ => none
  choice
    | .text s => some s
    | .table [(name, .table [])] | .table [(name, .array [])] => some name
    | _ => none
  isNothing _ := false

/-- What can become of reading a file. -/
inductive FileContent where
  | bytes (content : List UInt8)
  /-- There is no such file. -/
  | missing

/-- Why there are no settings to be had from a file. -/
inductive LoadFault where
  | refused (e : Error)
  /-- A duration in the file overflows. -/
  | overflow

namespace Settings

/-- Read settings from the text of a file. -/
def readText (cs : List Char) : Except ReadFault Settings := do
  read Toml.dataFormat (.table (← ReadFault.ofOption (Toml.parse? cs)))

/-- Read settings from the content of a file. -/
def load : FileContent → Except LoadFault Settings
  | .missing =>
    .error (.refused (.config s!"Failed to read config: {OsError.message OsError.notFound}"))
  | .bytes content =>
    match Text.Utf8.decode? content with
    | none =>
      .error (.refused (.config "Failed to read config: stream did not contain valid UTF-8"))
    | some cs =>
      match readText cs with
      | .error .unreadable => .error (.refused (.config "Failed to parse config"))
      | .error .overflow => .error .overflow
      | .ok s =>
        match s.validate with
        | .error e => .error (.refused e)
        | .ok () => .ok s

/-! ## Writing -/

/-- Doubles in settings files. -/
def floatFormat : Decimal.FloatFormat := ⟨true, "nan", none⟩

/-- The largest integer of a settings file. -/
def largestInteger : Nat := 9223372036854775807

/-- A line with a key and a value. -/
def line (key value : String) : String := s!"{key} = {value}\n"

/-- A duration as a quoted text. -/
def quoted (d : Duration) : String := Toml.writeString d.text

/-- The section about probing. -/
def probeText (s : ProbeSettings) : String :=
  "[probe]\n" ++ line "mode" (Toml.writeString s.mode.name) ++
    line "interval" (quoted s.interval) ++ line "timeout" (quoted s.timeout) ++
    line "payload_size" (toString s.payloadSize)

/-- The section about selection. -/
def selectionText (s : Policy) : String :=
  "[selection]\n" ++ line "strategy" (Toml.writeString s.strategy.name) ++
    line "window_size" (toString s.windowSize) ++
    line "reroute_ratio" (floatFormat.write s.rerouteRatio) ++
    line "reroute_diff" (quoted s.rerouteDiff) ++
    line "route_delete_loss_threshold" (toString s.deleteThreshold)

/-- The section about routing. -/
def routingText (s : RoutingSettings) : String :=
  "[router]\n" ++ line "apply_interval" (quoted s.applyInterval) ++
    (match s.table with
      | some table => line "table" (toString table)
      | none => "")

/-- The section about logging. -/
def loggingText (s : LoggingSettings) : String :=
  "[logging]\n" ++ line "level" (Toml.writeString s.level) ++
    line "format" (Toml.writeString s.format) ++ line "color" (toString s.color)

/-- All sections, with empty lines between them. -/
def text (s : Settings) : String :=
  "\n".intercalate
    [probeText s.probe, selectionText s.selection, routingText s.routing, loggingText s.logging]

/-- The content of a file with these settings. Integers beyond those of the format cannot be kept.
-/
def save (s : Settings) : Except Error String :=
  if s.probe.payloadSize > largestInteger || s.selection.windowSize > largestInteger then
    .error (.config "Failed to serialize config: out-of-range value for u64 type")
  else .ok s.text

/-- Writing a file where there is a directory fails. -/
def directoryError : Error :=
  .config s!"Failed to write config: {OsError.message OsError.isDirectory}"

end Settings

end RouteKeeper
