import RouteKeeper.OsError
import RouteKeeper.Prefix.Text
import RouteKeeper.RouteTable
import RouteKeeper.Text.Utf8
import RouteKeeper.Text.Words

/-!
# The system's route table

The route table of the system is changed and read through its `ip` command. A new route that is
there already, and an old one that is gone already, count as a success. Who owns a route is read
off the listing of the route: it is the word after `dev`.

## Main definitions

* `CommandResult` — what running a command comes to.
* `RouteTable.system` — the route table behind a command.
-/
namespace RouteKeeper

/-- What running a command comes to. -/
inductive CommandResult where
  /-- The command cannot be started. -/
  | absent (reason : String)
  /-- It ended, with success or not, and with what it wrote. -/
  | ended (ok : Bool) (output : List UInt8) (complaint : List UInt8)
deriving DecidableEq

/-- A command that is given arguments and works on a state. -/
abbrev Command (σ : Type) := List String → σ → CommandResult × σ

namespace RouteTable

variable {σ : Type}

/-- Arguments that name a table other than the main one. -/
def tableArguments (table : Option Nat) : List String :=
  match table with
  | some t => ["table", toString t]
  | none => []

/-- The arguments for changing a route. -/
def changeArguments (table : Option Nat) (verb : String) (destination : Prefix)
    (interface : String) (gateway : Option Address) : List String :=
  ["route", verb, destination.text] ++
    (match gateway with
      | some g => ["via", g.text]
      | none => []) ++
    ["dev", interface] ++ tableArguments table

/-- The arguments for listing the route for exactly this prefix. -/
def listArguments (table : Option Nat) (destination : Prefix) : List String :=
  [if destination.text.contains ':' then "-6" else "-4", "-o", "route", "show", "exact",
    destination.text, "table", (table.map toString).getD "main"]

/-- What a command complains about, without white space around it. -/
def complaintText (bytes : List UInt8) : List Char := Text.trim (Text.Utf8.decodeLossy bytes)

/-- The phrase occurs in the text. -/
def mentions (phrase : List Char) : List Char → Bool
  | [] => phrase.isEmpty
  | c :: rest => phrase.isPrefixOf (c :: rest) || mentions phrase rest

/-- The word after the first `dev` of a line. -/
def deviceIn : List (List Char) → Option String
  | [] => none
  | word :: rest =>
    if word = "dev".toList then (rest.head?).map String.ofList else deviceIn rest

/-- The owner in a listing of routes: that of the first line that names one. -/
def ownerIn (listing : List UInt8) : Option String :=
  (Text.lines (Text.Utf8.decodeLossy listing)).findSome? fun line => deviceIn (Text.words line)

/-- Run a command. No argument can hold the character zero. -/
def started (run : Command σ) (arguments : List String) (s : σ) : CommandResult × σ :=
  if arguments.any (·.contains '\x00') then (.absent "nul byte found in provided data", s)
  else run arguments s

/-- Run a command that changes a route. A failure that is forgiven counts as a success; any other is
an error. -/
def changed (run : Command σ) (arguments : List String) (forgives : List Char → Bool)
    (cause : String → RouteError) (s : σ) : Except Error Unit × σ :=
  match started run arguments s with
  | (.absent reason, s) => (.error (.io reason), s)
  | (.ended true _ _, s) => (.ok (), s)
  | (.ended false _ complaint, s) =>
    let text := complaintText complaint
    if forgives text then (.ok (), s) else (.error (.route (cause (String.ofList text))), s)

/-- The route table behind the `ip` command. -/
def system (table : Option Nat) (run : Command σ) : RouteTable σ where
  owner d s :=
    match started run (listArguments table d) s with
    | (.absent reason, s) => (.error (.io reason), s)
    | (.ended true listing _, s) => (.ok (ownerIn listing), s)
    | (.ended false _ complaint, s) =>
      (.error (.route (.lookupFailed (String.ofList (complaintText complaint)))), s)
  add d hop :=
    changed run (changeArguments table "add" d hop.interface hop.gateway)
      (mentions "File exists".toList) (.addFailed d.text hop.interface)
  replace d hop :=
    changed run (changeArguments table "replace" d hop.interface hop.gateway)
      (fun _ => false) (.replaceFailed d.text hop.interface)
  remove d interface :=
    changed run (changeArguments table "del" d interface none)
      (mentions "No such process".toList) (.deleteFailed d.text interface)

end RouteTable

/-- The result of a command that is not installed. -/
def CommandResult.notInstalled : CommandResult := .absent (OsError.message OsError.notFound)

end RouteKeeper
