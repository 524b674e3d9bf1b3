/-!
# Writing TOML strings

A string is written between double quotes if it needs no escapes there, else between single quotes
if it can stand there, else between three double or three single quotes on the same terms, and
else with escapes, between three double quotes if it has several lines.

## Main definitions

* `writeString` — a string in the form that suits it.
-/
namespace RouteKeeper.Toml

/-- A control character that cannot stand for itself anywhere. -/
def needsCode (c : Char) : Bool := (c.toNat < 0x20 && c ≠ '\t' && c ≠ '\n') || c.toNat = 0x7F

/-- The length of the longest run of a character. -/
def longestRun (q : Char) (cs : List Char) : Nat :=
  (cs.foldl
    (fun (run : Nat × Nat) c => if c = q then (run.1 + 1, max run.2 (run.1 + 1)) else (0, run.2))
    (0, 0)).2

/-- Four hexadecimal digits. -/
def hexCode (n : Nat) : List Char :=
  let ds := Nat.toDigits 16 n
  (List.replicate (4 - ds.length) '0' ++ ds).map Char.toUpper

/-- The escape of a character that has one wherever escapes are. -/
def escapeOf (c : Char) : List Char :=
  match c with
  | '\x08' => ['\\', 'b']
  | '\t' => ['\\', 't']
  | '\n' => ['\\', 'n']
  | '\x0C' => ['\\', 'f']
  | '\r' => ['\\', 'r']
  | '\\' => ['\\', '\\']
  | c => if needsCode c then '\\' :: 'u' :: hexCode c.toNat else [c]

/-- Characters with escapes, for a string that may have line ends or not and in which up to so many
double quotes may follow each other; the last argument counts those that just did. -/
def escaped (lines : Bool) (most : Nat) : List Char → Nat → List Char
  | [], _ => []
  | c :: rest, run =>
    if c = '"' then
      if run < most then '"' :: escaped lines most rest (run + 1)
      else '\\' :: '"' :: escaped lines most rest 0
    else if lines && c = '\n' then '\n' :: escaped lines most rest 0
    else escapeOf c ++ escaped lines most rest 0

/-- The four forms of a string. -/
inductive StringForm where
  | basic
  | literal
  | longBasic
  | longLiteral
deriving DecidableEq

/-- The form that suits a string. -/
def formOf (cs : List Char) : StringForm :=
  let coded := cs.any needsCode
  let backslash := cs.contains '\\'
  let lines := cs.contains '\n'
  let doubles := longestRun '"' cs
  let singles := longestRun '\'' cs
  if !coded && !backslash && doubles = 0 && !lines then .basic
  else if !coded && singles = 0 && !lines then .literal
  else if !coded && !backslash && doubles ≤ 2 then .longBasic
  else if !coded && singles ≤ 2 then .longLiteral
  else if lines then .longBasic
  else .basic

/-- The inside of a string with several lines starts on a new one. -/
def opening (cs : List Char) : List Char := if cs.contains '\n' then ['\n'] else []

/-- A string in the form that suits it. -/
def writeString (s : String) : String :=
  let cs := s.toList
  String.ofList <|
    match formOf cs with
    | .basic => ['"'] ++ escaped false 0 cs 0 ++ ['"']
    | .literal => ['\''] ++ cs ++ ['\'']
    | .longBasic =>
      ['"', '"', '"'] ++ opening cs ++ escaped true 2 cs 0 ++ ['"', '"', '"']
    | .longLiteral => ['\'', '\'', '\''] ++ opening cs ++ cs ++ ['\'', '\'', '\'']

end RouteKeeper.Toml
