import RouteKeeper.Toml.Scalar

/-!
# Reading TOML documents

A document is read in two steps: into its statements, and from these into a table. The second step
keeps the rules about which tables may be extended: a table is named by a header at most once, a
table made by the dots of a key only grows through such keys, and a value never grows.

## Main definitions

* `statements` — the pieces of a document.
* `Node` — a place in a table that is being built.
* `assemble` — the table that statements build.
* `parse?` — a document from end to end.
-/
namespace RouteKeeper.Toml

open Text Text.Reader

/-! ## Statements -/

/-- The most parts of a key. -/
def maxKeyParts : Nat := 79

/-- How deep arrays and inline tables may be nested. -/
def maxDepth : Nat := 79

/-- One name of a key, in quotes or without. -/
def keyName : Reader String := do
  match ← peek with
  | some '"' => basicString
  | some '\'' => literalString
  | _ => return String.ofList (← takeWhile1 isBare)

/-- One name of a key, with the spaces around it. -/
def keyPart : Reader String := do
  spaces
  let name ← keyName
  spaces
  return name

/-- A key, with dots between its names. -/
def key : Reader Key := do
  let parts ← separated keyPart (char '.')
  if parts.length ≤ maxKeyParts then return parts else failure

/-- Spaces, line ends and comments between the items of an array. -/
def arraySpace : Reader Unit := do
  discard (many ((do discard (satisfy isSpace)) <|> newline <|> (do comment; newline)))

/-! ## Tables being built -/

/-- A place in a table that is being built. -/
inductive Node where
  /-- A value; it is complete. -/
  | leaf (value : Value)
  /-- A table. It is implied if no header and no key named it itself, and dotted if the dots of a
  key made it. -/
  | table (implied dotted : Bool) (entries : List (String × Node))
  /-- The tables of an array of tables. -/
  | tables (elements : List (List (String × Node)))

/-- The entries of a table being built. -/
abbrev Entries := List (String × Node)

namespace Entries

/-- The node of a name. -/
def get? (es : Entries) (name : String) : Option Node := (es.find? fun e => e.1 = name).map (·.2)

/-- Give a name a node, in place of the one it had. -/
def put (es : Entries) (name : String) (n : Node) : Entries :=
  if es.any (·.1 = name) then es.map fun e => if e.1 = name then (name, n) else e
  else es ++ [(name, n)]

/-- Forget a name. -/
def drop (es : Entries) (name : String) : Entries := es.filter (·.1 ≠ name)

/-- Change the entries of the table that a path leads to, making the tables that are missing. The
change is told whether that table was made by dots. -/
def descend (dots : Bool) (change : Bool → Entries → Option Entries) :
    Key → Bool → Entries → Option Entries
  | [], dotted, es => change dotted es
  | name :: path, _, es =>
    match (es.get? name).getD (.table true dots []) with
    | .leaf _ => none
    | .tables elements =>
      match elements.getLast? with
      | none => none
      | some last => do
        let last ← descend dots change path false last
        return es.put name (.tables (elements.dropLast ++ [last]))
    | .table implied dotted inner =>
      if dots && !implied then none
      else do
        let inner ← descend dots change path dotted inner
        return es.put name (.table implied dotted inner)

/-- Enter a value at a key, in a table that was made by dots itself or not. With dots in the key the
last table on the way must have been made by dots, and without it must not. -/
def bind (es : Entries) (dotted : Bool) (k : Key) (v : Node) : Option Entries :=
  match k.getLast? with
  | none => none
  | some name =>
    es.descend true
      (fun dotted inner =>
        if dotted == k.dropLast.isEmpty || (inner.get? name).isSome then none
        else some (inner.put name v))
      k.dropLast dotted

end Entries

mutual

/-- The value that a node has come to. -/
def Node.close : Node → Value
  | .leaf v => v
  | .table _ _ es => .table (closeEntries es)
  | .tables elements => .array (closeAll elements)

/-- The values of a table's entries. -/
def closeEntries : List (String × Node) → List (String × Value)
  | [] => []
  | (name, n) :: rest => (name, n.close) :: closeEntries rest

/-- The values of the tables of an array. -/
def closeAll : List (List (String × Node)) → List Value
  | [] => []
  | es :: rest => .table (closeEntries es) :: closeAll rest

end

/-! ## Values -/

/-- An inline table, given how its values are read. -/
def inlineTable (value : Reader Value) : Reader Value := do
  let pair : Reader (Key × Value) := do
    let k ← key
    char '='
    spaces
    let v ← value
    spaces
    return (k, v)
  char '{'
  let pairs := (← optional (separated pair (char ','))).getD []
  spaces
  char '}'
  match pairs.foldlM (fun (es : Entries) kv => es.bind false kv.1 (.leaf kv.2)) [] with
  | some es => return .table (closeEntries es)
  | none => failure

/-- An array, given how its items are read. -/
def array (value : Reader Value) : Reader Value := do
  let item : Reader Value := do
    arraySpace
    let v ← value
    arraySpace
    return v
  char '['
  let items := (← optional (separated item (char ','))).getD []
  if !items.isEmpty then discard (optional (char ','))
  arraySpace
  char ']'
  return .array items

/-- A value with at most so many levels of arrays and inline tables. -/
def value : Nat → Reader Value
  | 0 => scalar
  | depth + 1 => do
    match ← peek with
    | some '[' => array (value depth)
    | some '{' => inlineTable (value depth)
    | _ => scalar

/-- The end of a line after a statement: spaces, perhaps a comment, and a line end or the end of the
document. -/
def lineEnd : Reader Unit := do
  spaces
  discard (optional comment)
  newline <|> atEnd

/-- A header of an array of tables. -/
def arrayHeader : Reader Statement := do
  exactly "[["
  let k ← key
  exactly "]]"
  lineEnd
  return .arrayHeader k

/-- A header of a table. -/
def header : Reader Statement := do
  char '['
  let k ← key
  char ']'
  lineEnd
  return .header k

/-- A key with its value. -/
def binding : Reader Statement := do
  let k ← key
  char '='
  spaces
  let v ← value maxDepth
  lineEnd
  return .binding k v

/-- A statement that starts with the next character. -/
def statementHere : Reader Statement := do
  match ← peek with
  | some '#' => do comment; newline <|> atEnd; return .blank
  | some '\n' | some '\r' => do newline; return .blank
  | some '[' => arrayHeader <|> header
  | _ => binding

/-- A statement, and the spaces at the start of the next line. -/
def statement : Reader Statement := do
  let s ← statementHere
  spaces
  return s

/-- The statements of a document, after a mark of the byte order if there is one. -/
def statements : Reader (List Statement) := do
  discard (optional (char '\uFEFF'))
  spaces
  many statement

/-! ## Documents -/

/-- A document being built: the table that new bindings go to is kept apart from the rest until it
is complete. -/
structure Draft where
  root : Entries
  /-- Where the current table belongs; the document itself has no place. -/
  place : Key
  inArray : Bool
  current : Entries

namespace Draft

/-- Nothing read yet. -/
def empty : Draft := ⟨[], [], false, []⟩

/-- Put the current table in its place. -/
def finish (d : Draft) : Option Entries :=
  match d.place.getLast? with
  | none => some d.current
  | some name =>
    d.root.descend false
      (fun _ es =>
        match d.inArray, es.get? name with
        | true, none => some (es.put name (.tables [d.current]))
        | true, some (.tables elements) => some (es.put name (.tables (elements ++ [d.current])))
        | false, none => some (es.put name (.table false false d.current))
        | false, some (.table true _ _) => some (es.put name (.table false false d.current))
        | _, _ => none)
      d.place.dropLast false

/-- Start a table with a header. What keys of headers before it have put there already is kept; a
table that was named before, or made by dots, is not started again. -/
def startTable (root : Entries) (k : Key) : Option Draft :=
  match k.getLast? with
  | none => none
  | some name => do
    let there ← k.dropLast.foldl
      (fun (es : Option Entries) part =>
        es.bind fun es =>
          match (es.get? part).getD (.table true false []) with
          | .leaf _ => none
          | .tables elements => elements.getLast?
          | .table _ _ inner => some inner)
      (some root)
    let current ← match there.get? name with
      | none => some []
      | some (.table true false inner) => some inner
      | some _ => none
    let root ← root.descend false (fun _ es => some (es.drop name)) k.dropLast false
    return ⟨root, k, false, current⟩

/-- Start a table at the end of an array of tables. -/
def startElement (root : Entries) (k : Key) : Option Draft :=
  match k.getLast? with
  | none => none
  | some name => do
    let root ← root.descend false
      (fun _ es =>
        match es.get? name with
        | none | some (.tables _) => some es
        | some _ => none)
      k.dropLast false
    return ⟨root, k, true, []⟩

/-- Take in a statement. -/
def add (d : Draft) : Statement → Option Draft
  | .blank => some d
  | .binding k v => do return { d with current := ← d.current.bind false k (.leaf v) }
  | .header k => do startTable (← d.finish) k
  | .arrayHeader k => do startElement (← d.finish) k

end Draft

/-- The table that statements build. -/
def assemble (ss : List Statement) : Option Entries := do (← ss.foldlM Draft.add .empty).finish

/-- Read a document. -/
def parse? (cs : List Char) : Option (List (String × Value)) := do
  let ss ← Reader.all? statements cs
  return closeEntries (← assemble ss)

end RouteKeeper.Toml
