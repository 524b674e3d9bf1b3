/-!
# TOML documents as values

A document is a table. Of dates and times only their place in the document matters here, so that all
of them are one value.
-/
namespace RouteKeeper.Toml

/-- A value of a document. -/
inductive Value where
  | text (s : String)
  | integer (i : Int)
  | float (x : Float)
  | boolean (b : Bool)
  | dateTime
  | array (items : List Value)
  | table (entries : List (String × Value))

/-- A key with dots: the names of tables, and a last name. -/
abbrev Key := List String

/-- What a document says, piece by piece. -/
inductive Statement where
  /-- Nothing: an empty line or a comment. -/
  | blank
  /-- The line `[key]`: what follows is about this table. -/
  | header (key : Key)
  /-- The line `[[key]]`: what follows is about a new table at the end of this array. -/
  | arrayHeader (key : Key)
  /-- The line `key = value`. -/
  | binding (key : Key) (value : Value)

end RouteKeeper.Toml
