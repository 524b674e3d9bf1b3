/-!
# Readers

A reader takes characters from the front of a text and returns a value and the rest, or fails. A
choice of two readers starts the second where the first did.
-/
namespace RouteKeeper.Text

/-- A reader of values of a type. -/
abbrev Reader (α : Type) := StateT (List Char) Option α

namespace Reader

/-- The next character, which stays where it is. -/
def peek : Reader (Option Char) := fun cs => some (cs.head?, cs)

/-- One character that passes a test. -/
def satisfy (p : Char → Bool) : Reader Char
  | c :: rest => if p c then some (c, rest) else none
  | [] => none

/-- One given character. -/
def char (c : Char) : Reader Unit := do discard (satisfy (· = c))

/-- The given characters in a row. -/
def exactly (s : String) : Reader Unit := s.toList.forM char

/-- All leading characters that pass a test. -/
def takeWhile (p : Char → Bool) : Reader (List Char) := fun cs => some (cs.span p)

/-- All leading characters that pass a test, at least one. -/
def takeWhile1 (p : Char → Bool) : Reader (List Char) := do
  let c ← satisfy p
  return c :: (← takeWhile p)

/-- So many characters that pass a test. -/
def exactlyMany (p : Char → Bool) : Nat → Reader (List Char)
  | 0 => pure []
  | n + 1 => do
    let c ← satisfy p
    return c :: (← exactlyMany p n)

/-- The end of the text. -/
def atEnd : Reader Unit
  | [] => some ((), [])
  | _ :: _ => none

/-- Values in a row, up to as many as the first argument has items, behind those read already, the
last of which comes first. -/
def manyAfter {α : Type} (r : Reader α) : List Char → List α → Reader (List α)
  | [], read, cs => some (read.reverse, cs)
  | _ :: fuel, read, cs =>
    match r cs with
    | none => some (read.reverse, cs)
    | some (a, rest) => manyAfter r fuel (a :: read) rest

/-- As many values in a row as there are. A reader that takes a character each time cannot read more
values than there are characters. -/
def many {α : Type} (r : Reader α) : Reader (List α) := fun cs => manyAfter r cs [] cs

/-- One value or more with separators between them. -/
def separated {α : Type} (r : Reader α) (separator : Reader Unit) : Reader (List α) := do
  let a ← r
  return a :: (← many (do separator; r))

/-- Read a text from end to end. -/
def all? {α : Type} (r : Reader α) (cs : List Char) : Option α :=
  match r cs with
  | some (a, []) => some a
  | _ => none

end Reader

end RouteKeeper.Text
