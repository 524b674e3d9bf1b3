/-!
# White space, words and lines

The characters that Unicode lists as `White_Space`, and what follows from them: trimming a text
and cutting it into words. Lines end at a line feed.
-/
namespace RouteKeeper.Text

/-- The characters with the Unicode property `White_Space`. -/
def isBlank (c : Char) : Bool :=
  let n := c.toNat
  (9 ≤ n && n ≤ 13) || n == 0x20 || n == 0x85 || n == 0xA0 || n == 0x1680 ||
    (0x2000 ≤ n && n ≤ 0x200A) || n == 0x2028 || n == 0x2029 || n == 0x202F || n == 0x205F ||
    n == 0x3000

/-- Drop white space at both ends. -/
def trim (cs : List Char) : List Char :=
  ((cs.dropWhile isBlank).reverse.dropWhile isBlank).reverse

/-- The parts of a list between the elements that pass a test; there is always at least one. -/
def cutWhere {α : Type} (p : α → Bool) : List α → List (List α)
  | [] => [[]]
  | c :: r =>
    if p c then [] :: cutWhere p r
    else
      match cutWhere p r with
      | [] => [[c]]
      | q :: qs => (c :: q) :: qs

theorem cutWhere_ne_nil {α : Type} (p : α → Bool) (l : List α) : cutWhere p l ≠ [] := by
  cases l with
  | nil => simp [cutWhere]
  | cons c r =>
    unfold cutWhere
    split
    · simp
    · split <;> simp

/-- The maximal runs without white space. -/
def words (cs : List Char) : List (List Char) := (cutWhere isBlank cs).filter (!·.isEmpty)

/-- The parts between line feeds. A carriage return before one stays; it is white space. -/
def lines (cs : List Char) : List (List Char) := cutWhere (· == '\n') cs

end RouteKeeper.Text
