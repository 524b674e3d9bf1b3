import RouteKeeper.Decimal.Binary64
import RouteKeeper.Text.Reader
import RouteKeeper.Toml.Value

/-!
# Strings, numbers and dates in TOML

Strings come in four kinds: in double quotes with escapes or in single quotes without, each on one
line or, in tripled quotes, on several. Numbers may have underscores between digits.
-/
namespace RouteKeeper.Toml

open Text Text.Reader

/-! ## Characters -/

/-- A space or a tab. -/
def isSpace (c : Char) : Bool := c = ' ' || c = '\t'

/-- A character that may stand for itself on one line: anything but control characters, and tabs. -/
def isPlain (c : Char) : Bool := c = '\t' || (c.toNat ≥ 0x20 && c.toNat ≠ 0x7F)

/-- A character of a key without quotes. -/
def isBare (c : Char) : Bool :=
  let n := c.toNat
  (48 ≤ n && n ≤ 57) || (65 ≤ n && n ≤ 90) || (97 ≤ n && n ≤ 122) || c = '_' || c = '-'

/-- Skip spaces and tabs. -/
def spaces : Reader Unit := do discard (takeWhile isSpace)

/-- A line end: a line feed, perhaps after a carriage return. -/
def newline : Reader Unit := char '\n' <|> (do char '\r'; char '\n')

/-- A comment, up to the end of its line. -/
def comment : Reader Unit := do
  char '#'
  discard (takeWhile isPlain)

/-- The value of a digit in a base up to sixteen. -/
def digitValue? (base : Nat) (c : Char) : Option Nat :=
  let n := c.toNat
  let value :=
    if 48 ≤ n && n ≤ 57 then n - 48
    else if 97 ≤ n && n ≤ 102 then n - 87
    else if 65 ≤ n && n ≤ 70 then n - 55
    else 16
  if value < base then some value else none

/-- A digit in a base up to sixteen. -/
def isDigitIn (base : Nat) (c : Char) : Bool := (digitValue? base c).isSome

/-- The number that digits stand for. -/
def numberOf (base : Nat) (ds : List Char) : Nat :=
  ds.foldl (fun n c => n * base + (digitValue? base c).getD 0) 0

/-! ## Strings -/

/-- The character of a code point, if it has one. -/
def character? (n : Nat) : Option Char :=
  if n < 0xD800 || (0xE000 ≤ n && n ≤ 0x10FFFF) then some (Char.ofNat n) else none

/-- The character that an escape stands for, after its backslash. -/
def escape : Reader Char := do
  let hex (count : Nat) : Reader Char := do
    let ds ← exactlyMany (isDigitIn 16) count
    match character? (numberOf 16 ds) with
    | some c => return c
    | none => failure
  match ← satisfy fun _ => true with
  | 'b' => return '\x08'
  | 't' => return '\t'
  | 'n' => return '\n'
  | 'f' => return '\x0C'
  | 'r' => return '\r'
  | '"' => return '"'
  | '\\' => return '\\'
  | 'u' => hex 4
  | 'U' => hex 8
  | _ => failure

/-- A string in double quotes on one line. -/
def basicString : Reader String := do
  char '"'
  let cs ← many ((satisfy fun c => isPlain c && c ≠ '"' && c ≠ '\\') <|> (do char '\\'; escape))
  char '"'
  return String.ofList cs

/-- A string in single quotes on one line. -/
def literalString : Reader String := do
  char '\''
  let cs ← takeWhile fun c => isPlain c && c ≠ '\''
  char '\''
  return String.ofList cs

/-- The end of a string in tripled quotes: three quotes, after up to two more that belong to the
string. -/
def closing (quote : Char) : Reader (List Char) := do
  let qs ← takeWhile (· = quote)
  if 3 ≤ qs.length && qs.length ≤ 5 then return qs.drop 3 else failure

/-- One or two quotes inside a string in tripled quotes. -/
def innerQuotes (quote : Char) : Reader (List Char) := do
  let qs ← takeWhile (· = quote)
  if 1 ≤ qs.length && qs.length ≤ 2 then return qs else failure

/-- A backslash at the end of a line takes away the line end and the white space after it. -/
def lineContinuation : Reader (List Char) := do
  char '\\'
  spaces
  newline
  discard (many (newline <|> (do discard (satisfy isSpace))))
  return []

/-- A string in tripled quotes, given how a piece of its inside other than quotes is read. A line
end right after the opening is no part of the string. -/
def longString (quote : Char) (piece : Reader (List Char)) : Reader String := do
  discard (exactlyMany (· = quote) 3)
  discard (optional newline)
  let inside ← many (piece <|> innerQuotes quote)
  let rest ← closing quote
  return String.ofList (inside.flatten ++ rest)

/-- A string in tripled double quotes. -/
def longBasicString : Reader String :=
  longString '"' <|
    takeWhile1 (fun c => isPlain c && c ≠ '"' && c ≠ '\\') <|>
      (do newline; return ['\n']) <|> lineContinuation <|> (do char '\\'; return [← escape])

/-- A string in tripled single quotes. -/
def longLiteralString : Reader String :=
  longString '\'' <|
    takeWhile1 (fun c => isPlain c && c ≠ '\'') <|> (do newline; return ['\n'])

/-- A string of any kind. -/
def string : Reader String :=
  longBasicString <|> basicString <|> longLiteralString <|> literalString

/-! ## Numbers -/

/-- Digits, with single underscores between them at will. -/
def digits (base : Nat) : Reader (List Char) := do
  let c ← satisfy (isDigitIn base)
  let rest ← many ((satisfy (isDigitIn base)) <|> (do char '_'; satisfy (isDigitIn base)))
  return c :: rest

/-- A sign; true for minus. -/
def sign : Reader Bool := do
  match ← optional (satisfy fun c => c = '+' || c = '-') with
  | some c => return c = '-'
  | none => return false

/-- Decimal digits without a leading zero. -/
def decimalDigits : Reader (List Char) := do
  match ← peek with
  | some '0' => do char '0'; return ['0']
  | _ => digits 10

/-- An integer of 64 bits. -/
def within64 (i : Int) : Option Int :=
  if -0x8000000000000000 ≤ i && i < 0x8000000000000000 then some i else none

/-- An integer: decimal with a sign, or hexadecimal, octal or binary. -/
def integer : Reader Int := do
  let based (mark : String) (base : Nat) : Reader Int := do
    exactly mark
    return (numberOf base (← digits base) : Nat)
  let decimal : Reader Int := do
    let negative ← sign
    let n : Int := (numberOf 10 (← decimalDigits) : Nat)
    return if negative then -n else n
  match within64 (← based "0x" 16 <|> based "0o" 8 <|> based "0b" 2 <|> decimal) with
  | some i => return i
  | none => failure

/-- The digits after a point. -/
def fraction : Reader (List Char) := do char '.'; digits 10

/-- A decimal exponent. -/
def exponent : Reader Int := do
  discard (satisfy fun c => c = 'e' || c = 'E')
  let negative ← sign
  let n : Int := (numberOf 10 (← digits 10) : Nat)
  return if negative then -n else n

/-- A number with a point, an exponent or both. One that is too large to be finite is refused if
it is positive. -/
def decimalFloat : Reader Float := do
  let negative ← sign
  let whole ← decimalDigits
  let part ← optional fraction
  let e ← if part.isSome then (return (← optional exponent).getD 0) else exponent
  let places := part.getD []
  let x := Binary64.ofDecimal negative (numberOf 10 (whole ++ places)) (e - places.length)
  if Binary64.ofFloat x = .infinite false then failure else return x

/-- Infinity or no number at all, by name. -/
def namedFloat : Reader Float := do
  let negative ← sign
  let x : Float ← (do exactly "inf"; return 1.0 / 0.0) <|> (do exactly "nan"; return 0.0 / 0.0)
  return if negative then -x else x

/-! ## Dates and times -/

/-- A number of so many digits in a range. -/
def fixedNumber (count low high : Nat) : Reader Nat := do
  let n := numberOf 10 (← exactlyMany (isDigitIn 10) count)
  if low ≤ n && n ≤ high then return n else failure

/-- The days of a month. -/
def daysIn (year month : Nat) : Nat :=
  if month = 2 then
    if year % 4 = 0 && (year % 100 ≠ 0 || year % 400 = 0) then 29 else 28
  else if month = 4 || month = 6 || month = 9 || month = 11 then 30
  else 31

/-- A day of the calendar. -/
def date : Reader Unit := do
  let year ← fixedNumber 4 0 9999
  char '-'
  let month ← fixedNumber 2 1 12
  char '-'
  discard (fixedNumber 2 1 (daysIn year month))

/-- A time of day, with seconds. -/
def time : Reader Unit := do
  discard (fixedNumber 2 0 23)
  char ':'
  discard (fixedNumber 2 0 59)
  char ':'
  discard (fixedNumber 2 0 60)
  discard (optional (do char '.'; takeWhile1 (isDigitIn 10)))

/-- A distance from universal time. -/
def offset : Reader Unit :=
  (do discard (satisfy fun c => c = 'Z' || c = 'z')) <|> do
    discard (satisfy fun c => c = '+' || c = '-')
    discard (fixedNumber 2 0 23)
    char ':'
    discard (fixedNumber 2 0 59)

/-- A date, a time, or both, these with or without an offset. -/
def dateTime : Reader Unit :=
  (do
    date
    discard (optional do
      discard (satisfy fun c => c = 'T' || c = 't' || c = ' ')
      time
      discard (optional offset))) <|> time

/-- A value without parts. -/
def scalar : Reader Value := do
  match ← peek with
  | some '"' | some '\'' => return .text (← string)
  | some 't' => do exactly "true"; return .boolean true
  | some 'f' => do exactly "false"; return .boolean false
  | _ =>
    (do dateTime; return .dateTime) <|> (do return .float (← decimalFloat)) <|>
      (do return .float (← namedFloat)) <|> (do return .integer (← integer))

end RouteKeeper.Toml
