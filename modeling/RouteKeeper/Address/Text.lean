import RouteKeeper.Address

/-!
# Addresses as text

IPv4 addresses are four decimal numbers with points. IPv6 addresses are written with the longest
run of zero groups (the first of equals, at least two) as `::`, lower-case digits and no leading
zeros; an address that stands for an IPv4 address is written `::ffff:a.b.c.d`. Reading accepts in
addition leading zeros in groups, upper case and an IPv4 address in place of the last two groups.
-/
namespace RouteKeeper.Address

/-! ## Writing -/

/-- The eight bits that end `shift` bits above the lowest. -/
def octet (n shift : Nat) : Nat := (n >>> shift) % 256

/-- Four decimal numbers with points between them. -/
def dotted (n : Nat) : String :=
  ".".intercalate ([24, 16, 8, 0].map fun shift => toString (octet n shift))

/-- The eight groups of sixteen bits, highest first. -/
def groups (n : Nat) : List Nat :=
  [112, 96, 80, 64, 48, 32, 16, 0].map fun shift => (n >>> shift) % 65536

/-- The length of the run of zeros at the start of a list. -/
def zeroRun (l : List Nat) : Nat := (l.takeWhile (· == 0)).length

/-- The start and length of the longest run of zeros, the first of equals. -/
def longestZeroRun (l : List Nat) : Nat × Nat :=
  (List.range l.length).foldl
    (fun best i => if zeroRun (l.drop i) > best.2 then (i, zeroRun (l.drop i)) else best) (0, 0)

/-- Groups in hexadecimal with colons between them. -/
def colonText (l : List Nat) : String :=
  ":".intercalate (l.map fun g => String.ofList (Nat.toDigits 16 g))

/-- The standard text of an address. -/
def text : Address → String
  | v4 b => dotted b.toNat
  | v6 b =>
    if b.toNat >>> 32 = 0xFFFF then "::ffff:" ++ dotted (b.toNat % 0x100000000)
    else
      let gs := groups b.toNat
      let (start, length) := longestZeroRun gs
      if length > 1 then colonText (gs.take start) ++ "::" ++ colonText (gs.drop (start + length))
      else colonText gs

/-! ## Reading

Each reader takes the characters that it needs from the front and returns the rest. -/

/-- The value of a digit in a base up to sixteen. -/
def digit? (base : Nat) (c : Char) : Option Nat :=
  let n := c.toNat
  let value :=
    if 48 ≤ n && n ≤ 57 then n - 48
    else if 97 ≤ n && n ≤ 102 then n - 87
    else if 65 ≤ n && n ≤ 70 then n - 55
    else 16
  if value < base then some value else none

/-- The number that a run of digits stands for. -/
def ofDigits (base : Nat) (ds : List Char) : Nat :=
  ds.foldl (fun n c => n * base + (digit? base c).getD 0) 0

/-- Read all leading digits, at least one and at most `most`. -/
def readNumber (base most : Nat) (leadingZero : Bool) (cs : List Char) :
    Option (Nat × List Char) :=
  let ds := cs.takeWhile fun c => (digit? base c).isSome
  if ds.isEmpty || ds.length > most || (!leadingZero && ds.length > 1 && ds.head? == some '0') then
    none
  else some (ofDigits base ds, cs.drop ds.length)

/-- Read one given character. -/
def readChar (c : Char) : List Char → Option (List Char)
  | d :: rest => if c = d then some rest else none
  | [] => none

/-- Read a decimal number below 256 without leading zeros. -/
def readOctet (cs : List Char) : Option (Nat × List Char) := do
  let (n, rest) ← readNumber 10 3 false cs
  if n < 256 then some (n, rest) else none

/-- Read four octets with points between them. -/
def readDotted (cs : List Char) : Option (Nat × List Char) := do
  let (a, cs) ← readOctet cs
  let (b, cs) ← readOctet (← readChar '.' cs)
  let (c, cs) ← readOctet (← readChar '.' cs)
  let (d, cs) ← readOctet (← readChar '.' cs)
  some (((a * 256 + b) * 256 + c) * 256 + d, cs)

/-- Groups read so far, whether they end in an IPv4 address, and what follows. -/
structure GroupRun where
  groups : List Nat
  dotted : Bool
  rest : List Char

/-- Read at most `room` groups; `first` tells that no colon comes before the next one. Where two
groups have room an IPv4 address may stand, and ends the run. -/
def readGroups (first : Bool) : Nat → List Char → GroupRun
  | 0, cs => ⟨[], false, cs⟩
  | room + 1, cs =>
    let start := if first then some cs else readChar ':' cs
    let embedded := if room ≥ 1 then start.bind readDotted else none
    match embedded with
    | some (n, rest) => ⟨[n / 65536, n % 65536], true, rest⟩
    | none =>
      match start.bind (readNumber 16 4 true) with
      | none => ⟨[], false, cs⟩
      | some (g, rest) =>
        let more := readGroups false room rest
        { more with groups := g :: more.groups }

/-- The number whose sixteen-bit groups are given, highest first. -/
def ofGroups (gs : List Nat) : Nat := gs.foldl (fun n g => n * 65536 + g) 0

/-- Read the eight groups of an IPv6 address, `::` standing for one group of zeros or more. -/
def readV6 (cs : List Char) : Option (Nat × List Char) :=
  let head := readGroups true 8 cs
  if head.groups.length = 8 then some (ofGroups head.groups, head.rest)
  else if head.dotted then none
  else do
    let rest ← readChar ':' (← readChar ':' head.rest)
    let tail := readGroups true (7 - head.groups.length) rest
    let missing := 8 - head.groups.length - tail.groups.length
    some (ofGroups (head.groups ++ List.replicate missing 0 ++ tail.groups), tail.rest)

/-- Read an IPv4 address that fills the text. -/
def parseV4 (cs : List Char) : Option Address :=
  match readDotted cs with
  | some (n, []) => some (v4 (BitVec.ofNat 32 n))
  | _ => none

/-- Read an IPv6 address that fills the text. -/
def parseV6 (cs : List Char) : Option Address :=
  match readV6 cs with
  | some (n, []) => some (v6 (BitVec.ofNat 128 n))
  | _ => none

/-- Read an address that fills the text. -/
def parse (s : String) : Option Address := parseV4 s.toList <|> parseV6 s.toList

end RouteKeeper.Address
