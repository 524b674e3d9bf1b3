import RouteKeeper.Address.Text
import RouteKeeper.Prefix

/-!
# Prefixes as text

A prefix is written as its address, a slash and its length. Reading also accepts a lone address,
which means the full length, and for IPv4 a netmask in place of the length.
-/
namespace RouteKeeper.Prefix

/-- Address, slash and length. -/
def text (p : Prefix) : String := p.address.text ++ "/" ++ toString p.length

/-- Read a number below 256 that fills the text: digits, with a plus sign in front at will. -/
def readLength (cs : List Char) : Option Nat :=
  let ds := if cs.head? = some '+' then cs.drop 1 else cs
  if ds.isEmpty || ds.any fun c => (Address.digit? 10 c).isNone then none
  else
    let n := Address.ofDigits 10 ds
    if n < 256 then some n else none

/-- The length of a netmask, if its ones all come before its zeros. -/
def lengthOfMask (mask : Nat) : Option Nat :=
  (List.range 33).find? fun k => mask = 0x100000000 - (1 <<< (32 - k))

/-- The address text and, if there is a slash, what follows it; more than one slash is refused. -/
def splitSlash (cs : List Char) : Option (List Char × Option (List Char)) :=
  let front := cs.takeWhile (· ≠ '/')
  match cs.drop front.length with
  | [] => some (front, none)
  | _ :: back => if back.contains '/' then none else some (front, some back)

/-- Read a prefix of IPv4. -/
def parseV4 (cs : List Char) : Option Prefix := do
  let (front, back) ← splitSlash cs
  let address ← Address.parseV4 front
  let length ←
    match back with
    | none => some 32
    | some mask =>
      match Address.parseV4 mask with
      | some m => lengthOfMask m.toNat
      | none => readLength mask
  ofParts? address length

/-- Read a prefix of IPv6. -/
def parseV6 (cs : List Char) : Option Prefix := do
  let (front, back) ← splitSlash cs
  let address ← Address.parseV6 front
  let length ←
    match back with
    | none => some 128
    | some digits => readLength digits
  ofParts? address length

/-- Read a prefix that fills the text. -/
def parse (s : String) : Option Prefix := parseV4 s.toList <|> parseV6 s.toList

end RouteKeeper.Prefix
