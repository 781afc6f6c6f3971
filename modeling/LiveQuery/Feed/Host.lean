import LiveQuery.Decimal.Numeral
import LiveQuery.Text.Hexadecimal

/-!
# Hosts

The host of an address is the number of a machine or its name. Numbers are of version 4, with 32
bits, or of version 6, with 128. A text that is neither a number nor a name stands for no machine,
and nobody has to be asked about it.
-/

namespace LiveQuery.Feed

inductive Host where
  | v4 (number : Nat)
  /-- The zone tells apart the networks in which a number may be in use. -/
  | v6 (number : Nat) (zone : Nat)
  | name (text : String)
deriving DecidableEq, Repr

namespace Host

/-! ## Numbers of version 4 -/

/-- A part of a number: in base sixteen behind a zero and an x, in base eight behind a zero alone,
and else in base ten. -/
def part? (cs : List Char) : Option Nat :=
  match cs with
  | '0' :: 'x' :: ds => Text.numberIn? 16 ds
  | '0' :: 'X' :: ds => Text.numberIn? 16 ds
  | '0' :: ds => Text.numberIn? 8 ('0' :: ds)
  | ds => Text.numberIn? 10 ds

/-- A number in one to four parts with points between them. Each part but the last one is a byte,
and the last one fills what is left of the 32 bits. -/
def number4? (cs : List Char) : Option Nat := do
  let parts ← (cs.splitOn '.').mapM part?
  let last ← parts.getLast?
  let bytes := parts.dropLast
  let room := Nat.pow 256 (4 - bytes.length)
  if bytes.length ≤ 3 ∧ bytes.all (· < 256) ∧ last < room then
    pure (bytes.foldl (fun n b => 256 * n + b) 0 * room + last)
  else none

/-! ## Numbers of version 6 -/

/-- A byte in base ten, without leading zeros. -/
def byte? (cs : List Char) : Option Nat :=
  match cs with
  | '0' :: _ :: _ => none
  | cs => (Decimal.unsigned? cs).filter (· < 256)

/-- Four bytes with points between them, as two groups. -/
def byteGroups? (cs : List Char) : Option (List Nat) := do
  match ← (cs.splitOn '.').mapM byte? with
  | [a, b, c, d] => pure [256 * a + b, 256 * c + d]
  | _ => none

/-- A group: up to four hexadecimal digits. -/
def group? (cs : List Char) : Option Nat := if cs.length ≤ 4 then Text.hexNumber? cs else none

/-- Groups with colons between them. The last two may be written as bytes if `bytes` is set. -/
def groups? (bytes : Bool) (cs : List Char) : Option (List Nat) :=
  if cs = [] then some []
  else do
    let pieces := cs.splitOn ':'
    let last ← pieces.getLast?
    let front ← pieces.dropLast.mapM group?
    let back ← (group? last).map ([·]) <|> if bytes then byteGroups? last else none
    pure (front ++ back)

/-- Cuts a text at the first two colons in a row. -/
def cutAtGap : List Char → Option (List Char × List Char)
  | ':' :: ':' :: rest => some ([], rest)
  | c :: rest => (cutAtGap rest).map fun (front, back) => (c :: front, back)
  | [] => none

/-- Eight groups, where two colons in a row stand for as many zeros as are missing, and for one at
least. -/
def eightGroups? (cs : List Char) : Option (List Nat) :=
  match cutAtGap cs with
  | none => (groups? true cs).filter (·.length = 8)
  | some (front, back) => do
    let front ← groups? false front
    let back ← groups? true back
    let missing := 8 - (front.length + back.length)
    if missing = 0 then none else pure (front ++ List.replicate missing 0 ++ back)

/-- A zone: nothing, or a number of 32 bits behind a percent sign. -/
def zone? (cs : List Char) : Option Nat :=
  match cs with
  | [] => some 0
  | _ :: ds => (Decimal.unsigned? ds).filter (· < Nat.pow 2 32)

/-- A number of version 6 with its zone. -/
def number6? (cs : List Char) : Option Host := do
  let groups ← eightGroups? (cs.takeWhile (· != '%'))
  let zone ← zone? (cs.dropWhile (· != '%'))
  pure (.v6 (groups.foldl (fun n g => 65536 * n + g) 0) zone)

/-! ## Names -/

/-- The characters of a name, apart from the points. -/
def isNameChar (c : Char) : Bool := c.isAlphanum || c == '-' || c == '_'

/-- A text in which each backslash is resolved: it stands in front of a character that counts as
itself, or of the three digits of a character's number. -/
def resolved? : List Char → Option (List Char)
  | [] => some []
  | ['\x5c'] => none
  | '\x5c' :: a :: rest =>
    if a.isDigit then
      match rest with
      | b :: c :: rest =>
        if b.isDigit && c.isDigit && isNameChar (Char.ofNat (Decimal.digitsValue [a, b, c])) then
          (resolved? rest).map (Char.ofNat (Decimal.digitsValue [a, b, c]) :: ·)
        else none
      | _ => none
    else if isNameChar a then (resolved? rest).map (a :: ·)
    else none
  | c :: rest => (resolved? rest).map (c :: ·)

/-- The labels of a name, which have points between them. A point may stand behind the last one, and
alone it is a name without labels. -/
def labels (cs : List Char) : List (List Char) :=
  let cs := if cs.getLast? = some '.' then cs.dropLast else cs
  if cs = [] then [] else cs.splitOn '.'

/-- A name: labels of at most 63 characters, with at most 253 in all if the points between them
count, which does not begin with a hyphen. -/
def name? (cs : List Char) : Option Host := do
  let plain ← resolved? cs
  let labels := labels plain
  if plain ≠ [] ∧ plain.head? ≠ some '-' ∧ labels.flatten.length + labels.length ≤ 254 ∧
      labels.all fun l => l ≠ [] && l.length ≤ 63 && l.all isNameChar then
    pure (.name (String.ofList cs))
  else none

/-! ## All hosts -/

def parse? (cs : List Char) : Option Host :=
  (number4? cs).map .v4 <|> number6? cs <|> name? cs

/-- Whether a number of version 6 is one of version 4 in disguise. -/
def isMapped (number : Nat) : Bool := number / Nat.pow 2 32 == 0xffff

/-- Whether a number of version 6 is that of a group of machines. -/
def isMulticast (number : Nat) : Bool := number / Nat.pow 2 120 == 0xff

/-- Whether a number of version 6 counts only in one network, which its zone has to tell. -/
def isLinkLocal (number : Nat) : Bool := number / Nat.pow 2 118 == 0x3fa

/-- What a machine whose network is down says to a dial. It has no place of version 6 to dial from,
and it knows no name but its own. -/
def withoutNetwork : Host → String
  | .v4 _ => "Network is unreachable (os error 101)"
  | .v6 number zone =>
    if isMapped number || isMulticast number then "Network is unreachable (os error 101)"
    else if isLinkLocal number && zone == 0 then "Invalid argument (os error 22)"
    else "Cannot assign requested address (os error 99)"
  | .name text =>
    if text.toLower = "localhost" then "Network is unreachable (os error 101)"
    else "failed to lookup address information: Temporary failure in name resolution"

end Host

end LiveQuery.Feed
