/-!
# Numerals

The parts that the numerals of JSON, of statements and of paths share: runs of digits, signs and
exponents. A reader gives back what it read and the characters that are left.
-/

namespace LiveQuery.Decimal

/-- The longest run of digits, and what follows it. -/
def digitRun (cs : List Char) : List Char × List Char :=
  (cs.takeWhile Char.isDigit, cs.dropWhile Char.isDigit)

def digitsValue (ds : List Char) : Nat := ds.foldl (fun n c => 10 * n + (c.toNat - 48)) 0

/-- A run of at least one digit. -/
def someDigits (cs : List Char) : Option (List Char × List Char) :=
  match digitRun cs with
  | ([], _) => none
  | run => some run

/-- A sign and digits, read as an integer. -/
def signedDigits (cs : List Char) : Option (Int × List Char) :=
  match cs with
  | '-' :: rest => (someDigits rest).map fun (ds, rest) => (-(digitsValue ds : Int), rest)
  | '+' :: rest => (someDigits rest).map fun (ds, rest) => ((digitsValue ds : Int), rest)
  | cs => (someDigits cs).map fun (ds, rest) => ((digitsValue ds : Int), rest)

/-- The exponent, if there is one. -/
def exponentPart (cs : List Char) : Option (Option Int × List Char) :=
  match cs with
  | 'e' :: rest => (signedDigits rest).map fun (e, rest) => (some e, rest)
  | 'E' :: rest => (signedDigits rest).map fun (e, rest) => (some e, rest)
  | cs => some (none, cs)

/-- The number that a text denotes which is a run of digits from its first character to its last. -/
def unsigned? (cs : List Char) : Option Nat :=
  if cs ≠ [] ∧ cs.all Char.isDigit then some (digitsValue cs) else none

/-- The number that a text denotes: decimal digits, with a plus sign in front if one likes, for a
number below a limit. -/
def unsignedBelow? (limit : Nat) (cs : List Char) : Option Nat :=
  let digits := match cs with
    | '+' :: rest => rest
    | cs => cs
  (unsigned? digits).filter (· < limit)

/-- The number `2⁶³`, the first that does not fit into 64 bits with a sign. -/
def wordLimit : Nat := Nat.pow 2 63

def fitsWord (n : Int) : Bool := -(wordLimit : Int) ≤ n ∧ n < wordLimit

end LiveQuery.Decimal
