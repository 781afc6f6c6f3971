import LiveQuery.Decimal.Shortest

/-!
# How a number is laid out

The digits of a number come from `Binary.shortest`; a `Layout` says how they are written. Two
layouts are in use: `jsonNumber` for numbers inside JSON text and `plainNumber` for the text of a
value on its own. Neither writes more digits than reading back needs.
-/

namespace LiveQuery.Decimal

/-- The decisions of a number format. -/
structure Layout where
  /-- Of two equally near shortest decimals, which one is written. -/
  tie : Tie
  /-- Whether a number whose first digit has this exponent is written without an exponent. -/
  positional : Int → Bool
  /-- Written behind a whole number in positional notation. -/
  wholeEnd : String
  notANumber : String
  /-- The infinities, by whether they are negative. -/
  infinite : Bool → String

/-- Numbers in JSON text: positional from `10⁻⁵` to below `10¹⁶`, and a whole number shows that it
is not an integer. Numbers that are not finite have no JSON text of their own and are written
`null`. -/
def Layout.jsonNumber : Layout where
  tie := .even
  positional e := -5 ≤ e ∧ e ≤ 15
  wholeEnd := ".0"
  notANumber := "null"
  infinite _ := "null"

/-- Numbers as plain text: never an exponent, and no mark on whole numbers. -/
def Layout.plainNumber : Layout where
  tie := .up
  positional _ := true
  wholeEnd := ""
  notANumber := "NaN"
  infinite negative := if negative then "-inf" else "inf"

def zeros (n : Nat) : String := String.ofList (List.replicate n '0')

/-- `digits · 10^exponent` without an exponent. -/
def Digits.positional (wholeEnd : String) (d : Digits) : String :=
  let text := Nat.repr d.digits
  match d.exponent with
  | .ofNat e => text ++ zeros (if d.digits = 0 then 0 else e) ++ wholeEnd
  | .negSucc e =>
    let places := e + 1
    let cs := text.toList
    if cs.length ≤ places then "0." ++ zeros (places - cs.length) ++ text
    else
      String.ofList (cs.take (cs.length - places)) ++ "."
        ++ String.ofList (cs.drop (cs.length - places))

/-- One digit, a point and the other digits if there are any, and a signed exponent. -/
def Digits.scientific (d : Digits) : String :=
  let cs := (Nat.repr d.digits).toList
  let leading := d.exponent + (cs.length - 1 : Nat)
  let fraction := if cs.length ≤ 1 then "" else "." ++ String.ofList (cs.drop 1)
  let exponent := (if leading < 0 then "-" else "+") ++ Nat.repr leading.natAbs
  String.ofList (cs.take 1) ++ fraction ++ "e" ++ exponent

def Layout.size (l : Layout) (x : Binary) : String :=
  let d := x.shortest l.tie
  if l.positional (d.exponent + (digitCount d.digits - 1 : Nat)) then d.positional l.wholeEnd
  else d.scientific

def Layout.text (l : Layout) (x : Float) : String :=
  match decode x with
  | .notANumber => l.notANumber
  | .infinite negative => l.infinite negative
  | .finite negative size => if negative then "-" ++ l.size size else l.size size

end LiveQuery.Decimal
