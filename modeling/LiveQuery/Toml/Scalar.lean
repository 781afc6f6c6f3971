import LiveQuery.Decimal.Nearest
import LiveQuery.Decimal.Numeral
import LiveQuery.Toml.Basic

/-!
# Numbers, dates and truth values of TOML

A scalar without quotes is a run of letters, digits and a few signs. What it denotes is decided on
the whole run: no scalar is a part of a longer run.
-/

namespace LiveQuery.Toml

open Decimal (digitsValue)

/-- The characters of a scalar without quotes. -/
def isScalarChar (c : Char) : Bool :=
  c.isAlphanum || c == '+' || c == '-' || c == '_' || c == '.' || c == ':'

/-- Digits in groups: each underscore stands between two digits. Gives the digits alone. -/
def groupedDigits? (isDigit : Char → Bool) : List Char → Option (List Char)
  | [] => none
  | [c] => if isDigit c then some [c] else none
  | c :: '_' :: rest => if isDigit c then (groupedDigits? isDigit rest).map (c :: ·) else none
  | c :: d :: rest => if isDigit c then (groupedDigits? isDigit (d :: rest)).map (c :: ·) else none

/-- Grouped digits without leading zeros. -/
def wholeDigits? (cs : List Char) : Option (List Char) :=
  match groupedDigits? Char.isDigit cs with
  | some ['0'] => some ['0']
  | some ('0' :: _) => none
  | found => found

/-- A sign, and what follows it. -/
def splitSign (cs : List Char) : Bool × List Char :=
  match cs with
  | '-' :: rest => (true, rest)
  | '+' :: rest => (false, rest)
  | cs => (false, cs)

/-- The value of a digit in any base up to sixteen. -/
def digitValue (c : Char) : Nat :=
  if c.isDigit then c.toNat - 48 else c.toLower.toNat - 87

/-- Whether a character is a digit of a base up to sixteen. -/
def isDigitOf (base : Nat) (c : Char) : Bool :=
  (c.isDigit || ('a' ≤ c && c ≤ 'f') || ('A' ≤ c && c ≤ 'F')) && digitValue c < base

/-- A number in the base that its mark says. It has no sign. -/
def marked? (base : Nat) (cs : List Char) : Option Int :=
  (groupedDigits? (isDigitOf base) cs).map fun ds =>
    ((ds.foldl (fun n c => base * n + digitValue c) 0 : Nat) : Int)

/-- The integer that a scalar denotes, if it is one of 64 bits. -/
def integer? (cs : List Char) : Option Int :=
  let n? := match cs with
    | '0' :: 'x' :: rest => marked? 16 rest
    | '0' :: 'o' :: rest => marked? 8 rest
    | '0' :: 'b' :: rest => marked? 2 rest
    | cs =>
      let (negative, rest) := splitSign cs
      (wholeDigits? rest).map fun ds => if negative then -(digitsValue ds : Int) else digitsValue ds
  n?.filter Decimal.fitsWord

/-- Cuts a text at the first character of a kind. -/
def cutAt (p : Char → Bool) (cs : List Char) : List Char × Option (List Char) :=
  (cs.takeWhile (!p ·), (cs.dropWhile (!p ·)).tail?)

def exponent? (cs : List Char) : Option Int :=
  let (negative, rest) := splitSign cs
  (groupedDigits? Char.isDigit rest).map fun ds =>
    if negative then -(digitsValue ds : Int) else digitsValue ds

/-- The number that a scalar denotes: digits with a fraction, an exponent or both, or one of the
names of the numbers that digits cannot denote. A number that is too large is refused, but not one
that is too small. -/
def float? (cs : List Char) : Option Float :=
  let (negative, rest) := splitSign cs
  if rest = "inf".toList then some (Decimal.ofSignedBits negative Decimal.infinityBits)
  else if rest = "nan".toList then some (0.0 / 0.0)
  else do
    let (mantissa, exponent) := cutAt (fun c => c == 'e' || c == 'E') rest
    let (whole, fraction) := cutAt (· == '.') mantissa
    if exponent.isNone && fraction.isNone then none
    let whole ← wholeDigits? whole
    let fraction ← match fraction with
      | none => some []
      | some ds => groupedDigits? Char.isDigit ds
    let exponent ← match exponent with
      | none => some 0
      | some e => exponent? e
    let pattern :=
      Decimal.nearestDecimalBits (digitsValue (whole ++ fraction)) (exponent - fraction.length)
    if !negative && pattern == Decimal.infinityBits then none
    else some (Decimal.ofSignedBits negative pattern)

/-! ## Dates and times -/

/-- A number of exactly two digits within bounds. -/
def twoDigits? (low high : Nat) (cs : List Char) : Option Nat :=
  if cs.length = 2 ∧ cs.all Char.isDigit then
    (some (digitsValue cs)).filter fun n => low ≤ n ∧ n ≤ high
  else none

/-- The number of days in a month. -/
def daysIn (year month : Nat) : Nat :=
  if month = 2 then
    if year % 4 = 0 ∧ (year % 100 ≠ 0 ∨ year % 400 = 0) then 29 else 28
  else if month = 4 ∨ month = 6 ∨ month = 9 ∨ month = 11 then 30
  else 31

/-- Whether a text is a date: year, month and day with hyphens between them. -/
def isDate (cs : List Char) : Bool :=
  cs.length == 10 && (cs.take 4).all Char.isDigit && cs[4]? == some '-' && cs[7]? == some '-' &&
    match twoDigits? 1 12 ((cs.drop 5).take 2), digitsValue (cs.take 4) with
    | some month, year => (twoDigits? 1 (daysIn year month) (cs.drop 8)).isSome
    | none, _ => false

/-- Whether a text is a time: hours, minutes and seconds with colons between them, and a fraction if
one likes. -/
def isTime (cs : List Char) : Bool :=
  (twoDigits? 0 23 (cs.take 2)).isSome && cs[2]? == some ':' &&
    (twoDigits? 0 59 ((cs.drop 3).take 2)).isSome && cs[5]? == some ':' &&
    (twoDigits? 0 60 ((cs.drop 6).take 2)).isSome &&
    match cs.drop 8 with
    | [] => true
    | '.' :: ds => ds ≠ [] && ds.all Char.isDigit
    | _ => false

/-- Whether a text is a time with, if one likes, its distance from universal time. -/
def isZonedTime (cs : List Char) : Bool :=
  let clock := cs.takeWhile fun c => c.isDigit || c == ':' || c == '.'
  isTime clock &&
    match cs.drop clock.length with
    | [] => true
    | ['Z'] => true
    | ['z'] => true
    | sign :: zone =>
      (sign == '+' || sign == '-') && zone.length == 5 && zone[2]? == some ':' &&
        (twoDigits? 0 23 (zone.take 2)).isSome && (twoDigits? 0 59 (zone.drop 3)).isSome

/-- Whether a text is a date, a time, or both with the letter T between them. -/
def isDateTime (cs : List Char) : Bool :=
  isDate cs || isTime cs ||
    (isDate (cs.take 10) && (cs[10]? == some 'T' || cs[10]? == some 't') &&
      isZonedTime (cs.drop 11))

/-- Whether a text begins like a time. -/
def beginsTime (cs : List Char) : Bool :=
  match cs with
  | a :: b :: ':' :: _ => a.isDigit && b.isDigit
  | _ => false

/-! ## All scalars -/

/-- What a whole scalar denotes. -/
def scalarValue? (cs : List Char) : Option Toml :=
  if cs = "true".toList then some (.boolean true)
  else if cs = "false".toList then some (.boolean false)
  else if isDateTime cs then some (.dateTime (String.ofList cs))
  else match float? cs with
    | some x => some (.float x)
    | none => (integer? cs).map .integer

/-- A scalar without quotes. A time may also stand behind its date with a space between them. -/
def scalar (cs : List Char) : Option (Toml × List Char) :=
  let run := cs.takeWhile isScalarChar
  let rest := cs.dropWhile isScalarChar
  match rest with
  | ' ' :: more =>
    if isDate run && beginsTime more then
      let time := more.takeWhile isScalarChar
      if isZonedTime time then
        some (.dateTime (String.ofList (run ++ ' ' :: time)), more.dropWhile isScalarChar)
      else none
    else (scalarValue? run).map fun v => (v, rest)
  | rest => (scalarValue? run).map fun v => (v, rest)

end LiveQuery.Toml
