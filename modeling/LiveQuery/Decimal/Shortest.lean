import LiveQuery.Decimal.Binary

/-!
# The fewest digits that read back

A decimal reads back as a double exactly if it lies in the interval of reals that round to it: from
half a step below to half a step above, ends included if the mantissa is even. `shortest` looks for
a point of this interval on coarser and coarser decimal grids, that is for one, two, … seventeen
digits. On each grid only the two neighbours of the value can be the nearest points, so testing
these two is enough; if both lie in the interval the nearer one is taken, and `Tie` says what
happens when they are equally near.
-/

namespace LiveQuery.Decimal

/-- Which of two decimals is taken when both are equally near. -/
inductive Tie where
  /-- The one whose last digit is even. -/
  | even
  /-- The one further from zero. -/
  | up
deriving DecidableEq, Repr

/-- The decimal `digits · 10^exponent`. -/
structure Digits where
  digits : Nat
  exponent : Int
deriving DecidableEq, Repr

/-- The interval of reals that round to one double, in quarters of a unit. -/
structure Interval where
  low : Nat
  high : Nat
  closed : Bool
deriving DecidableEq, Repr

/-- The reals that round to `x`. A step below a power of two is half as wide as the one above it,
except at the bottom of the range. -/
def Binary.interval (x : Binary) : Interval :=
  let step := Nat.pow 2 x.shift
  { low := 4 * x.units - (if x.mantissa = Nat.pow 2 52 ∧ 0 < x.shift then step else 2 * step)
    high := 4 * x.units + 2 * step
    closed := x.mantissa % 2 = 0 }

structure Ratio where
  num : Nat
  den : Nat

/-- The rational number `n · 10^e`. -/
def Ratio.ofDecimal (n : Nat) : Int → Ratio
  | .ofNat e => ⟨n * Nat.pow 10 e, 1⟩
  | .negSucc e => ⟨n, Nat.pow 10 (e + 1)⟩

/-- Whether `n · 10^e` lies in the interval. -/
def Interval.contains (i : Interval) (n : Nat) (e : Int) : Bool :=
  let r := Ratio.ofDecimal n e
  let scaled := 4 * unitDenominator * r.num
  if i.closed then i.low * r.den ≤ scaled ∧ scaled ≤ i.high * r.den
  else i.low * r.den < scaled ∧ scaled < i.high * r.den

def digitCount (n : Nat) : Nat := (Nat.toDigits 10 n).length

/-- The exponent of the first digit of `n` units: the largest `e` with `10^e ≤ n / 2¹⁰⁷⁴`. -/
def leadingExponent (n : Nat) : Int :=
  if unitDenominator ≤ n then (digitCount (n / unitDenominator) : Int) - 1
  else
    let d := digitCount (unitDenominator / n)
    if unitDenominator ≤ n * Nat.pow 10 (d - 1) then 1 - (d : Int) else -(d : Int)

/-- The largest point of the grid of multiples of `10^e` that is at most `n` units, as a count of
grid steps, and what remains of the value beyond it as a part of one step. -/
def gridBelow (n : Nat) (e : Int) : Nat × Ratio :=
  let step := Ratio.ofDecimal 1 e
  let num := n * step.den
  let den := unitDenominator * step.num
  (num / den, ⟨num % den, den⟩)

/-- The point of the grid of multiples of `10^e` that stands for `x`, if one of the two next to its
value reads back. -/
def Binary.onGrid (tie : Tie) (x : Binary) (e : Int) : Option Nat :=
  let (below, rest) := gridBelow x.units e
  let above := below + 1
  match x.interval.contains below e, x.interval.contains above e with
  | false, false => none
  | true, false => some below
  | false, true => some above
  | true, true =>
    if 2 * rest.num < rest.den then some below
    else if rest.den < 2 * rest.num then some above
    else match tie with
      | .up => some above
      | .even => some (if below % 2 = 0 then below else above)

/-- Moves trailing zeros of `digits` into the exponent. `fuel` bounds their number. -/
def Digits.trim : Nat → Digits → Digits
  | 0, d => d
  | fuel + 1, d =>
    if d.digits % 10 = 0 ∧ d.digits ≠ 0 then trim fuel ⟨d.digits / 10, d.exponent + 1⟩ else d

/-- The first hit on the grids with `count`, `count + 1`, … digits, `fuel` grids in all. -/
def Binary.search (tie : Tie) (x : Binary) (leading : Int) : Nat → Nat → Option Digits
  | 0, _ => none
  | fuel + 1, count =>
    let e := leading - count + 1
    match x.onGrid tie e with
    | some n => some ⟨n, e⟩
    | none => x.search tie leading fuel (count + 1)

/-- The shortest decimal that reads back as `x`, and of these the nearest. Seventeen digits always
suffice; zero is `0`. -/
def Binary.shortest (tie : Tie) (x : Binary) : Digits :=
  if x.units = 0 then ⟨0, 0⟩
  else match x.search tie (leadingExponent x.units) 17 1 with
    | some d => d.trim 18
    | none => ⟨0, 0⟩

end LiveQuery.Decimal
