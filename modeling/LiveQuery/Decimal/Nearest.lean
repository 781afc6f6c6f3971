import LiveQuery.Decimal.Binary

/-!
# The double nearest to a decimal

`nearest m e` is the double nearest to `m · 10^e`, with a tie going to the even mantissa, and an
infinity from half a step above the largest finite double on. The quotient is formed and rounded in
natural numbers, so no digit of a long numeral is lost.
-/

namespace LiveQuery.Decimal

/-- `num / den` rounded to a whole number, a half to the even neighbour. -/
def roundQuotient (num den : Nat) : Nat :=
  let floor := num / den
  let rest := num % den
  if 2 * rest < den then floor
  else if den < 2 * rest then floor + 1
  else floor + floor % 2

/-- The size nearest to `num / den` units: at most `2⁵³` steps of the least power of two for which
that suffices. -/
def roundUnits (num den : Nat) : Binary :=
  let shift := (num / den).log2 - 52
  ⟨roundQuotient num (den * Nat.pow 2 shift), shift⟩

/-- The bit pattern, without a sign, of the double nearest to `num / den`. -/
def nearestBits (num den : Nat) : Nat :=
  min (roundUnits (num * unitDenominator) den).bits infinityBits

/-- The bit pattern, without a sign, of the double nearest to `mantissa · 10^exponent`. A value
beyond `10³¹⁰` or below `10⁻³³⁰` is decided by its magnitude, so a numeral with a huge exponent
costs nothing. -/
def nearestDecimalBits (mantissa : Nat) (exponent : Int) : Nat :=
  if mantissa = 0 then 0
  else
    let magnitude := (Nat.toDigits 10 mantissa).length + exponent
    if magnitude > 310 then infinityBits
    else if magnitude < -330 then 0
    else match exponent with
      | .ofNat e => nearestBits (mantissa * Nat.pow 10 e) 1
      | .negSucc e => nearestBits mantissa (Nat.pow 10 (e + 1))

/-- A double from its sign and the rest of its pattern. -/
def ofSignedBits (negative : Bool) (pattern : Nat) : Float :=
  Float.ofBits (UInt64.ofNat (if negative then Nat.pow 2 63 + pattern else pattern))

/-- The double nearest to `± mantissa · 10^exponent`. -/
def nearest (negative : Bool) (mantissa : Nat) (exponent : Int) : Float :=
  ofSignedBits negative (nearestDecimalBits mantissa exponent)

/-- The double nearest to an integer. -/
def nearestInt (n : Int) : Float := nearest (n < 0) n.natAbs 0

end LiveQuery.Decimal
