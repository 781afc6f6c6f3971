/-!
# Double-precision numbers as whole multiples of the smallest one

Every finite double is `mantissa · 2^shift` times the smallest positive double `2⁻¹⁰⁷⁴`, with
`mantissa < 2⁵³`. Reading a number off its bits in this form leaves only natural numbers to compute
with, so digits can be chosen and quotients rounded without any rounding on the way. `Binary.bits`
packs the two parts back; the packing is additive, so a mantissa that rounds up to `2⁵³` carries
into the exponent by itself.
-/

namespace LiveQuery.Decimal

/-- The denominator of the unit `2⁻¹⁰⁷⁴`, in which every finite double is a whole number. -/
def unitDenominator : Nat := Nat.pow 2 1074

/-- The size of a finite double: `mantissa · 2^shift` units. -/
structure Binary where
  mantissa : Nat
  shift : Nat
deriving DecidableEq, Repr

namespace Binary

def units (x : Binary) : Nat := x.mantissa * Nat.pow 2 x.shift

/-- The bit pattern without its sign. Adding the mantissa to the shifted exponent serves both
ranges: below `2⁵²` it is the pattern of a subnormal number, from there on its top bit raises the
exponent field by the one that normal numbers carry. -/
def bits (x : Binary) : Nat := x.shift * Nat.pow 2 52 + x.mantissa

end Binary

/-- What the bits of a double say. -/
inductive Decoded where
  | notANumber
  | infinite (negative : Bool)
  | finite (negative : Bool) (size : Binary)
deriving DecidableEq, Repr

/-- Reads sign, exponent and mantissa off a bit pattern. -/
def Decoded.ofBits (pattern : Nat) : Decoded :=
  let negative := pattern / Nat.pow 2 63 % 2 == 1
  let exponent := pattern / Nat.pow 2 52 % Nat.pow 2 11
  let fraction := pattern % Nat.pow 2 52
  if exponent = 2047 then
    if fraction = 0 then .infinite negative else .notANumber
  else if exponent = 0 then .finite negative ⟨fraction, 0⟩
  else .finite negative ⟨Nat.pow 2 52 + fraction, exponent - 1⟩

def decode (x : Float) : Decoded := Decoded.ofBits x.toBits.toNat

/-- The exponent of the infinities, as a pattern: the least one that no finite number has. -/
def infinityBits : Nat := 2047 * Nat.pow 2 52

end LiveQuery.Decimal
