import Mathlib
import LiveQuery.Decimal.Binary

/-!
# Sums of doubles that are not rounded

A finite double is a whole number of units, and that number determines it, up to the sign of a zero.
So a sum whose units are the sum of the units does not depend on how it came about. The sign of a
zero does not come between: an exact sum is a negative zero only if its first operand is one.
-/

namespace LiveQuery.Decimal

open Float.Model (UnpackedFloat Format)
open Float.Model.UnpackedFloat (Sign)

/-! ### The units of a double -/

/-- How many units a number is, if it is finite. -/
def Decoded.units? : Decoded → Option Int
  | .finite true size => some (-size.units)
  | .finite false size => some size.units
  | _ => none

/-- How many of the smallest positive double a double is, if it is finite. -/
def units? (x : Float) : Option Int := (decode x).units?

namespace Binary

/-- The mantissa has 53 bits, or fewer if the shift cannot be less. -/
def Canonical (x : Binary) : Prop := x.mantissa < 2 ^ 53 ∧ (2 ^ 52 ≤ x.mantissa ∨ x.shift = 0)

theorem Canonical.units_lt_units {x y : Binary} (hx : x.Canonical) (hy : y.Canonical)
    (h : x.shift < y.shift) : x.units < y.units := by
  have hlarge : 2 ^ 52 ≤ y.mantissa := hy.2.resolve_right (by omega)
  calc x.units < 2 ^ 53 * 2 ^ x.shift := Nat.mul_lt_mul_of_pos_right hx.1 (Nat.two_pow_pos _)
    _ = 2 ^ 52 * 2 ^ (x.shift + 1) := by ring
    _ ≤ y.mantissa * 2 ^ y.shift := Nat.mul_le_mul hlarge (Nat.pow_le_pow_right (by omega) h)

theorem Canonical.eq_of_units_eq {x y : Binary} (hx : x.Canonical) (hy : y.Canonical)
    (h : x.units = y.units) : x = y := by
  have hshift : x.shift = y.shift := by
    rcases Nat.lt_trichotomy x.shift y.shift with hlt | heq | hgt
    · exact absurd h (Nat.ne_of_lt (hx.units_lt_units hy hlt))
    · exact heq
    · exact absurd h (Nat.ne_of_gt (hy.units_lt_units hx hgt))
  obtain ⟨m, s⟩ := x
  obtain ⟨m', s'⟩ := y
  obtain rfl : s = s' := hshift
  obtain rfl : m = m' := Nat.eq_of_mul_eq_mul_right (Nat.two_pow_pos s) h
  rfl

end Binary

/-! ### Doubles from their parts -/

/-- A finite pattern is its sign and its size, packed. -/
theorem Decoded.ofBits_eq_finite {pattern : Nat} (hlt : pattern < 2 ^ 64) {negative : Bool}
    {size : Binary} (h : ofBits pattern = .finite negative size) :
    size.Canonical ∧ pattern = (if negative then 2 ^ 63 else 0) + size.bits := by
  simp only [ofBits, Nat.pow_eq] at h
  split at h
  · split at h <;> cases h
  · split at h <;> obtain ⟨rfl, rfl⟩ := Decoded.finite.inj h
    · refine ⟨⟨by simp only; omega, .inr rfl⟩, ?_⟩
      simp only [Binary.bits, Nat.pow_eq, beq_iff_eq]
      split <;> omega
    · refine ⟨⟨by simp only; omega, .inl (by simp only; omega)⟩, ?_⟩
      simp only [Binary.bits, Nat.pow_eq, beq_iff_eq]
      split <;> omega

theorem eq_of_decode_eq {x y : Float} {negative : Bool} {size : Binary}
    (hx : decode x = .finite negative size) (hy : decode y = .finite negative size) : x = y := by
  refine Float.toBits_inj.1 (UInt64.toNat_inj.1 ?_)
  rw [(Decoded.ofBits_eq_finite x.toBits.toNat_lt hx).2,
    (Decoded.ofBits_eq_finite y.toBits.toNat_lt hy).2]

theorem exists_of_units?_eq {x : Float} {n : Int} (h : units? x = some n) :
    ∃ negative size, decode x = .finite negative size ∧ size.Canonical ∧
      n = if negative then -(size.units : Int) else size.units := by
  cases hx : decode x with
  | notANumber => simp [units?, hx, Decoded.units?] at h
  | infinite negative => simp [units?, hx, Decoded.units?] at h
  | finite negative size =>
    refine ⟨negative, size, rfl, (Decoded.ofBits_eq_finite x.toBits.toNat_lt hx).1, ?_⟩
    cases negative <;> simp_all [units?, Decoded.units?]

/-- The double is exactly `n` units, and no negative zero. -/
structure Counts (x : Float) (n : Int) : Prop where
  units : units? x = some n
  sign : decode x ≠ .finite true ⟨0, 0⟩

theorem Counts.nonneg_iff {x : Float} {n : Int} (h : Counts x n) {negative : Bool} {size : Binary}
    (hx : decode x = .finite negative size) : 0 ≤ n ↔ negative = false := by
  have hunits := h.units
  simp only [units?, hx] at hunits
  cases negative with
  | false =>
    obtain rfl : (size.units : Int) = n := Option.some.inj hunits
    simp
  | true =>
    obtain rfl : -(size.units : Int) = n := Option.some.inj hunits
    -- No units behind a minus sign would be the negative zero.
    have hpos : size.units ≠ 0 := fun hzero => by
      have hcanonical := (Decoded.ofBits_eq_finite x.toBits.toNat_lt hx).1
      obtain rfl : size = ⟨0, 0⟩ := by
        refine hcanonical.eq_of_units_eq ⟨by decide, .inr rfl⟩ ?_
        rw [hzero, Binary.units, Nat.zero_mul]
      exact h.sign hx
    simp only [Bool.true_eq_false, iff_false]
    omega

theorem Counts.unique {x y : Float} {n : Int} (hx : Counts x n) (hy : Counts y n) : x = y := by
  obtain ⟨negative, size, hdecode, hcanonical, hn⟩ := exists_of_units?_eq hx.units
  obtain ⟨negative', size', hdecode', hcanonical', hn'⟩ := exists_of_units?_eq hy.units
  obtain rfl : negative = negative' := by
    have hiff := (hx.nonneg_iff hdecode).symm.trans (hy.nonneg_iff hdecode')
    cases negative <;> cases negative' <;> simp_all
  obtain rfl : size = size' := by
    refine hcanonical.eq_of_units_eq hcanonical' ?_
    split at hn <;> simp_all
  exact eq_of_decode_eq hdecode hdecode'

/-! ### Unpacked doubles -/

/-- The same reading of an unpacked double. -/
def Decoded.ofUnpacked : UnpackedFloat → Decoded
  | .notANumber => .notANumber
  | .infinity sign => .infinite (sign == .negative)
  | .zero sign => .finite (sign == .negative) ⟨0, 0⟩
  | .finite sign mantissa exponent _ =>
    .finite (sign == .negative) ⟨mantissa, (exponent + 1074).toNat⟩

theorem toNat_unpackMantissa (b : BitVec 64) :
    (@UnpackedFloat.unpackMantissa Format.binary64 b).toNat = b.toNat % 2 ^ 52 := by
  simp [UnpackedFloat.unpackMantissa]

theorem toNat_unpackExponent (b : BitVec 64) :
    (@UnpackedFloat.unpackExponent Format.binary64 b).toNat =
      b.toNat / 2 ^ 52 % 2 ^ 11 := by
  simp [UnpackedFloat.unpackExponent, Nat.shiftRight_eq_div_pow]

theorem toNat_unpackSign (b : BitVec 64) :
    (@UnpackedFloat.unpackSign Format.binary64 b).toNat = b.toNat / 2 ^ 63 % 2 := by
  simp [UnpackedFloat.unpackSign, Nat.shiftRight_eq_div_pow]

theorem isNegative_ofBitVec (b : BitVec 1) : (Sign.ofBitVec b == .negative) = (b.toNat == 1) := by
  have hcases : b = 0#1 ∨ b = 1#1 := by
    have := b.isLt
    simp only [← BitVec.toNat_inj, BitVec.toNat_ofNat]
    omega
  rcases hcases with rfl | rfl <;> rfl

theorem toNat_implicit (m : BitVec 52) : (1#1 ++ m).toNat = 2 ^ 52 + m.toNat := by
  rw [BitVec.toNat_append, ← Nat.shiftLeft_add_eq_or_of_lt m.isLt]
  rfl

theorem ofBits_eq_ofUnpacked (b : BitVec 64) :
    Decoded.ofBits b.toNat = .ofUnpacked (UnpackedFloat.unpack Format.binary64 b) := by
  have hmantissa := toNat_unpackMantissa b
  have hexponent := toNat_unpackExponent b
  have hsign := isNegative_ofBitVec (@UnpackedFloat.unpackSign Format.binary64 b)
  rw [toNat_unpackSign] at hsign
  have hinfinite (e : BitVec 11) : e = -1#11 ↔ e.toNat = 2047 := BitVec.toNat_inj.symm
  have hzero {n : Nat} (v : BitVec n) : v = 0#n ↔ v.toNat = 0 := by
    rw [← BitVec.toNat_inj, BitVec.toNat_zero]
  have hbias : Format.binary64.exponentBias = 1023 := rfl
  -- Both readings branch on the same three fields.
  simp only [UnpackedFloat.unpack, Decoded.ofBits, Nat.pow_eq, ← hmantissa, ← hexponent, ← hsign,
    hinfinite, hzero]
  split
  · split <;> rfl
  · split
    · rename_i hsubnormal
      split
      · rename_i hnone
        simp only [Decoded.ofUnpacked, hnone]
      · simp only [Decoded.ofUnpacked, hbias, hsubnormal]
        rfl
    · simp only [Decoded.ofUnpacked, hbias, toNat_implicit]
      congr 2
      omega

theorem decode_eq_ofUnpacked (x : Float) : decode x = .ofUnpacked x.toModel.unpack :=
  ofBits_eq_ofUnpacked x.toModel.toBits.toBitVec

/-- The exponent is not below that of the unit. -/
def InRange : UnpackedFloat → Prop
  | .finite _ _ exponent _ => -1074 ≤ exponent
  | _ => True

theorem inRange_unpack (x : Float) : InRange x.toModel.unpack := by
  have hbias : Format.binary64.exponentBias = 1023 := rfl
  simp only [Float.Model.unpack, UnpackedFloat.unpack, hbias]
  split
  · split <;> trivial
  · split
    · split
      · trivial
      · simp only [InRange]
        omega
    · rename_i hnormal
      have hpos := mt BitVec.toNat_inj.1 hnormal
      rw [BitVec.toNat_zero] at hpos
      simp only [InRange]
      omega

/-! ### Sums -/

theorem units?_ofUnpacked_zero (s : Sign) : (Decoded.ofUnpacked (.zero s)).units? = some 0 := by
  cases s <;> rfl

theorem units?_ofUnpacked_finite (s : Sign) (m : Nat) (e : Int) (h : 0 < m) :
    (Decoded.ofUnpacked (.finite s m e h)).units? = some (s.apply (m * 2 ^ (e + 1074).toNat)) := by
  have hcast : ((m * Nat.pow 2 (e + 1074).toNat : Nat) : Int) = m * 2 ^ (e + 1074).toNat := by
    push_cast
    rfl
  cases s with
  | negative => exact congrArg (fun n => some (-n)) hcast
  | positive => exact congrArg some hcast

/-- Bringing a number to a smaller exponent does not change its units. -/
theorem apply_decreaseExponent (s : Sign) (m : Nat) {e t : Int} (ht : -1074 ≤ t) (hte : t ≤ e) :
    s.apply ((UnpackedFloat.decreaseExponent m e t).1 : Int) * 2 ^ (t + 1074).toNat =
      s.apply (m * 2 ^ (e + 1074).toNat) := by
  have hsplit : (e + 1074).toNat = (e - t).toNat + (t + 1074).toNat := by omega
  simp only [UnpackedFloat.decreaseExponent, Nat.shiftLeft_eq, hsplit]
  cases s <;> simp only [Sign.apply] <;> push_cast <;> ring

theorem apply_ne_zero (s : Sign) {n : Int} (h : 0 < n) : s.apply n ≠ 0 := by
  cases s <;> simp only [Sign.apply] <;> omega

/-- A sum of no units is a positive zero, unless it begins with a negative one. -/
theorem add_eq_zero {u v : UnpackedFloat} (hu : InRange u) (hv : InRange v) {a b : Int}
    (ha : (Decoded.ofUnpacked u).units? = some a) (hb : (Decoded.ofUnpacked v).units? = some b)
    (hsum : a + b = 0) (hsign : u ≠ .zero .negative) :
    UnpackedFloat.add Format.binary64 u v = .zero .positive := by
  have hfinite (s : Sign) {m : Nat} (e : Int) (h : 0 < m) :
      s.apply (m * 2 ^ (e + 1074).toNat) ≠ 0 :=
    apply_ne_zero s (Int.mul_pos (by omega) (Int.pow_pos (by decide)))
  cases u with
  | notANumber => cases ha
  | infinity s => cases s <;> cases ha
  | zero s =>
    cases v with
    | notANumber => cases hb
    | infinity s' => cases s' <;> cases hb
    | zero s' => cases s <;> cases s' <;> first | rfl | exact absurd rfl hsign
    | finite s' m' e' h' =>
      rw [units?_ofUnpacked_zero] at ha
      rw [units?_ofUnpacked_finite] at hb
      cases ha
      cases hb
      exact absurd (by omega) (hfinite s' e' h')
  | finite s m e h =>
    rw [units?_ofUnpacked_finite] at ha
    cases ha
    cases v with
    | notANumber => cases hb
    | infinity s' => cases s' <;> cases hb
    | zero s' =>
      rw [units?_ofUnpacked_zero] at hb
      cases hb
      exact absurd (by omega) (hfinite s e h)
    | finite s' m' e' h' =>
      rw [units?_ofUnpacked_finite] at hb
      cases hb
      -- Brought to the smaller exponent, as for the addition, the mantissas cancel.
      have hmin : -1074 ≤ min e e' := by
        simp only [InRange] at hu hv
        omega
      rw [← apply_decreaseExponent s m hmin (Int.min_le_left e e'),
        ← apply_decreaseExponent s' m' hmin (Int.min_le_right e e'), ← Int.add_mul] at hsum
      have hmantissa := (Int.mul_eq_zero.1 hsum).resolve_right (Int.pow_pos (by decide)).ne'
      simp only [UnpackedFloat.add, hmantissa]
      rfl

theorem apply_neg (s : Sign) (n : Int) : (-s).apply n = -s.apply n := by
  cases s with
  | negative => exact (Int.neg_neg n).symm
  | positive => rfl

theorem units?_neg {v : UnpackedFloat} {b : Int} (h : (Decoded.ofUnpacked v).units? = some b) :
    (Decoded.ofUnpacked v.neg).units? = some (-b) := by
  cases v with
  | notANumber => cases h
  | infinity s => cases s <;> cases h
  | zero s =>
    rw [units?_ofUnpacked_zero] at h
    cases h
    exact units?_ofUnpacked_zero (-s)
  | finite s m e hm =>
    rw [units?_ofUnpacked_finite] at h
    cases h
    rw [UnpackedFloat.neg, units?_ofUnpacked_finite, apply_neg]

theorem inRange_neg {v : UnpackedFloat} (h : InRange v) : InRange v.neg := by
  cases v <;> exact h

theorem unpacked_sub_eq_add_neg (u v : UnpackedFloat) :
    UnpackedFloat.sub Format.binary64 u v = UnpackedFloat.add Format.binary64 u v.neg := by
  cases u with
  | notANumber => rfl
  | infinity s => cases v <;> rfl
  | zero s => cases v <;> rfl
  | finite s m e h =>
    cases v with
    | finite s' m' e' h' =>
      simp only [UnpackedFloat.sub, UnpackedFloat.neg, UnpackedFloat.add, apply_neg,
        Int.sub_eq_add_neg]
    | _ => rfl

theorem units?_eq (x : Float) : units? x = (Decoded.ofUnpacked x.toModel.unpack).units? :=
  congrArg _ (decode_eq_ofUnpacked x)

theorem unpack_ne_of_decode_ne {x : Float} (h : decode x ≠ .finite true ⟨0, 0⟩) :
    x.toModel.unpack ≠ .zero .negative := fun heq =>
  h (by rw [decode_eq_ofUnpacked, heq]; rfl)

theorem decode_packed_zero :
    decode (.ofModel (.pack (.zero .positive))) = .finite false ⟨0, 0⟩ := by
  decide

/-- A result that counts as many units as it should is no negative zero. -/
theorem counts_of_packed {u v : UnpackedFloat} (hu : InRange u) (hv : InRange v) {a b : Int}
    (ha : (Decoded.ofUnpacked u).units? = some a) (hb : (Decoded.ofUnpacked v).units? = some b)
    (hsign : u ≠ .zero .negative) {z : Float}
    (hz : z = .ofModel (.pack (UnpackedFloat.add Format.binary64 u v)))
    (h : units? z = some (a + b)) : Counts z (a + b) := by
  refine ⟨h, fun hnegative => ?_⟩
  have hzero : a + b = 0 := by
    rw [units?, hnegative] at h
    exact (Option.some.inj h).symm
  rw [hz, add_eq_zero hu hv ha hb hzero hsign, decode_packed_zero] at hnegative
  cases hnegative

/-- A sum that is not rounded counts exactly. -/
theorem Counts.add {x y : Float} {a b : Int} (hx : Counts x a) (hy : units? y = some b)
    (h : units? (x + y) = some (a + b)) : Counts (x + y) (a + b) :=
  counts_of_packed (inRange_unpack x) (inRange_unpack y) (units?_eq x ▸ hx.units)
    (units?_eq y ▸ hy) (unpack_ne_of_decode_ne hx.sign) rfl h

/-- A difference that is not rounded counts exactly. -/
theorem Counts.sub {x y : Float} {a b : Int} (hx : Counts x a) (hy : units? y = some b)
    (h : units? (x - y) = some (a - b)) : Counts (x - y) (a - b) := by
  rw [Int.sub_eq_add_neg] at h ⊢
  refine counts_of_packed (inRange_unpack x) (v := y.toModel.unpack.neg) ?_ (units?_eq x ▸ hx.units)
    (units?_neg (units?_eq y ▸ hy)) (unpack_ne_of_decode_ne hx.sign) ?_ h
  · exact inRange_neg (inRange_unpack y)
  · rw [← unpacked_sub_eq_add_neg]
    rfl

end LiveQuery.Decimal
