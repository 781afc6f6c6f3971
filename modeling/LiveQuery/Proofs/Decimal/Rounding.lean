import Mathlib
import LiveQuery.Decimal.Nearest
import LiveQuery.Decimal.Shortest
import LiveQuery.Proofs.Decimal.Units

/-!
# Rounding to the nearest double

Every number in the interval of a double rounds to this double. The interval ends half a step above
the double and half a step below it. Below a power of two the steps are half as wide: a number there
is rounded on the finer steps, and comes to `2⁵³` of them, which is the power of two again.
-/

namespace LiveQuery.Decimal

/-! ### Numbers in units -/

/-- How many units `digits · 10^exponent` is. -/
def Digits.units (d : Digits) : ℚ := unitDenominator * (d.digits * 10 ^ d.exponent)

theorem unitDenominator_pos : 0 < unitDenominator := by decide +kernel

theorem unitDenominator_eq : unitDenominator = 2 ^ 1074 := by decide +kernel

theorem Ratio.den_ofDecimal_pos (n : Nat) (e : Int) : 0 < (Ratio.ofDecimal n e).den := by
  cases e with
  | ofNat e => exact Nat.one_pos
  | negSucc e => exact Nat.pow_pos (by omega)

theorem Ratio.ofDecimal_div (n : Nat) (e : Int) :
    ((Ratio.ofDecimal n e).num : ℚ) / (Ratio.ofDecimal n e).den = n * 10 ^ e := by
  cases e with
  | ofNat e =>
    simp [Ratio.ofDecimal]
  | negSucc e =>
    simp [Ratio.ofDecimal, zpow_negSucc, div_eq_mul_inv]

namespace Interval

/-- Whether so many units lie in the interval. -/
def Holds (i : Interval) (units : ℚ) : Prop :=
  if i.closed then i.low ≤ 4 * units ∧ 4 * units ≤ i.high
  else i.low < 4 * units ∧ 4 * units < i.high

theorem holds_div_iff (i : Interval) (num : Nat) {den : Nat} (hden : 0 < den) :
    i.Holds (num / den) ↔
      if i.closed then i.low * den ≤ 4 * num ∧ 4 * num ≤ i.high * den
      else i.low * den < 4 * num ∧ 4 * num < i.high * den := by
  have hpos : (0 : ℚ) < den := by exact_mod_cast hden
  unfold Holds
  rw [← mul_div_assoc, le_div_iff₀ hpos, div_le_iff₀ hpos, lt_div_iff₀ hpos, div_lt_iff₀ hpos]
  norm_cast

theorem contains_iff (i : Interval) (n : Nat) (e : Int) :
    i.contains n e = true ↔ i.Holds (Digits.units ⟨n, e⟩) := by
  have hunits : Digits.units ⟨n, e⟩ =
      ((unitDenominator * (Ratio.ofDecimal n e).num : Nat) : ℚ) / (Ratio.ofDecimal n e).den := by
    rw [Digits.units, ← Ratio.ofDecimal_div, Nat.cast_mul, mul_div_assoc]
  rw [hunits, holds_div_iff i _ (Ratio.den_ofDecimal_pos n e), contains, ← Nat.mul_assoc]
  split <;> exact decide_eq_true_iff

end Interval

/-! ### Rounding -/

/-- A quotient within half a step of `m` rounds to `m`; on the edge only to an even one. -/
theorem roundQuotient_eq {num den m : Nat} (hden : 0 < den)
    (low : 2 * (m * den) ≤ 2 * num + den) (high : 2 * num ≤ 2 * (m * den) + den)
    (edge : m % 2 = 0 ∨ 2 * (m * den) < 2 * num + den ∧ 2 * num < 2 * (m * den) + den) :
    roundQuotient num den = m := by
  by_cases hle : m * den ≤ num
  · obtain ⟨rest, hnum⟩ := Nat.exists_eq_add_of_le hle
    have hfloor : num / den = m ∧ num % den = rest := by
      rw [Nat.div_mod_unique hden, Nat.mul_comm den m]
      omega
    rw [roundQuotient, hfloor.1, hfloor.2]
    split_ifs <;> omega
  · obtain ⟨k, rfl⟩ : ∃ k, m = k + 1 := by
      apply Nat.exists_eq_succ_of_ne_zero
      rintro rfl
      omega
    have hsucc : (k + 1) * den = k * den + den := Nat.succ_mul k den
    obtain ⟨rest, hnum⟩ : ∃ rest, num = k * den + rest := ⟨num - k * den, by omega⟩
    have hfloor : num / den = k ∧ num % den = rest := by
      rw [Nat.div_mod_unique hden, Nat.mul_comm den k]
      omega
    rw [roundQuotient, hfloor.1, hfloor.2]
    split_ifs <;> omega

/-- The size of a number that is at least `2⁵²` steps and below `2⁵³` of them, or below `2⁵³` units
anyway. -/
theorem roundUnits_eq {num den s : Nat} (hden : 0 < den)
    (low : s = 0 ∨ 2 ^ 52 * (den * 2 ^ s) ≤ num) (high : num < 2 ^ 53 * (den * 2 ^ s)) :
    roundUnits num den = ⟨roundQuotient num (den * 2 ^ s), s⟩ := by
  have hshift : (num / den).log2 - 52 = s := by
    have hhigh : num / den < 2 ^ (53 + s) := by
      rw [Nat.div_lt_iff_lt_mul hden, pow_add]
      linarith
    rcases low with rfl | hlow
    · by_cases hzero : num / den = 0
      · rw [hzero]
        rfl
      · have hlog := (Nat.log2_lt hzero).2 hhigh
        omega
    · have hle : 2 ^ (52 + s) ≤ num / den := by
        rw [Nat.le_div_iff_mul_le hden, pow_add]
        linarith
      have hne : num / den ≠ 0 := by
        have := Nat.two_pow_pos (52 + s)
        omega
      have hlog : (num / den).log2 = 52 + s := by
        rw [Nat.log2_eq_iff hne]
        refine ⟨hle, ?_⟩
        rwa [show 52 + s + 1 = 53 + s by omega]
      omega
  rw [roundUnits, hshift]
  rfl

namespace Binary

/-- How many quarters of a step the interval reaches below the double. -/
def reach (x : Binary) : Nat := if x.mantissa = 2 ^ 52 ∧ 0 < x.shift then 1 else 2

theorem reach_le (x : Binary) : x.reach ≤ 2 := by
  unfold reach
  split <;> omega

theorem units_eq (x : Binary) : x.units = x.mantissa * 2 ^ x.shift := rfl

theorem low_interval {x : Binary} (hpos : 0 < x.mantissa) :
    x.interval.low + x.reach * 2 ^ x.shift = 4 * x.units := by
  have hlow : x.interval.low = 4 * x.units - x.reach * 2 ^ x.shift := by
    rw [reach, ite_mul, Nat.one_mul]
    rfl
  have hreach : x.reach * 2 ^ x.shift ≤ 2 * x.units := by
    rw [units_eq, ← Nat.mul_assoc]
    exact Nat.mul_le_mul_right _ (Nat.le_trans x.reach_le (by omega))
  omega

theorem high_interval (x : Binary) : x.interval.high = 4 * x.units + 2 * 2 ^ x.shift := rfl

/-- What is less than half a step above a double, and less than the reach below it, lies in its
interval. -/
theorem holds_of_near {x : Binary} (hpos : 0 < x.mantissa) {units : ℚ}
    (low : 4 * (x.units : ℚ) < 4 * units + x.reach * 2 ^ x.shift)
    (high : 4 * units < 4 * x.units + 2 * 2 ^ x.shift) : x.interval.Holds units := by
  have hlow : (x.interval.low : ℚ) + x.reach * 2 ^ x.shift = 4 * x.units := by
    exact_mod_cast low_interval hpos
  have hhigh : (x.interval.high : ℚ) = 4 * x.units + 2 * 2 ^ x.shift := by
    exact_mod_cast high_interval x
  unfold Interval.Holds
  rw [hhigh]
  split <;> constructor <;> linarith

/-- The interval of a double, in multiples of a number. -/
theorem holds_interval_iff {x : Binary} (hpos : 0 < x.mantissa) {num den : Nat} (hden : 0 < den) :
    x.interval.Holds (num / den) ↔
      if x.mantissa % 2 = 0 then
        4 * (x.mantissa * (den * 2 ^ x.shift)) ≤ 4 * num + x.reach * (den * 2 ^ x.shift) ∧
          4 * num ≤ 4 * (x.mantissa * (den * 2 ^ x.shift)) + 2 * (den * 2 ^ x.shift)
      else
        4 * (x.mantissa * (den * 2 ^ x.shift)) < 4 * num + x.reach * (den * 2 ^ x.shift) ∧
          4 * num < 4 * (x.mantissa * (den * 2 ^ x.shift)) + 2 * (den * 2 ^ x.shift) := by
  have hlow : x.interval.low * den + x.reach * (den * 2 ^ x.shift) =
      4 * (x.mantissa * (den * 2 ^ x.shift)) := by
    have h := congrArg (· * den) (low_interval hpos)
    simp only [units_eq] at h
    linarith
  have hhigh : x.interval.high * den =
      4 * (x.mantissa * (den * 2 ^ x.shift)) + 2 * (den * 2 ^ x.shift) := by
    rw [high_interval, units_eq]
    ring
  rw [Interval.holds_div_iff _ _ hden, hhigh]
  by_cases heven : x.mantissa % 2 = 0
  · have hclosed : x.interval.closed = true := decide_eq_true heven
    rw [if_pos hclosed, if_pos heven]
    apply and_congr_left'
    omega
  · have hopen : ¬x.interval.closed = true := fun h => heven (of_decide_eq_true h)
    rw [if_neg hopen, if_neg heven]
    apply and_congr_left'
    omega

end Binary

/-- Whatever lies in the interval of a double rounds to this double. -/
theorem bits_roundUnits {x : Binary} (hx : x.Canonical) (hpos : 0 < x.mantissa) {num den : Nat}
    (hden : 0 < den) (h : x.interval.Holds (num / den)) : (roundUnits num den).bits = x.bits := by
  have hinterval := (Binary.holds_interval_iff hpos hden).1 h
  have hreach := Nat.mul_le_mul_right (den * 2 ^ x.shift) x.reach_le
  have hspecial : x.mantissa = 2 ^ 52 ∧ 0 < x.shift → x.reach = 1 := fun h => if_pos h
  obtain ⟨hsmall, hlarge⟩ := hx
  generalize x.reach = reach at *
  obtain ⟨m, s⟩ := x
  simp only at hinterval hreach hspecial hsmall hlarge hpos
  have hstep : 0 < den * 2 ^ s := Nat.mul_pos hden (Nat.two_pow_pos s)
  have htop : m * (den * 2 ^ s) + den * 2 ^ s ≤ 2 ^ 53 * (den * 2 ^ s) := by
    rw [← Nat.succ_mul]
    exact Nat.mul_le_mul_right _ hsmall
  by_cases hnear : s = 0 ∨ 2 ^ 52 * (den * 2 ^ s) ≤ num
  · have hquotient : roundQuotient num (den * 2 ^ s) = m := by
      apply roundQuotient_eq hstep
      all_goals split at hinterval
      all_goals omega
    have hbound : num < 2 ^ 53 * (den * 2 ^ s) := by
      split at hinterval <;> omega
    rw [roundUnits_eq hden hnear hbound, hquotient]
  · -- only the lower end of a power of two lies on the finer steps
    obtain ⟨t, rfl⟩ : ∃ t, s = t + 1 := Nat.exists_eq_succ_of_ne_zero fun h => hnear (.inl h)
    have hpower : m = 2 ^ 52 := by
      by_contra hne
      have hmore : (2 ^ 52 + 1) * (den * 2 ^ (t + 1)) ≤ m * (den * 2 ^ (t + 1)) :=
        Nat.mul_le_mul_right _ (by omega)
      rw [Nat.succ_mul] at hmore
      split at hinterval
      all_goals omega
    have hfine : den * 2 ^ (t + 1) = 2 * (den * 2 ^ t) := by
      rw [pow_succ]
      ring
    rw [hspecial ⟨hpower, t.succ_pos⟩, hpower, if_pos (by decide), hfine] at hinterval
    rw [hfine] at hnear
    have hquotient : roundQuotient num (den * 2 ^ t) = 2 ^ 53 := by
      apply roundQuotient_eq (by omega)
      · omega
      · omega
      · exact .inl (by decide)
    rw [roundUnits_eq (s := t) hden (.inr (by omega)) (by omega), hquotient, hpower]
    show t * 2 ^ 52 + 2 ^ 53 = (t + 1) * 2 ^ 52 + 2 ^ 52
    omega

/-! ### Decimals -/

theorem Digits.units_eq (d : Digits) :
    d.units = (((Ratio.ofDecimal d.digits d.exponent).num * unitDenominator : Nat) : ℚ) /
      (Ratio.ofDecimal d.digits d.exponent).den := by
  rw [Digits.units, ← Ratio.ofDecimal_div, Nat.cast_mul]
  ring

theorem two_pow_mul_le {a b c d : Nat} (h : a + b ≤ c + d) : 2 ^ a * 2 ^ b ≤ 2 ^ c * 2 ^ d := by
  rw [← pow_add, ← pow_add]
  exact Nat.pow_le_pow_right Nat.two_pos h

/-- The interval of a positive double is in the range of the doubles. -/
theorem Binary.range_of_holds {x : Binary} (hx : x.Canonical) (hpos : 0 < x.mantissa)
    (hfinite : x.bits < infinityBits) {units : ℚ} (h : x.interval.Holds units) :
    1 ≤ 2 * units ∧ units ≤ 2 ^ 1024 * unitDenominator := by
  obtain ⟨hlow, hhigh⟩ : (x.interval.low : ℚ) ≤ 4 * units ∧ 4 * units ≤ x.interval.high := by
    unfold Interval.Holds at h
    split at h
    · exact h
    · exact ⟨le_of_lt h.1, le_of_lt h.2⟩
  have hleast : 2 ≤ x.interval.low := by
    have hstep : 0 < 2 ^ x.shift := Nat.two_pow_pos x.shift
    have hle : 2 ^ x.shift ≤ x.units := Nat.le_mul_of_pos_left _ hpos
    have hreach := Nat.mul_le_mul_right (2 ^ x.shift) x.reach_le
    have hlow := Binary.low_interval hpos
    omega
  have hshift : x.shift ≤ 2045 := by
    have hbits : x.shift * 2 ^ 52 + x.mantissa < 2047 * 2 ^ 52 := hfinite
    have hlarge := hx.2
    omega
  have hmost : x.interval.high ≤ 4 * (2 ^ 1024 * unitDenominator) := by
    have hsmall : x.mantissa + 1 ≤ 2 ^ 53 := hx.1
    have hbound : 2 ^ 53 * 2 ^ x.shift ≤ 2 ^ 1024 * unitDenominator := by
      rw [unitDenominator_eq]
      exact two_pow_mul_le (by omega)
    calc x.interval.high = (4 * x.mantissa + 2) * 2 ^ x.shift := by
          rw [Binary.high_interval, Binary.units_eq]
          ring
      _ ≤ (4 * 2 ^ 53) * 2 ^ x.shift := Nat.mul_le_mul_right _ (by omega)
      _ ≤ 4 * (2 ^ 1024 * unitDenominator) := by
          rw [Nat.mul_assoc]
          exact Nat.mul_le_mul_left 4 hbound
  have hleast' : (2 : ℚ) ≤ x.interval.low := by exact_mod_cast hleast
  have hmost' : (x.interval.high : ℚ) ≤ 4 * (2 ^ 1024 * unitDenominator) := by
    exact_mod_cast hmost
  constructor
  · linarith only [hlow, hleast']
  · exact le_of_mul_le_mul_left (hhigh.trans hmost') (by norm_num)

theorem digitCount_pos (n : Nat) : 0 < digitCount n := Nat.length_toDigits_pos

theorem lt_ten_pow_digitCount (n : Nat) : n < 10 ^ digitCount n :=
  (Nat.length_toDigits_le_iff (by decide) (digitCount_pos n)).1 (Nat.le_refl _)

theorem ten_pow_le_of_digitCount {n k : Nat} (hn : n ≠ 0) (h : digitCount n = k + 1) :
    10 ^ k ≤ n := by
  rcases Nat.eq_zero_or_pos k with rfl | hpos
  · exact Nat.pos_of_ne_zero hn
  · by_contra hlt
    have hle : digitCount n ≤ k :=
      (Nat.length_toDigits_le_iff (by decide) hpos).2 (Nat.lt_of_not_le hlt)
    omega

/-- The exponent of ten behind the first digit. -/
def Digits.magnitude (d : Digits) : Int := digitCount d.digits + d.exponent

theorem Digits.magnitude_spec {d : Digits} (h : d.digits ≠ 0) :
    (10 : ℚ) ^ (d.magnitude - 1) ≤ d.digits * 10 ^ d.exponent ∧
      (d.digits : ℚ) * 10 ^ d.exponent < 10 ^ d.magnitude := by
  have hexponent : (0 : ℚ) < 10 ^ d.exponent := zpow_pos (by norm_num) _
  obtain ⟨k, hk⟩ : ∃ k, digitCount d.digits = k + 1 :=
    Nat.exists_eq_succ_of_ne_zero (digitCount_pos _).ne'
  have hlow := ten_pow_le_of_digitCount h hk
  have hhigh := lt_ten_pow_digitCount d.digits
  rw [magnitude]
  constructor
  · rw [hk, show ((k + 1 : Nat) : Int) + d.exponent - 1 = (k : Int) + d.exponent by omega,
      zpow_add₀ (by norm_num), zpow_natCast]
    exact mul_le_mul_of_nonneg_right (by exact_mod_cast hlow) hexponent.le
  · rw [zpow_add₀ (by norm_num), zpow_natCast]
    exact mul_lt_mul_of_pos_right (by exact_mod_cast hhigh) hexponent

/-- In the range of the doubles no magnitude is decided without rounding. -/
theorem Digits.magnitude_bounds {d : Digits} (h : 1 ≤ 2 * d.units)
    (hhigh : d.units ≤ 2 ^ 1024 * unitDenominator) :
    d.digits ≠ 0 ∧ -330 ≤ d.magnitude ∧ d.magnitude ≤ 310 := by
  have hne : d.digits ≠ 0 := by
    intro hzero
    rw [units, hzero, Nat.cast_zero, zero_mul, mul_zero, mul_zero] at h
    norm_num at h
  have hunit : (0 : ℚ) < unitDenominator := by exact_mod_cast unitDenominator_pos
  have hmost : (2 : ℚ) ^ 1024 < 10 ^ ((309 : Nat) : Int) := by
    have hnat : 2 ^ 1024 < 10 ^ 309 := by decide +kernel
    rw [zpow_natCast]
    exact_mod_cast hnat
  have hleast : (2 * unitDenominator : ℚ) < 10 ^ 324 := by
    have hnat : 2 * unitDenominator < 10 ^ 324 := by decide +kernel
    exact_mod_cast hnat
  obtain ⟨hfrom, hto⟩ := magnitude_spec hne
  rw [units] at h hhigh
  have hvalue : (d.digits : ℚ) * 10 ^ d.exponent ≤ 2 ^ 1024 := by
    rw [mul_comm] at hhigh
    exact le_of_mul_le_mul_right hhigh hunit
  refine ⟨hne, ?_, ?_⟩
  · have hpos : (0 : ℚ) < d.digits * 10 ^ d.exponent := (zpow_pos (by norm_num) _).trans_le hfrom
    have hlt : (10 : ℚ) ^ (-324 : Int) < 10 ^ d.magnitude := by
      have hscaled := mul_lt_mul_of_pos_right hleast hpos
      rw [mul_assoc] at hscaled
      refine lt_trans ?_ hto
      show ((10 : ℚ) ^ 324)⁻¹ < _
      rw [inv_lt_iff_one_lt_mul₀ (by positivity), mul_comm]
      exact h.trans_lt hscaled
    have := (zpow_lt_zpow_iff_right₀ (by norm_num)).1 hlt
    omega
  · have hlt : (10 : ℚ) ^ (d.magnitude - 1) < 10 ^ ((309 : Nat) : Int) :=
      lt_of_le_of_lt (hfrom.trans hvalue) hmost
    have := (zpow_lt_zpow_iff_right₀ (by norm_num)).1 hlt
    omega

/-- Whatever lies in the interval of a double is read as this double. -/
theorem nearestDecimalBits_eq {x : Binary} (hx : x.Canonical) (hpos : 0 < x.mantissa)
    (hfinite : x.bits < infinityBits) {d : Digits} (h : x.interval.Holds d.units) :
    nearestDecimalBits d.digits d.exponent = x.bits := by
  obtain ⟨hlow, hhigh⟩ := Binary.range_of_holds hx hpos hfinite h
  obtain ⟨hne, hleast, hmost⟩ := Digits.magnitude_bounds hlow hhigh
  have hnearest : nearestBits (Ratio.ofDecimal d.digits d.exponent).num
      (Ratio.ofDecimal d.digits d.exponent).den = x.bits := by
    rw [Digits.units_eq] at h
    rw [nearestBits, bits_roundUnits hx hpos (Ratio.den_ofDecimal_pos _ _) h]
    exact Nat.min_eq_left (Nat.le_of_lt hfinite)
  have hlow' : ¬ (Nat.toDigits 10 d.digits).length + d.exponent > 310 := Int.not_lt.2 hmost
  have hhigh' : ¬ (Nat.toDigits 10 d.digits).length + d.exponent < -330 := Int.not_lt.2 hleast
  unfold nearestDecimalBits
  rw [if_neg hne]
  simp only [hlow', hhigh', if_false]
  rw [← hnearest]
  cases d.exponent <;> rfl

end LiveQuery.Decimal
