import LiveQuery.Proofs.Decimal.Rounding

/-!
# The shortest decimal reads back

Whatever grid the search stops at, the point that it takes lies in the interval of the double. On
the grid of seventeen digits one of the two points next to the double always does: the step of this
grid is less than nine tenths of a step between doubles, or less than half of one if the steps below
the double are half as wide.
-/

namespace LiveQuery.Decimal

/-- The leading exponent is not too large. -/
theorem leadingExponent_le {n : Nat} (hn : n ≠ 0) :
    unitDenominator * (10 : ℚ) ^ leadingExponent n ≤ n := by
  have hunit := unitDenominator_pos
  unfold leadingExponent
  split
  · rename_i hle
    obtain ⟨k, hk⟩ : ∃ k, digitCount (n / unitDenominator) = k + 1 :=
      Nat.exists_eq_succ_of_ne_zero (digitCount_pos _).ne'
    have hne : n / unitDenominator ≠ 0 := (Nat.div_pos hle hunit).ne'
    have hpow : unitDenominator * 10 ^ k ≤ n := by
      rw [Nat.mul_comm]
      exact (Nat.le_div_iff_mul_le hunit).1 (ten_pow_le_of_digitCount hne hk)
    rw [hk, show ((k + 1 : Nat) : Int) - 1 = k by omega, zpow_natCast]
    exact_mod_cast hpow
  · rename_i hlt
    have hcount := digitCount_pos (unitDenominator / n)
    have hpow := lt_ten_pow_digitCount (unitDenominator / n)
    generalize digitCount (unitDenominator / n) = d at *
    -- a power of ten in the denominator
    have hscaled : ∀ k : Nat, unitDenominator ≤ n * 10 ^ k →
        unitDenominator * (10 : ℚ) ^ (-(k : Int)) ≤ n := by
      intro k hk
      rw [zpow_neg, zpow_natCast, ← div_eq_mul_inv, div_le_iff₀ (by positivity)]
      exact_mod_cast hk
    dsimp only
    split
    · rename_i hle
      rw [show (1 : Int) - d = -((d - 1 : Nat) : Int) by omega]
      exact hscaled (d - 1) hle
    · apply hscaled d
      rw [Nat.mul_comm]
      exact Nat.le_of_lt ((Nat.div_lt_iff_lt_mul (Nat.pos_of_ne_zero hn)).1 hpow)

/-! ### Grids -/

theorem Ratio.num_ofDecimal_pos {n : Nat} (hn : 0 < n) (e : Int) :
    0 < (Ratio.ofDecimal n e).num := by
  cases e with
  | ofNat e => exact Nat.mul_pos hn (Nat.pow_pos (by omega))
  | negSucc e => exact hn

theorem units_le_iff (b n : Nat) (e : Int) : Digits.units ⟨b, e⟩ ≤ n ↔
    b * (unitDenominator * (Ratio.ofDecimal 1 e).num) ≤ n * (Ratio.ofDecimal 1 e).den := by
  have hden : (0 : ℚ) < (Ratio.ofDecimal 1 e).den := by
    exact_mod_cast Ratio.den_ofDecimal_pos 1 e
  have hunits : Digits.units ⟨b, e⟩ =
      b * (unitDenominator * (Ratio.ofDecimal 1 e).num) / (Ratio.ofDecimal 1 e).den := by
    have hpower := Ratio.ofDecimal_div 1 e
    rw [Nat.cast_one, one_mul] at hpower
    rw [Digits.units, ← hpower]
    ring
  rw [hunits, div_le_iff₀ hden]
  norm_cast

/-- The grid points next to a value. -/
theorem gridBelow_spec (n : Nat) (e : Int) :
    Digits.units ⟨(gridBelow n e).1, e⟩ ≤ n ∧ n < Digits.units ⟨(gridBelow n e).1 + 1, e⟩ := by
  have hstep : 0 < unitDenominator * (Ratio.ofDecimal 1 e).num :=
    Nat.mul_pos unitDenominator_pos (Ratio.num_ofDecimal_pos Nat.one_pos e)
  rw [← not_le, units_le_iff, units_le_iff, not_le]
  constructor
  · exact Nat.div_mul_le_self _ _
  · exact (Nat.div_lt_iff_lt_mul hstep).1 (Nat.lt_succ_self _)

variable {tie : Tie} {x : Binary}

/-- What is taken on a grid lies in the interval, and nothing is taken if neither point next to the
value does. -/
theorem onGrid_spec (tie : Tie) (x : Binary) (e : Int) :
    (∀ n, x.onGrid tie e = some n → x.interval.contains n e = true) ∧
      (x.onGrid tie e = none → x.interval.contains (gridBelow x.units e).1 e = false ∧
        x.interval.contains ((gridBelow x.units e).1 + 1) e = false) := by
  unfold Binary.onGrid
  generalize gridBelow x.units e = grid
  obtain ⟨below, rest⟩ := grid
  have htaken : ∀ n, x.interval.contains n e = true →
      (∀ k, some n = some k → x.interval.contains k e = true) ∧
        (some n = none → x.interval.contains below e = false ∧
          x.interval.contains (below + 1) e = false) :=
    fun n hn => ⟨fun k hk => Option.some.inj hk ▸ hn, nofun⟩
  dsimp only
  split
  · rename_i hbelow habove
    exact ⟨nofun, fun _ => ⟨hbelow, habove⟩⟩
  · rename_i hbelow habove
    exact htaken _ hbelow
  · rename_i hbelow habove
    exact htaken _ habove
  · rename_i hbelow habove
    split
    · exact htaken _ hbelow
    · split
      · exact htaken _ habove
      · cases tie with
        | up => exact htaken _ habove
        | even =>
          apply htaken
          split
          · exact hbelow
          · exact habove

/-- A grid that is fine enough has a point that reads back. -/
theorem onGrid_ne_none (hx : x.Canonical) (hpos : 0 < x.mantissa) {e : Int}
    (h : 10 ^ 16 * (unitDenominator * (10 : ℚ) ^ e) ≤ x.units) : x.onGrid tie e ≠ none := by
  intro hmiss
  obtain ⟨hbelow, habove⟩ := gridBelow_spec x.units e
  obtain ⟨hmissBelow, hmissAbove⟩ := (onGrid_spec tie x e).2 hmiss
  rw [← Bool.not_eq_true, Interval.contains_iff] at hmissBelow hmissAbove
  have hstep : (0 : ℚ) < 2 ^ x.shift := by positivity
  have hwidth : Digits.units ⟨(gridBelow x.units e).1 + 1, e⟩ -
      Digits.units ⟨(gridBelow x.units e).1, e⟩ = unitDenominator * 10 ^ e := by
    rw [Digits.units, Digits.units, Nat.cast_succ]
    ring
  generalize Digits.units ⟨(gridBelow x.units e).1, e⟩ = below at *
  generalize Digits.units ⟨(gridBelow x.units e).1 + 1, e⟩ = above at *
  -- neither point is near enough, so they are far apart
  have hlow : 4 * below + x.reach * 2 ^ x.shift ≤ 4 * x.units := by
    by_contra hnear
    have hhigh : 4 * below < 4 * x.units + 2 * 2 ^ x.shift := by
      linarith only [hbelow, hstep]
    exact hmissBelow (Binary.holds_of_near hpos (not_le.1 hnear) hhigh)
  have hhigh : 4 * (x.units : ℚ) + 2 * 2 ^ x.shift ≤ 4 * above := by
    by_contra hnear
    refine hmissAbove (Binary.holds_of_near hpos ?_ (not_le.1 hnear))
    have hreach : (0 : ℚ) ≤ x.reach * 2 ^ x.shift := mul_nonneg (Nat.cast_nonneg _) hstep.le
    linarith only [habove, hreach]
  have hunits : (x.units : ℚ) = x.mantissa * 2 ^ x.shift := by
    exact_mod_cast x.units_eq
  have hmantissa : 10 ^ 16 * (2 + x.reach) ≤ 4 * x.mantissa := by
    have hscaled : 10 ^ 16 * (2 + (x.reach : ℚ)) * 2 ^ x.shift ≤ 4 * x.mantissa * 2 ^ x.shift := by
      rw [← hwidth, hunits] at h
      rw [hunits] at hlow hhigh
      linarith only [h, hlow, hhigh]
    exact_mod_cast le_of_mul_le_mul_right hscaled hstep
  have hsmall := hx.1
  unfold Binary.reach at hmantissa
  split at hmantissa <;> omega

/-! ### The search -/

theorem holds_of_search {leading : Int} {fuel count : Nat} {d : Digits}
    (h : x.search tie leading fuel count = some d) : x.interval.Holds d.units := by
  induction fuel generalizing count with
  | zero => cases h
  | succ fuel ih =>
    rw [Binary.search] at h
    split at h
    · rename_i n hn
      obtain rfl := Option.some.inj h
      exact (Interval.contains_iff _ _ _).1 ((onGrid_spec tie x _).1 n hn)
    · exact ih h

theorem search_ne_none {leading : Int} {fuel count : Nat} (k : Nat) (hk : k < fuel)
    (h : x.onGrid tie (leading - (count + k : Nat) + 1) ≠ none) :
    x.search tie leading fuel count ≠ none := by
  induction fuel generalizing count k with
  | zero => omega
  | succ fuel ih =>
    rw [Binary.search]
    split
    · exact nofun
    · rename_i hmiss
      cases k with
      | zero => exact (h hmiss).elim
      | succ k =>
        apply ih k (by omega)
        rwa [show count + 1 + k = count + (k + 1) by omega]

theorem units_trim (fuel : Nat) (d : Digits) : (d.trim fuel).units = d.units := by
  induction fuel generalizing d with
  | zero => rfl
  | succ fuel ih =>
    rw [Digits.trim]
    split
    · rename_i h
      have hdigits : (d.digits : ℚ) = ((d.digits / 10 : Nat) : ℚ) * 10 := by
        exact_mod_cast (Nat.div_mul_cancel (Nat.dvd_of_mod_eq_zero h.1)).symm
      rw [ih, Digits.units, Digits.units, hdigits, zpow_add_one₀ (by norm_num)]
      ring
    · rfl

/-- The shortest decimal of a double lies in its interval. -/
theorem holds_shortest (tie : Tie) (hx : x.Canonical) (hpos : 0 < x.mantissa) :
    x.interval.Holds (x.shortest tie).units := by
  have hne : x.units ≠ 0 := (Nat.mul_pos hpos (Nat.two_pow_pos _)).ne'
  have hfound : x.search tie (leadingExponent x.units) 17 1 ≠ none := by
    apply search_ne_none 16 (by omega)
    apply onGrid_ne_none hx hpos
    rw [show leadingExponent x.units - ((1 + 16 : Nat) : Int) + 1 =
      leadingExponent x.units + (-16 : Int) by omega, zpow_add₀ (by norm_num)]
    have hleading := leadingExponent_le hne
    have hsixteen : (10 : ℚ) ^ (-16 : Int) * 10 ^ 16 = 1 := by norm_num
    refine le_of_eq_of_le ?_ hleading
    linear_combination unitDenominator * (10 : ℚ) ^ leadingExponent x.units * hsixteen
  rw [Binary.shortest, if_neg hne]
  split
  · rename_i d hd
    rw [units_trim]
    exact holds_of_search hd
  · rename_i hnone
    exact (hfound hnone).elim

/-! ### Doubles -/

theorem Decoded.bits_lt_infinityBits {pattern : Nat} {negative : Bool} {size : Binary}
    (h : ofBits pattern = .finite negative size) : size.bits < infinityBits := by
  simp only [ofBits, Nat.pow_eq] at h
  split at h
  · split at h <;> cases h
  · split at h <;> obtain ⟨rfl, rfl⟩ := Decoded.finite.inj h
    · simp only [Binary.bits, infinityBits, Nat.pow_eq]
      omega
    · simp only [Binary.bits, infinityBits, Nat.pow_eq]
      omega

theorem exists_decode_of_isFinite {x : Float} (h : x.isFinite = true) :
    ∃ negative size, decode x = .finite negative size := by
  have hunpacked : x.toModel.unpack.isFinite = true := h
  rw [decode_eq_ofUnpacked]
  cases hx : x.toModel.unpack with
  | notANumber =>
    rw [hx] at hunpacked
    cases hunpacked
  | infinity sign =>
    rw [hx] at hunpacked
    cases hunpacked
  | zero sign => exact ⟨_, _, rfl⟩
  | finite sign mantissa exponent hpos => exact ⟨_, _, rfl⟩

theorem ofSignedBits_bits {x : Float} {negative : Bool} {size : Binary}
    (h : decode x = .finite negative size) : ofSignedBits negative size.bits = x := by
  have hbits := (Decoded.ofBits_eq_finite x.toBits.toNat_lt h).2
  have hpattern : UInt64.ofNat
      (if negative then Nat.pow 2 63 + size.bits else size.bits) = x.toBits := by
    rw [← UInt64.ofNat_toNat (x := x.toBits), hbits, Nat.pow_eq]
    split
    · rfl
    · rw [Nat.zero_add]
  rw [ofSignedBits, hpattern, Float.ofBits_toBits]

/-- A decimal that is as much as the shortest one of a double is read as this double. -/
theorem nearestDecimalBits_of_units_eq {x : Float} {negative : Bool} {size : Binary}
    (hx : decode x = .finite negative size) (tie : Tie) {d : Digits}
    (h : d.units = (size.shortest tie).units) :
    nearestDecimalBits d.digits d.exponent = size.bits := by
  have hcanonical := (Decoded.ofBits_eq_finite x.toBits.toNat_lt hx).1
  rcases Nat.eq_zero_or_pos size.mantissa with hzero | hpos
  · -- zero has no digits other than zeros
    have hsize : size = ⟨0, 0⟩ := by
      refine hcanonical.eq_of_units_eq ⟨by decide, .inr rfl⟩ ?_
      rw [Binary.units, hzero, Nat.zero_mul, Binary.units, Nat.zero_mul]
    subst hsize
    have hnone : d.units = 0 := by
      rw [h]
      show unitDenominator * (((0 : Nat) : ℚ) * 10 ^ (0 : Int)) = 0
      rw [Nat.cast_zero, zero_mul, mul_zero]
    have hdigits : d.digits = 0 := by
      have hunit : (unitDenominator : ℚ) ≠ 0 := by exact_mod_cast unitDenominator_pos.ne'
      have hpower : (10 : ℚ) ^ d.exponent ≠ 0 := zpow_ne_zero _ (by norm_num)
      rw [Digits.units] at hnone
      exact_mod_cast ((mul_eq_zero.1 hnone).resolve_left hunit |> mul_eq_zero.1).resolve_right hpower
    rw [hdigits]
    rfl
  · apply nearestDecimalBits_eq hcanonical hpos (Decoded.bits_lt_infinityBits hx)
    rw [h]
    exact holds_shortest tie hcanonical hpos

end LiveQuery.Decimal
