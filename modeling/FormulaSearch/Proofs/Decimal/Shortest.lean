import FormulaSearch.Proofs.Decimal.Nearest

/-!
# The fewest digits

The digits chosen for a double denote a number that rounds to it. The search for the coarsest grid with
such a number ends in time: when the spacing of the grid is less than the length of the interval, one of
the two neighbours of the double on the grid lies within, and with seventeen digits the spacing is that
small.
-/

namespace FormulaSearch.Decimal

/-! ## Values -/

/-- The number that a magnitude denotes. -/
def Dyadic.value (d : Dyadic) : ℚ := d.mantissa * 2 ^ d.exponent

/-- The number that scaled digits denote. -/
def Scaled.value (s : Scaled) : ℚ := s.coefficient * 10 ^ s.exponent

theorem Dyadic.num_div_den (d : Dyadic) : (d.num / d.den : ℚ) = d.value := by
  rw [num, den, value]
  push_cast [cast_twoTo]
  rw [mul_div_assoc, pow_toNat_div two_ne_zero]

theorem Dyadic.den_pos (d : Dyadic) : 0 < d.den := twoTo_pos _

/-! ## Decimal exponents -/

theorem digitCount_bounds {n : ℕ} (hn : n ≠ 0) :
    10 ^ (digitCount n - 1) ≤ n ∧ n < 10 ^ digitCount n ∧ 0 < digitCount n := by
  have hpos : 0 < (Nat.toDigits 10 n).length := Nat.length_toDigits_pos
  rw [digitCount, if_neg hn]
  refine ⟨?_, (Nat.length_toDigits_le_iff (by decide) hpos).mp le_rfl, hpos⟩
  by_cases hone : (Nat.toDigits 10 n).length = 1
  · rw [hone]
    exact Nat.one_le_iff_ne_zero.mpr hn
  · by_contra hlt
    have := (Nat.length_toDigits_le_iff (k := (Nat.toDigits 10 n).length - 1) (by decide)
      (by omega)).mpr (Nat.lt_of_not_le hlt)
    omega

theorem decimalExponent_eq {num den : ℕ} (hn : num ≠ 0) (hd : den ≠ 0) :
    decimalExponent num den = Int.log 10 (num / den : ℚ) := by
  have hpos : (0 : ℚ) < den := by exact_mod_cast Nat.pos_of_ne_zero hd
  rw [decimalExponent]
  split
  · rename_i hle
    obtain ⟨hlow, hhigh, hcount⟩ := digitCount_bounds (Nat.div_ne_zero_iff.mpr ⟨hd, hle⟩)
    rw [Nat.le_div_iff_mul_le (Nat.pos_of_ne_zero hd)] at hlow
    rw [Nat.div_lt_iff_lt_mul (Nat.pos_of_ne_zero hd)] at hhigh
    generalize digitCount (num / den) = count at *
    refine (log_eq (by decide) ?_ ?_).symm
    · rw [le_div_iff₀ hpos, ← Nat.cast_pred hcount, zpow_natCast]
      exact_mod_cast hlow
    · rw [div_lt_iff₀ hpos, sub_add_cancel, zpow_natCast]
      exact_mod_cast hhigh
  · rename_i hlt
    have hquotient : (den - 1) / num ≠ 0 := Nat.div_ne_zero_iff.mpr ⟨hn, by omega⟩
    obtain ⟨hlow, hhigh, hcount⟩ := digitCount_bounds hquotient
    rw [Nat.le_div_iff_mul_le (Nat.pos_of_ne_zero hn)] at hlow
    rw [Nat.div_lt_iff_lt_mul (Nat.pos_of_ne_zero hn)] at hhigh
    generalize digitCount ((den - 1) / num) = count at *
    refine (log_eq (by decide) ?_ ?_).symm
    · rw [le_div_iff₀ hpos, zpow_neg, inv_mul_le_iff₀ (by positivity), zpow_natCast]
      exact_mod_cast (by omega : den ≤ 10 ^ count * num)
    · rw [div_lt_iff₀ hpos, show -(count : ℤ) + 1 = -((count - 1 : ℕ) : ℤ) by omega, zpow_neg,
        zpow_natCast, lt_inv_mul_iff₀ (by positivity)]
      exact_mod_cast (by omega : 10 ^ (count - 1) * num < den)

/-! ## The grids -/

namespace Dyadic

variable {d : Dyadic}

theorem roundHalfEven_cases (num den : ℕ) :
    roundHalfEven num den = num / den ∨ roundHalfEven num den = num / den + 1 := by
  rw [roundHalfEven]
  split
  · exact .inr rfl
  · exact .inl rfl

/-- A multiple of a power of ten within the interval rounds to the double. -/
theorem fits_iff (hm : d.mantissa ≠ 0) (unit : ℤ) (c : ℕ) :
    d.interval.holds (c * tenTo unit.toNat) (tenTo (-unit).toNat) = true ↔
      d.Attracts (c * 10 ^ unit) := by
  rw [interval_holds_iff hm (tenTo_pos _)]
  push_cast [cast_tenTo]
  rw [mul_div_assoc, pow_toNat_div (by norm_num)]

/-- What is found on a grid rounds to the double. -/
theorem attracts_of_onGrid? (hm : d.mantissa ≠ 0) {unit : ℤ} {c : ℕ} (h : d.onGrid? unit = some c) :
    d.Attracts (c * 10 ^ unit) := by
  rw [← fits_iff hm]
  rw [onGrid?] at h
  dsimp only at h
  split at h
  · rename_i hbelow habove
    cases h
    rcases roundHalfEven_cases (d.num * tenTo (-unit).toNat) (d.den * tenTo unit.toNat) with h | h
    · rwa [h]
    · rwa [h]
  · rename_i hbelow _
    cases h
    exact hbelow
  · rename_i _ habove
    cases h
    exact habove
  · cases h

/-- The neighbours of a double on a grid. -/
theorem grid_bounds (d : Dyadic) (unit : ℤ) :
    let below := d.num * tenTo (-unit).toNat / (d.den * tenTo unit.toNat)
    (below : ℚ) * 10 ^ unit ≤ d.value ∧ d.value < (below + 1 : ℕ) * 10 ^ unit := by
  intro below
  have hden : 0 < d.den * tenTo unit.toNat := Nat.mul_pos d.den_pos (tenTo_pos _)
  have hunit : (0 : ℚ) < 10 ^ unit := by positivity
  have hvalue : ((d.num * tenTo (-unit).toNat : ℕ) : ℚ) / (d.den * tenTo unit.toNat : ℕ) =
      d.value / 10 ^ unit := by
    push_cast [cast_tenTo]
    rw [scaled_div (by norm_num), num_div_den]
  have hpos : (0 : ℚ) < (d.den * tenTo unit.toNat : ℕ) := by exact_mod_cast hden
  constructor
  · rw [← le_div_iff₀ hunit, ← hvalue, le_div_iff₀ hpos]
    exact_mod_cast Nat.div_mul_le_self _ _
  · rw [← div_lt_iff₀ hunit, ← hvalue, div_lt_iff₀ hpos]
    have habove := Nat.lt_mul_div_succ (d.num * tenTo (-unit).toNat) hden
    rw [Nat.mul_comm (d.den * tenTo unit.toNat) _] at habove
    exact_mod_cast habove

/-- A grid that is fine enough has a number that rounds to the double: if its spacing is less than the
length of the interval, the two neighbours of the double cannot both be outside. -/
theorem onGrid?_isSome (hm : d.mantissa ≠ 0) {unit : ℤ}
    (hfine : (10 : ℚ) ^ unit / 2 ^ d.exponent < (d.belowGap + 2) / 4) :
    (d.onGrid? unit).isSome = true := by
  have hunit : (0 : ℚ) < 2 ^ d.exponent := by positivity
  have hgap : (0 : ℚ) < d.belowGap := by exact_mod_cast d.belowGap_pos
  obtain ⟨hlow, hhigh⟩ := grid_bounds d unit
  have hbelow := fits_iff hm unit (d.num * tenTo (-unit).toNat / (d.den * tenTo unit.toNat))
  have habove := fits_iff hm unit (d.num * tenTo (-unit).toNat / (d.den * tenTo unit.toNat) + 1)
  rw [onGrid?]
  generalize d.num * tenTo (-unit).toNat / (d.den * tenTo unit.toNat) = below at *
  rw [value, ← div_le_iff₀ hunit, mul_div_assoc] at hlow
  rw [value, ← lt_div_iff₀ hunit, mul_div_assoc] at hhigh
  push_cast at hhigh habove
  -- the neighbour below is near enough, or else the one above is
  by_cases hnear : d.mantissa - below * ((10 : ℚ) ^ unit / 2 ^ d.exponent) < d.belowGap / 4
  · have hfits : d.Attracts (below * 10 ^ unit) := by
      apply attracts_of_strict
      · rw [mul_div_assoc]
        linarith
      · rw [mul_div_assoc]
        linarith
    simp only [hbelow.mpr hfits]
    split <;> simp_all
  · have hfits : d.Attracts ((below + 1) * 10 ^ unit) := by
      apply attracts_of_strict
      · rw [mul_div_assoc]
        linarith
      · rw [mul_div_assoc]
        linarith
    simp only [habove.mpr hfits]
    split <;> simp_all

/-! ## The search -/

/-- Seventeen digits make a grid fine enough. -/
theorem fine_of_seventeen (hd : d.Canonical) (hm : d.mantissa ≠ 0) :
    (10 : ℚ) ^ (decimalExponent d.num d.den - 16) / 2 ^ d.exponent < (d.belowGap + 2) / 4 := by
  have hunit : (0 : ℚ) < 2 ^ d.exponent := by positivity
  have hvalue : 0 < d.value := by
    have : (0 : ℚ) < d.mantissa := by exact_mod_cast Nat.pos_of_ne_zero hm
    rw [value]
    positivity
  have hnum : d.num ≠ 0 := Nat.mul_ne_zero hm (twoTo_pos _).ne'
  have hlead : (10 : ℚ) ^ decimalExponent d.num d.den ≤ d.mantissa * 2 ^ d.exponent := by
    rw [decimalExponent_eq hnum d.den_pos.ne', num_div_den]
    exact_mod_cast Int.zpow_log_le_self (by decide) hvalue
  have hspacing : (10 : ℚ) ^ (decimalExponent d.num d.den - 16) / 2 ^ d.exponent ≤
      d.mantissa / 10 ^ 16 := by
    rw [zpow_sub₀ (by norm_num), div_right_comm]
    gcongr
    · rwa [div_le_iff₀ hunit]
    · norm_num
  refine hspacing.trans_lt ?_
  rw [belowGap]
  split
  · rename_i hleading
    rw [hleading.1, cast_twoTo]
    norm_num
  · have : (d.mantissa : ℚ) < 2 ^ 53 := by exact_mod_cast hd.mantissa_lt
    rw [div_lt_iff₀ (by positivity)]
    norm_num at this ⊢
    linarith

theorem shortestFrom_attracts (hd : d.Canonical) (hm : d.mantissa ≠ 0) {fuel count : ℕ}
    (hcount : count ≤ 17) (hfuel : 18 ≤ fuel + count) :
    d.Attracts (d.shortestFrom (decimalExponent d.num d.den) fuel count).value := by
  induction fuel generalizing count with
  | zero => omega
  | succ fuel ih =>
    rw [shortestFrom]
    split
    · rename_i c hc
      exact attracts_of_onGrid? hm hc
    · rename_i hnone
      refine ih ?_ (by omega)
      -- the search cannot have failed with seventeen digits
      by_contra hlast
      obtain rfl : count = 17 := by omega
      have hsome := onGrid?_isSome hm (fine_of_seventeen hd hm)
      rw [show decimalExponent d.num d.den - 16 =
        decimalExponent d.num d.den - ((17 : ℕ) : ℤ) + 1 by omega, hnone] at hsome
      cases hsome

/-- The fewest digits of a double denote a number that rounds to it. -/
theorem shortest_attracts (hd : d.Canonical) (hm : d.mantissa ≠ 0) :
    d.Attracts d.shortest.value := by
  rw [shortest, if_neg hm]
  exact shortestFrom_attracts hd hm (by decide) (by decide)

end Dyadic

end FormulaSearch.Decimal
