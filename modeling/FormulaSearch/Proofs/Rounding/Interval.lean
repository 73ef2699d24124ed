import Mathlib
import FormulaSearch.Proofs.Rounding.Arithmetic

/-!
# Points of an interval

A point of an interval is computed from the lower bound and a part of the width, or from the sum of the
bounds. It lies in the interval if and only if the width or the sum does not overflow: although the width
is rounded, and possibly up, a part of it that is less than the whole leads to no point beyond the upper
bound.
-/

namespace FormulaSearch.Double

/-! ## Parts of a rounded width -/

/-- Below one there is room for half a unit of the last place. -/
theorem OnGrid.le_of_lt_one {x : ℚ} (h : OnGrid x) (hx : x < 1) : x ≤ 1 - 1 / 2 ^ 53 := by
  obtain ⟨m, e, hm, -, rfl⟩ := h
  have hunit : (0 : ℚ) < 2 ^ e := by positivity
  rcases le_or_gt m 0 with hm0 | hm0
  · have hm0 : (m : ℚ) ≤ 0 := by exact_mod_cast hm0
    have := mul_nonpos_of_nonpos_of_nonneg hm0 hunit.le
    norm_num
    linarith
  · have he : e < 0 := by
      by_contra he
      have hone : (1 : ℚ) ≤ m := by exact_mod_cast hm0
      have hpow : (1 : ℚ) ≤ 2 ^ e := one_le_zpow₀ one_le_two (by omega)
      linarith [one_le_mul_of_one_le_of_one_le hone hpow]
    obtain ⟨k, rfl⟩ : ∃ k : ℕ, e = -k := ⟨e.natAbs, by omega⟩
    rw [zpow_neg, zpow_natCast, ← div_eq_mul_inv] at *
    have hm : (m : ℚ) < 2 ^ 53 := by exact_mod_cast (abs_lt.mp hm).2
    have hpos : (0 : ℚ) < 2 ^ k := by positivity
    rcases le_or_gt k 53 with hk | hk
    · rw [div_lt_one hpos] at hx
      have hnext : (m : ℚ) + 1 ≤ 2 ^ k := by
        have : m < 2 ^ k := by exact_mod_cast hx
        exact_mod_cast this
      have hpow : (2 : ℚ) ^ k ≤ 2 ^ 53 := pow_le_pow_right₀ one_le_two hk
      have hinv := one_div_le_one_div_of_le hpos hpow
      have : (m : ℚ) / 2 ^ k ≤ 1 - 1 / 2 ^ k := by
        rw [div_le_iff₀ hpos, sub_mul, one_div_mul_cancel hpos.ne']
        linarith
      linarith
    · have hpow : (2 : ℚ) ^ 54 ≤ 2 ^ k := pow_le_pow_right₀ one_le_two hk
      have : (m : ℚ) / 2 ^ k ≤ 1 / 2 := by
        rw [div_le_iff₀ hpos]
        norm_num at hm hpow
        linarith
      norm_num at this ⊢
      linarith

/-- What is less than a number by half a unit of its last place is rounded to less, unless the number is so
small that all multiples of the least place are there. -/
theorem Nearest.lt_of_shrunk {x p : ℚ} {m : ℕ} {e : ℤ} (hp : Nearest x p) (hshort : m < 2 ^ 53)
    (hplace : 2 ^ 52 < m ∧ -1074 ≤ e ∨ m = 2 ^ 52 ∧ -1074 < e)
    (hx : x ≤ m * 2 ^ e * (1 - 1 / 2 ^ 53)) : p < m * 2 ^ e := by
  have hunit : (0 : ℚ) < 2 ^ e := by positivity
  rcases hplace with ⟨hm, he⟩ | ⟨rfl, he⟩
  · -- the predecessor is a unit away, of which `x` keeps less than a half
    have hlong : (2 : ℚ) ^ 52 * 2 ^ e < m * 2 ^ e := by
      have : (2 : ℚ) ^ 52 < m := by exact_mod_cast hm
      gcongr
    have hgrid : OnGrid (m * 2 ^ e - 2 ^ e) := by
      have := onGrid_of_nat (m := m - 1) (by omega) he
      rwa [Nat.cast_sub (by omega), Nat.cast_one, sub_mul, one_mul] at this
    by_contra hge
    have hlow : m * 2 ^ e - 2 ^ e < x := by
      by_contra hle
      have := hp.le_of_le hgrid (not_lt.mp hle)
      linarith
    have hnearest := hp.le _ hgrid
    generalize (m : ℚ) * 2 ^ e = w at *
    generalize (2 : ℚ) ^ e = t at *
    norm_num at hlong hx
    rw [abs_of_nonpos (by linarith), abs_of_nonneg (by linarith)] at hnearest
    linarith
  · -- at a power of two the predecessor is half a unit away
    have hgrid := onGrid_of_nat (m := 2 ^ 53 - 1) (e := e - 1) (by decide) (by omega)
    have hvalue : ((2 ^ 53 - 1 : ℕ) : ℚ) * 2 ^ (e - 1) = (2 ^ 52 : ℕ) * 2 ^ e - 2 ^ e / 2 := by
      rw [zpow_sub_one₀ two_ne_zero]
      push_cast
      ring
    rw [hvalue] at hgrid
    have hle := hp.le_of_le hgrid (hx.trans_eq (by push_cast; ring))
    exact hle.trans_lt (sub_lt_self _ (half_pos hunit))

theorem Canonical.exists_of_nonneg {u : Float.Model.UnpackedFloat} (hu : Canonical u)
    (h : 0 ≤ numberOf u) : ∃ (m : ℕ) (e : ℤ), numberOf u = m * 2 ^ e ∧ m < 2 ^ 53 ∧ -1074 ≤ e ∧
      (e = -1074 ∨ 2 ^ 52 ≤ m) := by
  rcases hu.zero_or_finite with ⟨s, rfl⟩ | ⟨s, m, e, hm, rfl⟩
  · exact ⟨0, -1074, by simp [numberOf], by decide, le_rfl, .inl rfl⟩
  · cases s with
    | positive => exact ⟨m, e, rfl, hu⟩
    | negative =>
      have := numberOf_pos (e := e) hm
      rw [numberOf_negative] at h
      linarith

theorem OnGrid.exists_multiple {x : ℚ} (h : OnGrid x) : ∃ n : ℤ, x = n * 2 ^ (-1074 : ℤ) := by
  obtain ⟨m, e, -, he, rfl⟩ := h
  refine ⟨m * 2 ^ (e + 1074).toNat, ?_⟩
  rw [Int.cast_mul, Int.cast_pow, Int.cast_ofNat, ← zpow_natCast,
    Int.toNat_of_nonneg (by omega), mul_assoc, ← zpow_add₀ two_ne_zero, add_neg_cancel_right]

/-- A part of a rounded difference is rounded to no more than the difference. -/
theorem Nearest.part_le {a b p u : ℚ} {w : Float.Model.UnpackedFloat} (ha : OnGrid a)
    (hb : OnGrid b) (hab : a ≤ b) (hcanonical : Canonical w) (hw : Nearest (b - a) (numberOf w)) (hu : OnGrid u)
    (hu1 : u < 1) (hp : Nearest (numberOf w * u) p) : p ≤ b - a := by
  have hw0 := hw.ge_of_ge onGrid_zero (sub_nonneg.mpr hab)
  have hpw := hp.le_of_le hcanonical.onGrid (mul_le_of_le_one_right hw0 hu1.le)
  rcases le_or_gt (numberOf w) (b - a) with hle | hgt
  · exact hpw.trans hle
  · obtain ⟨m, e, hnumber, hshort, he, hlong⟩ := hcanonical.exists_of_nonneg hw0
    by_cases hplace : 2 ^ 52 < m ∧ -1074 ≤ e ∨ m = 2 ^ 52 ∧ -1074 < e
    · have hlt : p < numberOf w := by
        have hshrunk := mul_le_mul_of_nonneg_left (hu.le_of_lt_one hu1) hw0
        rw [hnumber] at hp hshrunk ⊢
        exact hp.lt_of_shrunk hshort hplace hshrunk
      -- beyond the difference the part would be nearer to it than the width
      by_contra hpd
      have := hw.le p hp.onGrid
      rw [abs_of_nonpos (by linarith), abs_of_nonpos (by linarith)] at this
      linarith
    · -- a difference this small is exact
      obtain rfl : e = -1074 := by omega
      have hm : m ≤ 2 ^ 52 := by omega
      have hgrid : OnGrid (b - a) := by
        obtain ⟨i, rfl⟩ := ha.exists_multiple
        obtain ⟨j, rfl⟩ := hb.exists_multiple
        have hunit : (0 : ℚ) < 2 ^ (-1074 : ℤ) := by positivity
        have hij : i ≤ j := by exact_mod_cast le_of_mul_le_mul_right hab hunit
        have hlt : j - i < m := by
          rw [hnumber, ← sub_mul] at hgt
          exact_mod_cast lt_of_mul_lt_mul_right hgt hunit.le
        refine ⟨j - i, -1074, abs_lt.mpr ⟨by omega, by omega⟩, le_rfl, ?_⟩
        rw [Int.cast_sub, sub_mul]
      have := hw.eq_of_onGrid hgrid
      linarith

/-! ## Points -/

theorem value_zero : value 0.0 = 0 := rfl

theorem value_one : value 1.0 = 1 := by
  have hone : (1.0 : Float).toModel.unpack = .finite .positive (2 ^ 52) (-52) (by decide) := by rfl
  rw [value, hone]
  norm_num [numberOf, signed]

theorem isFinite_zero : (0.0 : Float).isFinite = true := by rfl

theorem isFinite_one : (1.0 : Float).isFinite = true := by rfl

variable {lower upper u : Float}

/-- Between finite bounds it is the numbers that are compared. -/
theorem isWithin_of_value (hl : lower.isFinite = true) (hu : upper.isFinite = true) {a : Float}
    (h : a.isFinite = true ∧ value lower ≤ value a ∧ value a ≤ value upper) :
    isWithin lower upper a = true :=
  isWithin_iff.mpr ⟨(le_iff_value hl h.1).mpr h.2.1, (le_iff_value h.1 hu).mpr h.2.2⟩

/-- A point that is drawn lies in the interval unless the width overflows. -/
theorem isWithin_draw_iff (hl : lower.isFinite = true) (hu : upper.isFinite = true)
    (hle : lower ≤ upper) (hu0 : 0.0 ≤ u) (hu1 : u < 1.0) :
    isWithin lower upper (lower + (upper - lower) * u) = true ↔ (upper - lower).isFinite = true := by
  constructor
  · exact fun h => (isFinite_of_mul (isFinite_of_add (isFinite_of_isWithin hl hu h)).2).1
  · intro hw
    have hunit := isFinite_of_le isFinite_zero isFinite_one hu0 (le_of_lt hu1)
    have hle := (le_iff_value hl hu).mp hle
    have h0 := (le_iff_value isFinite_zero hunit).mp hu0
    have h1 : value u < 1 := by
      by_contra hge
      rw [← value_one] at hge
      exact not_le_of_lt hu1 ((le_iff_value isFinite_one hunit).mpr (not_lt.mp hge))
    have hwidth := (rounded_sub hu hl).nearest hw
    have hw0 := hwidth.ge_of_ge onGrid_zero (sub_nonneg.mpr hle)
    rw [value_zero] at h0
    have hproduct := rounded_mul hw hunit
    obtain ⟨hfinite, hp0, -⟩ := hproduct.between isFinite_zero hw (mul_nonneg hw0 h0)
      (mul_le_of_le_one_right hw0 h1.le)
    have hpart := hwidth.part_le (onGrid_value hl) (onGrid_value hu) hle (canonical_of_isFinite hw).1
      (onGrid_value hunit) h1 (hproduct.nearest hfinite)
    rw [value_zero] at hp0
    exact isWithin_of_value hl hu
      ((rounded_add hl hfinite).between hl hu (by linarith) (by linarith))

theorem OnGrid.double {x : ℚ} (h : OnGrid x) : OnGrid (2 * x) := by
  obtain ⟨m, e, hm, he, rfl⟩ := h
  refine ⟨m, e + 1, hm, by omega, ?_⟩
  rw [zpow_add_one₀ two_ne_zero]
  ring

/-- The middle lies in the interval unless the sum of the bounds overflows. -/
theorem isWithin_middle_iff (hl : lower.isFinite = true) (hu : upper.isFinite = true)
    (hle : lower ≤ upper) :
    isWithin lower upper ((lower + upper) / 2.0) = true ↔ (lower + upper).isFinite = true := by
  constructor
  · exact fun h => isFinite_of_half (isFinite_of_isWithin hl hu h)
  · intro hs
    have hle := (le_iff_value hl hu).mp hle
    have hsum := (rounded_add hl hu).nearest hs
    -- twice a bound is no number to round
    have hlow := hsum.ge_of_ge (onGrid_value hl).double (by linarith)
    have hhigh := hsum.le_of_le (onGrid_value hu).double (by linarith)
    exact isWithin_of_value hl hu ((rounded_half hs).between hl hu (by linarith) (by linarith))

end FormulaSearch.Double
