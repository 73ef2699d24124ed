import Mathlib.Algebra.Order.Field.Power
import Mathlib.Data.Int.Log
import Mathlib.Data.Rat.Floor
import Mathlib.Tactic.Linarith
import Mathlib.Tactic.NormNum
import Mathlib.Tactic.Positivity
import FormulaSearch.Decimal.Digits

/-!
# The nearest double

What the natural number arithmetic of the reader and the printers computes, said of rational numbers. A
quotient is rounded to the nearest integer, an exponent is a logarithm, and the bits found for a quotient
are those of the double nearest to it; so they depend on the quotient alone. A number that rounds to a
double within the interval of that double has the bits of that double.
-/

namespace FormulaSearch.Decimal

/-! ## Powers -/

@[simp] theorem cast_twoTo (n : Nat) : (twoTo n : ℚ) = 2 ^ n := by
  simp [twoTo]

@[simp] theorem cast_tenTo (n : Nat) : (tenTo n : ℚ) = 10 ^ n := by
  simp [tenTo]

theorem twoTo_pos (n : Nat) : 0 < twoTo n := Nat.pow_pos (by decide)

theorem tenTo_pos (n : Nat) : 0 < tenTo n := Nat.pow_pos (by decide)

/-- A power with an integer exponent, as numerator over denominator. -/
theorem pow_toNat_div {b : ℚ} (hb : b ≠ 0) (e : ℤ) : b ^ e.toNat / b ^ (-e).toNat = b ^ e := by
  rw [← zpow_natCast, ← zpow_natCast, ← zpow_sub₀ hb]
  congr 1
  omega

/-- A quotient scaled by a power on both sides. -/
theorem scaled_div {b : ℚ} (hb : b ≠ 0) (p q : ℚ) (e : ℤ) :
    p * b ^ (-e).toNat / (q * b ^ e.toNat) = p / q / b ^ e := by
  rw [← pow_toNat_div hb e]
  have hpos : b ^ e.toNat ≠ 0 := pow_ne_zero _ hb
  have hneg : b ^ (-e).toNat ≠ 0 := pow_ne_zero _ hb
  rw [mul_div_mul_comm, div_div_eq_mul_div, mul_div_assoc]

theorem log_eq {b : ℕ} (hb : 1 < b) {x : ℚ} {k : ℤ} (hlow : (b : ℚ) ^ k ≤ x)
    (hhigh : x < (b : ℚ) ^ (k + 1)) : Int.log b x = k := by
  have hx : 0 < x := lt_of_lt_of_le (zpow_pos (by exact_mod_cast Nat.zero_lt_of_lt hb) k) hlow
  have hge := (Int.zpow_le_iff_le_log hb hx).mp hlow
  have hlt := (Int.lt_zpow_iff_log_lt hb hx).mp hhigh
  omega

/-! ## Rounding a quotient -/

/-- `r` is the integer nearest to `x`, and even if it is only one of two. -/
structure RoundsTo (x : ℚ) (r : ℕ) : Prop where
  low : r - 1 / 2 ≤ x
  high : x ≤ r + 1 / 2
  even_of_low : x = r - 1 / 2 → r % 2 = 0
  even_of_high : x = r + 1 / 2 → r % 2 = 0

theorem RoundsTo.le {x : ℚ} {r s : ℕ} (hr : RoundsTo x r) (hs : RoundsTo x s) : s ≤ r := by
  by_contra hlt
  have hle : (r : ℚ) + 1 ≤ s := by exact_mod_cast Nat.lt_of_not_le hlt
  have hnext : (s : ℚ) = r + 1 := by linarith [hr.high, hs.low]
  have hnext : s = r + 1 := by exact_mod_cast hnext
  -- `x` is the midpoint of two integers next to each other, which cannot both be even
  have := hr.even_of_high (by linarith [hr.high, hs.low])
  have := hs.even_of_low (by linarith [hr.high, hs.low])
  omega

theorem RoundsTo.unique {x : ℚ} {r s : ℕ} (hr : RoundsTo x r) (hs : RoundsTo x s) : r = s :=
  Nat.le_antisymm (hs.le hr) (hr.le hs)

theorem roundHalfEven_rounds {num den : ℕ} (hd : 0 < den) :
    RoundsTo (num / den : ℚ) (roundHalfEven num den) := by
  have hpos : (0 : ℚ) < den := by exact_mod_cast hd
  have hsplit : (num / den : ℚ) = (num / den : ℕ) + (num % den : ℕ) / den := by
    rw [div_eq_iff hpos.ne', add_mul, div_mul_cancel₀ _ hpos.ne']
    exact_mod_cast (Nat.div_add_mod' num den).symm
  have hlt : num % den < den := Nat.mod_lt _ hd
  rw [hsplit, roundHalfEven]
  generalize num / den = q at *
  generalize num % den = s at *
  have hnonneg : (0 : ℚ) ≤ s / den := by positivity
  have hlt_one : (s / den : ℚ) < 1 := by
    rw [div_lt_one hpos]
    exact_mod_cast hlt
  have hhalf : (1 / 2 : ℚ) < s / den ↔ den < 2 * s := by
    rw [div_lt_div_iff₀ two_pos hpos, one_mul, mul_comm]
    exact_mod_cast Iff.rfl
  have hhalf_eq : (s / den : ℚ) = 1 / 2 ↔ 2 * s = den := by
    rw [div_eq_div_iff hpos.ne' two_ne_zero, one_mul, mul_comm]
    exact_mod_cast Iff.rfl
  split
  · rename_i hup
    have hge : (1 / 2 : ℚ) ≤ s / den := by
      rcases hup with hup | ⟨hup, -⟩
      · exact (hhalf.mpr hup).le
      · exact (hhalf_eq.mpr hup).ge
    have hnext : ((q + 1 : ℕ) : ℚ) = q + 1 := by push_cast; rfl
    constructor
    · linarith
    · linarith
    · intro htie
      have := hhalf_eq.mp (by linarith)
      omega
    · intro htie
      linarith
  · rename_i hdown
    have hle : (s / den : ℚ) ≤ 1 / 2 := by
      rw [← not_lt, hhalf]
      exact fun h => hdown (.inl h)
    constructor
    · linarith
    · linarith
    · intro htie
      linarith
    · intro htie
      have := hhalf_eq.mp (by linarith)
      omega

/-! ## Exponents -/

section

variable {num den : ℕ}

/-- A quotient lies within a factor of two of the quotient of the leading bits. -/
theorem div_log2_bounds (hn : num ≠ 0) (hd : den ≠ 0) :
    (2 : ℚ) ^ ((num.log2 : ℤ) - den.log2 - 1) < num / den ∧
      (num / den : ℚ) < 2 ^ ((num.log2 : ℤ) - den.log2 + 1) := by
  have hpos : (0 : ℚ) < den := by exact_mod_cast Nat.pos_of_ne_zero hd
  have hnlow : (2 : ℚ) ^ (num.log2 : ℤ) ≤ num := by exact_mod_cast Nat.log2_self_le hn
  have hnhigh : (num : ℚ) < 2 ^ ((num.log2 : ℤ) + 1) := by
    exact_mod_cast Nat.lt_log2_self (n := num)
  have hdlow : (2 : ℚ) ^ (den.log2 : ℤ) ≤ den := by exact_mod_cast Nat.log2_self_le hd
  have hdhigh : (den : ℚ) < 2 ^ ((den.log2 : ℤ) + 1) := by
    exact_mod_cast Nat.lt_log2_self (n := den)
  generalize (num.log2 : ℤ) = a at *
  generalize (den.log2 : ℤ) = b at *
  constructor
  · rw [lt_div_iff₀ hpos]
    calc (2 : ℚ) ^ (a - b - 1) * den < 2 ^ (a - b - 1) * 2 ^ (b + 1) := by gcongr
      _ = 2 ^ a := by rw [← zpow_add₀ (two_ne_zero' ℚ)]; congr 1; omega
      _ ≤ num := hnlow
  · rw [div_lt_iff₀ hpos]
    calc (num : ℚ) < 2 ^ (a + 1) := hnhigh
      _ = 2 ^ (a - b + 1) * 2 ^ b := by rw [← zpow_add₀ (two_ne_zero' ℚ)]; congr 1; omega
      _ ≤ 2 ^ (a - b + 1) * den := by gcongr

/-- Two quantities scaled by a power on either side compare like their quotient and the power. -/
theorem scaled_lt_iff {b : ℚ} (hb : 0 < b) (hd : 0 < den) (e : ℤ) :
    (num : ℚ) * b ^ (-e).toNat < den * b ^ e.toNat ↔ (num / den : ℚ) < b ^ e := by
  have hpos : (0 : ℚ) < den * b ^ e.toNat := by positivity
  rw [← div_lt_one hpos, scaled_div hb.ne', div_lt_one (zpow_pos hb e)]

theorem binaryExponent_eq (hn : num ≠ 0) (hd : den ≠ 0) :
    binaryExponent num den = Int.log 2 (num / den : ℚ) := by
  obtain ⟨hlow, hhigh⟩ := div_log2_bounds hn hd
  rw [binaryExponent]
  generalize (num.log2 : ℤ) - den.log2 = estimate at *
  have hlt : num * twoTo (-estimate).toNat < den * twoTo estimate.toNat ↔
      (num / den : ℚ) < 2 ^ estimate := by
    rw [← scaled_lt_iff two_pos (Nat.pos_of_ne_zero hd), ← cast_twoTo, ← cast_twoTo]
    exact_mod_cast Iff.rfl
  split
  · rename_i h
    exact (log_eq Nat.one_lt_two (by exact_mod_cast hlow.le) (by simpa using hlt.mp h)).symm
  · rename_i h
    exact (log_eq Nat.one_lt_two (by simpa using mt hlt.mpr h) (by exact_mod_cast hhigh)).symm

/-! ## Bits of the nearest double -/

/-- The exponent of the last place of the double nearest to a number. -/
def placeExponent (x : ℚ) : ℤ := max (Int.log 2 x - 52) (-1074)

/-- The bits found for a quotient: the quotient rounded in units of the last place, under the exponent
of that place. -/
theorem nearestBits_eq (hn : num ≠ 0) (hd : den ≠ 0) {r : ℕ}
    (hr : RoundsTo (num / den / 2 ^ placeExponent (num / den)) r) :
    nearestBits num den =
      min ((placeExponent (num / den) + 1074).toNat * twoTo 52 + r) infinityBits := by
  rw [nearestBits, if_neg (by simp [hn, hd]), binaryExponent_eq hn hd]
  change min ((placeExponent (num / den) + 1074).toNat * twoTo 52 +
    roundHalfEven (num * twoTo (-placeExponent (num / den)).toNat)
      (den * twoTo (placeExponent (num / den)).toNat)) infinityBits = _
  have hrounds := @roundHalfEven_rounds (num * twoTo (-placeExponent (num / den)).toNat)
    (den * twoTo (placeExponent (num / den)).toNat)
    (Nat.mul_pos (Nat.pos_of_ne_zero hd) (twoTo_pos _))
  push_cast at hrounds
  rw [cast_twoTo, cast_twoTo, scaled_div two_ne_zero] at hrounds
  rw [hrounds.unique hr]

/-- A number that is not negative is a quotient of natural numbers. -/
theorem natAbs_num_div_den {x : ℚ} (hx : 0 ≤ x) : (x.num.natAbs : ℚ) / x.den = x := by
  rw [Nat.cast_natAbs, abs_of_nonneg (Rat.num_nonneg.mpr hx), Rat.num_div_den]

/-- Every number rounds to some integer. -/
theorem exists_roundsTo {x : ℚ} (hx : 0 ≤ x) : ∃ r, RoundsTo x r := by
  have h := @roundHalfEven_rounds x.num.natAbs x.den x.den_pos
  rw [natAbs_num_div_den hx] at h
  exact ⟨_, h⟩

/-- The bits depend on the quotient alone. -/
theorem nearestBits_congr {num' den' : ℕ} (hd : den ≠ 0) (hd' : den' ≠ 0)
    (h : (num / den : ℚ) = num' / den') : nearestBits num den = nearestBits num' den' := by
  have hpos : (den : ℚ) ≠ 0 := by exact_mod_cast hd
  have hpos' : (den' : ℚ) ≠ 0 := by exact_mod_cast hd'
  by_cases hn : num = 0
  · have hn' : num' = 0 := by
      rw [hn, Nat.cast_zero, zero_div, eq_comm, div_eq_zero_iff] at h
      exact_mod_cast h.resolve_right hpos'
    rw [nearestBits, nearestBits, if_pos (.inl hn), if_pos (.inl hn')]
  · have hn' : num' ≠ 0 := by
      rintro rfl
      rw [Nat.cast_zero, zero_div, div_eq_zero_iff] at h
      exact hn (by exact_mod_cast h.resolve_right hpos)
    obtain ⟨r, hr⟩ := @exists_roundsTo (num / den / 2 ^ placeExponent (num / den)) (by positivity)
    rw [nearestBits_eq hn hd hr, nearestBits_eq hn' hd' (h ▸ hr), h]

/-- From two to the 1024th on the nearest double is infinite. -/
theorem nearestBits_of_large (hd : den ≠ 0) (h : (2 : ℚ) ^ 1024 ≤ num / den) :
    nearestBits num den = infinityBits := by
  have hx : (0 : ℚ) < num / den := lt_of_lt_of_le (by positivity) h
  have hn : num ≠ 0 := by
    rintro rfl
    simp at hx
  have hlog : 1024 ≤ Int.log 2 (num / den : ℚ) :=
    (Int.zpow_le_iff_le_log Nat.one_lt_two hx).mp (by exact_mod_cast h)
  have hplace : placeExponent (num / den) = Int.log 2 (num / den : ℚ) - 52 := by
    rw [placeExponent]
    omega
  have hlow : (2 : ℚ) ^ 52 ≤ num / den / 2 ^ placeExponent (num / den) := by
    rw [le_div_iff₀ (by positivity), hplace, ← zpow_natCast, ← zpow_add₀ two_ne_zero]
    have := Int.zpow_log_le_self Nat.one_lt_two hx
    rw [show ((52 : ℕ) : ℤ) + (Int.log 2 (num / den : ℚ) - 52) = Int.log 2 (num / den : ℚ) by omega]
    exact_mod_cast this
  obtain ⟨r, hr⟩ := @exists_roundsTo (num / den / 2 ^ placeExponent (num / den)) (by positivity)
  have hge : 2 ^ 52 ≤ r := by
    have : (2 : ℚ) ^ 52 < r + 1 := by linarith [hr.high]
    have : 2 ^ 52 < r + 1 := by exact_mod_cast this
    omega
  rw [nearestBits_eq hn hd hr, infinityBits, show twoTo 52 = 2 ^ 52 from rfl]
  omega

/-- Below half of the least positive double the nearest double is zero. -/
theorem nearestBits_of_small (hd : den ≠ 0) (h : (num / den : ℚ) < 2 ^ (-1075 : ℤ)) :
    nearestBits num den = 0 := by
  by_cases hn : num = 0
  · rw [nearestBits, if_pos (.inl hn)]
  · have hx : (0 : ℚ) < num / den := by positivity
    have hlog := (Int.lt_zpow_iff_log_lt Nat.one_lt_two hx).mp (by exact_mod_cast h)
    have hplace : placeExponent (num / den) = -1074 := by
      rw [placeExponent]
      omega
    have hhigh : (num / den : ℚ) / 2 ^ (-1074 : ℤ) < 1 / 2 := by
      rw [div_lt_iff₀ (by positivity), one_div, ← zpow_neg_one, ← zpow_add₀ two_ne_zero]
      exact h
    have hr : RoundsTo (num / den / 2 ^ placeExponent (num / den)) 0 := by
      have hlow : (0 : ℚ) ≤ num / den / 2 ^ (-1074 : ℤ) := by positivity
      rw [hplace]
      generalize (num / den : ℚ) / 2 ^ (-1074 : ℤ) = y at *
      constructor
      · rw [Nat.cast_zero]
        linarith
      · rw [Nat.cast_zero]
        linarith
      · exact fun _ => rfl
      · exact fun _ => rfl
    rw [nearestBits_eq hn hd hr, hplace]
    rfl

end

/-! ## Numbers that round to a double -/

namespace Dyadic

/-- The magnitude of a finite double: exponent and mantissa are within the bounds of the format, and the
mantissa is as long as it can be. -/
structure Canonical (d : Dyadic) : Prop where
  mantissa_lt : d.mantissa < 2 ^ 53
  le_exponent : -1074 ≤ d.exponent
  exponent_le : d.exponent ≤ 971
  normal : d.exponent = -1074 ∨ 2 ^ 52 ≤ d.mantissa

/-- The bit pattern of a magnitude. -/
def bits (d : Dyadic) : ℕ := (d.exponent + 1074).toNat * twoTo 52 + d.mantissa

/-- The distance to the midpoint below, in quarters of a unit of the last place. -/
def belowGap (d : Dyadic) : ℕ := if d.mantissa = twoTo 52 ∧ -1074 < d.exponent then 1 else 2

/-- A number that rounds to the double: in units of the last place it lies between the midpoints to the
neighbours of the mantissa, and at a midpoint only if the mantissa is even. -/
structure Attracts (d : Dyadic) (x : ℚ) : Prop where
  low : d.mantissa - d.belowGap / 4 ≤ x / 2 ^ d.exponent
  high : x / 2 ^ d.exponent ≤ d.mantissa + 1 / 2
  strict : d.mantissa % 2 = 1 →
    d.mantissa - d.belowGap / 4 < x / 2 ^ d.exponent ∧ x / 2 ^ d.exponent < d.mantissa + 1 / 2

variable {d : Dyadic}

theorem bits_lt_infinityBits (hd : d.Canonical) : d.bits < infinityBits := by
  have := hd.mantissa_lt
  have := hd.exponent_le
  rw [bits, infinityBits, show twoTo 52 = 2 ^ 52 from rfl]
  omega

theorem belowGap_le : d.belowGap ≤ 2 := by
  rw [belowGap]
  split <;> omega

theorem belowGap_pos : 0 < d.belowGap := by
  rw [belowGap]
  split <;> omega

/-- Strictly between the midpoints a number rounds to the double, whatever the mantissa. -/
theorem attracts_of_strict {x : ℚ} (hlow : d.mantissa - d.belowGap / 4 < x / 2 ^ d.exponent)
    (hhigh : x / 2 ^ d.exponent < d.mantissa + 1 / 2) : d.Attracts x :=
  ⟨hlow.le, hhigh.le, fun _ => ⟨hlow, hhigh⟩⟩

/-- The interval of a double holds the numbers that round to it. -/
theorem interval_holds_iff (hm : d.mantissa ≠ 0) {num den : ℕ} (hden : 0 < den) :
    d.interval.holds num den = true ↔ d.Attracts (num / den) := by
  have hgap : d.belowGap ≤ 4 * d.mantissa := by
    have := d.belowGap_le
    omega
  have hpos : (0 : ℚ) < den * 2 ^ d.exponent.toNat := by positivity
  -- both sides of each comparison are multiples of this number
  obtain ⟨scale, hscale⟩ : ∃ scale : ℚ, scale = 4 * (den * 2 ^ d.exponent.toNat) := ⟨_, rfl⟩
  have hscale_pos : 0 < scale := by rw [hscale]; positivity
  have hlow : ((d.interval.low * den : ℕ) : ℚ) = scale * (d.mantissa - d.belowGap / 4) := by
    rw [show d.interval.low = (4 * d.mantissa - d.belowGap) * twoTo d.exponent.toNat from rfl]
    push_cast [Nat.cast_sub hgap, cast_twoTo, hscale]
    ring
  have hhigh : ((d.interval.high * den : ℕ) : ℚ) = scale * (d.mantissa + 1 / 2) := by
    rw [show d.interval.high = (4 * d.mantissa + 2) * twoTo d.exponent.toNat from rfl]
    push_cast [cast_twoTo, hscale]
    ring
  have hnum : ((num * d.interval.den : ℕ) : ℚ) = scale * (num / den / 2 ^ d.exponent) := by
    rw [show d.interval.den = 4 * twoTo (-d.exponent).toNat from rfl,
      ← scaled_div two_ne_zero, hscale, mul_assoc, mul_div_cancel₀ _ hpos.ne']
    push_cast [cast_twoTo]
    ring
  have hlow_le : d.interval.low * den ≤ num * d.interval.den ↔
      (d.mantissa - d.belowGap / 4 : ℚ) ≤ num / den / 2 ^ d.exponent := by
    rw [← @Nat.cast_le ℚ, hlow, hnum, mul_le_mul_iff_right₀ hscale_pos]
  have hlow_lt : d.interval.low * den < num * d.interval.den ↔
      (d.mantissa - d.belowGap / 4 : ℚ) < num / den / 2 ^ d.exponent := by
    rw [← @Nat.cast_lt ℚ, hlow, hnum, mul_lt_mul_iff_right₀ hscale_pos]
  have hhigh_le : num * d.interval.den ≤ d.interval.high * den ↔
      (num / den / 2 ^ d.exponent : ℚ) ≤ d.mantissa + 1 / 2 := by
    rw [← @Nat.cast_le ℚ, hhigh, hnum, mul_le_mul_iff_right₀ hscale_pos]
  have hhigh_lt : num * d.interval.den < d.interval.high * den ↔
      (num / den / 2 ^ d.exponent : ℚ) < d.mantissa + 1 / 2 := by
    rw [← @Nat.cast_lt ℚ, hhigh, hnum, mul_lt_mul_iff_right₀ hscale_pos]
  rw [Interval.holds, show d.interval.closed = (d.mantissa % 2 == 0) from rfl]
  split
  · rename_i heven
    rw [Bool.and_eq_true, decide_eq_true_iff, decide_eq_true_iff, hlow_le, hhigh_le]
    refine ⟨fun h => ⟨h.1, h.2, fun hodd => ?_⟩, fun h => ⟨h.low, h.high⟩⟩
    have := eq_of_beq heven
    omega
  · rename_i hodd
    rw [Bool.and_eq_true, decide_eq_true_iff, decide_eq_true_iff, hlow_lt, hhigh_lt]
    refine ⟨fun h => attracts_of_strict h.1 h.2, fun h => h.strict ?_⟩
    have : d.mantissa % 2 ≠ 0 := fun h => hodd (beq_iff_eq.mpr h)
    omega

/-- The logarithm of a number, from its quotient by a unit. -/
theorem log_of_scaled {x : ℚ} {e : ℤ} {k : ℕ} (hlow : (2 : ℚ) ^ k ≤ x / 2 ^ e)
    (hhigh : x / 2 ^ e < 2 ^ (k + 1)) : Int.log 2 x = k + e := by
  have hunit : (0 : ℚ) < 2 ^ e := by positivity
  refine log_eq Nat.one_lt_two ?_ ?_
  · rw [le_div_iff₀ hunit] at hlow
    rw [Nat.cast_ofNat, zpow_add₀ two_ne_zero, zpow_natCast]
    exact hlow
  · rw [div_lt_iff₀ hunit] at hhigh
    rw [Nat.cast_ofNat, add_right_comm, zpow_add₀ two_ne_zero]
    exact_mod_cast hhigh

/-- Where the nearest double has its last place: at the exponent of the double that a number rounds to, or
one below if the number is less than the least normal mantissa. -/
theorem placeExponent_of_attracts (hd : d.Canonical) (hm : d.mantissa ≠ 0) {x : ℚ}
    (h : d.Attracts x) :
    placeExponent x = d.exponent ∨
      placeExponent x = d.exponent - 1 ∧ d.mantissa = twoTo 52 ∧ d.belowGap = 1 ∧
        x / 2 ^ d.exponent < d.mantissa := by
  have hunit : (0 : ℚ) < 2 ^ d.exponent := by positivity
  have hgap : (d.belowGap : ℚ) ≤ 2 := by exact_mod_cast d.belowGap_le
  have hmpos : (1 : ℚ) ≤ d.mantissa := by exact_mod_cast Nat.one_le_iff_ne_zero.mpr hm
  have hypos : 0 < x / 2 ^ d.exponent := by linarith [h.low]
  have hx : 0 < x := by
    rw [← div_mul_cancel₀ x hunit.ne']
    positivity
  have hyhigh : x / 2 ^ d.exponent < 2 ^ 53 := by
    have : (d.mantissa : ℚ) + 1 ≤ 2 ^ 53 := by exact_mod_cast hd.mantissa_lt
    linarith [h.high]
  rcases lt_or_ge (x / 2 ^ d.exponent) (2 ^ 52) with hsmall | hnormal
  · by_cases hleast : d.exponent = -1074
    · left
      have : Int.log 2 x < 52 + d.exponent := by
        rw [← Int.lt_zpow_iff_log_lt Nat.one_lt_two hx]
        rw [div_lt_iff₀ hunit] at hsmall
        rw [Nat.cast_ofNat, zpow_add₀ two_ne_zero]
        exact_mod_cast hsmall
      rw [placeExponent]
      omega
    · right
      have hmantissa := hd.normal.resolve_left hleast
      have hexponent := hd.le_exponent
      have hleading : d.mantissa = twoTo 52 := by
        by_contra hne
        have hne : d.mantissa ≠ 2 ^ 52 := hne
        have hlt : 2 ^ 52 + 1 ≤ d.mantissa := by omega
        have : (2 : ℚ) ^ 52 + 1 ≤ d.mantissa := by exact_mod_cast hlt
        linarith [h.low]
      have hone : d.belowGap = 1 := by
        rw [belowGap, if_pos ⟨hleading, by omega⟩]
      have hcast : (d.mantissa : ℚ) = 2 ^ 52 := by rw [hleading, cast_twoTo]
      have hlow := h.low
      rw [hone, hcast] at hlow
      have := @log_of_scaled x d.exponent 51 (by linarith) hsmall
      refine ⟨?_, hleading, hone, hcast ▸ hsmall⟩
      rw [placeExponent]
      omega
  · left
    have := log_of_scaled hnormal hyhigh
    have := hd.le_exponent
    rw [placeExponent]
    omega

/-- A number that rounds to a double has it for its nearest double. -/
theorem nearestBits_of_attracts (hd : d.Canonical) (hm : d.mantissa ≠ 0) {num den : ℕ}
    (hden : den ≠ 0) (h : d.Attracts (num / den)) : nearestBits num den = d.bits := by
  have hgap : (d.belowGap : ℚ) ≤ 2 := by exact_mod_cast d.belowGap_le
  have hn : num ≠ 0 := by
    rintro rfl
    have hlow := h.low
    have hmpos : (1 : ℚ) ≤ d.mantissa := by exact_mod_cast Nat.one_le_iff_ne_zero.mpr hm
    rw [Nat.cast_zero, zero_div, zero_div] at hlow
    linarith
  rcases placeExponent_of_attracts hd hm h with hplace | ⟨hplace, hleading, hone, hbelow⟩
  · have hr : RoundsTo (num / den / 2 ^ placeExponent (num / den)) d.mantissa := by
      rw [hplace]
      have hodd := h.strict
      constructor
      · linarith [h.low]
      · exact h.high
      · intro htie
        by_contra hne
        linarith [(hodd (by omega)).1]
      · intro htie
        by_contra hne
        linarith [(hodd (by omega)).2]
    rw [nearestBits_eq hn hden hr, hplace]
    exact Nat.min_eq_left (bits_lt_infinityBits hd).le
  · -- just below the least normal mantissa the unit is half as large
    have hcast : (d.mantissa : ℚ) = 2 ^ 52 := by rw [hleading, cast_twoTo]
    have hlow := h.low
    have hr : RoundsTo (num / den / 2 ^ placeExponent (num / den)) (2 ^ 53) := by
      rw [hplace, zpow_sub_one₀ two_ne_zero, div_mul_eq_div_div, div_inv_eq_mul]
      rw [hone, hcast] at hlow
      rw [hcast] at hbelow
      push_cast
      constructor
      · linarith
      · linarith
      · intro
        decide
      · intro
        decide
    have hbound : -1074 ≤ d.exponent - 1 := hplace ▸ le_max_right _ _
    have hbits : (d.exponent - 1 + 1074).toNat * twoTo 52 + 2 ^ 53 = d.bits := by
      rw [bits, hleading, show twoTo 52 = 2 ^ 52 from rfl]
      omega
    rw [nearestBits_eq hn hden hr, hplace, hbits]
    exact Nat.min_eq_left (bits_lt_infinityBits hd).le

end Dyadic

end FormulaSearch.Decimal
