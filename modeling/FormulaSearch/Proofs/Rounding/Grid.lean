import Mathlib
import FormulaSearch.Proofs.Decimal.Nearest

/-!
# Numbers with a short mantissa

Doubles without a greatest exponent: the numbers whose mantissa has at most 53 bits above a fixed least
place. Rounding is to a nearest one of them, so it keeps the order and moves none of them.
-/

namespace FormulaSearch.Decimal

theorem RoundsTo.le_of_le {x : ℚ} {r n : ℕ} (h : RoundsTo x r) (hx : x ≤ n) : r ≤ n := by
  have : (r : ℚ) < n + 1 := by linarith [h.low]
  have : r < n + 1 := by exact_mod_cast this
  omega

theorem RoundsTo.ge_of_ge {x : ℚ} {r n : ℕ} (h : RoundsTo x r) (hx : n ≤ x) : n ≤ r := by
  have : (n : ℚ) < r + 1 := by linarith [h.high]
  have : n < r + 1 := by exact_mod_cast this
  omega

end FormulaSearch.Decimal

namespace FormulaSearch.Double

open Float.Model (UnpackedFloat)
open Float.Model.UnpackedFloat (Sign)

/-! ## Numbers -/

/-- A number on the side of zero that the sign names. -/
def signed : Sign → ℚ → ℚ
  | .negative, x => -x
  | .positive, x => x

/-- The number that an unpacked double denotes; one that is not finite counts as zero. -/
def numberOf : UnpackedFloat → ℚ
  | .finite s m e _ => signed s (m * 2 ^ e)
  | .zero _ | .infinity _ | .notANumber => 0

/-- The number that a double denotes. -/
def value (a : Float) : ℚ := numberOf a.toModel.unpack

/-- The numbers of a format whose exponents have no upper bound: those with a mantissa of 53 bits. -/
def OnGrid (x : ℚ) : Prop := ∃ m e : ℤ, |m| < 2 ^ 53 ∧ -1074 ≤ e ∧ x = m * 2 ^ e

theorem onGrid_zero : OnGrid 0 := ⟨0, 0, by decide, by decide, by simp⟩

theorem OnGrid.neg {x : ℚ} (h : OnGrid x) : OnGrid (-x) := by
  obtain ⟨m, e, hm, he, rfl⟩ := h
  exact ⟨-m, e, by rwa [abs_neg], he, by push_cast; ring⟩

theorem onGrid_of_nat {m : ℕ} {e : ℤ} (hm : m ≤ 2 ^ 53) (he : -1074 ≤ e) :
    OnGrid (m * 2 ^ e) := by
  rcases Nat.lt_or_eq_of_le hm with hm | rfl
  · exact ⟨m, e, by rw [Nat.abs_cast]; exact_mod_cast hm, he, by push_cast; rfl⟩
  · refine ⟨2 ^ 52, e + 1, by decide, by omega, ?_⟩
    rw [zpow_add_one₀ two_ne_zero]
    push_cast
    ring

/-- Of the numbers of the grid, `v` is one that is nearest to `x`. -/
structure Nearest (x v : ℚ) : Prop where
  onGrid : OnGrid v
  le : ∀ g, OnGrid g → |x - v| ≤ |x - g|

theorem Nearest.neg {x v : ℚ} (h : Nearest x v) : Nearest (-x) (-v) where
  onGrid := h.onGrid.neg
  le g hg := by
    have := h.le (-g) hg.neg
    rw [← abs_neg (-x - -v), ← abs_neg (-x - g)]
    convert this using 2 <;> ring

theorem Nearest.signed {x v : ℚ} (h : Nearest x v) (s : Sign) :
    Nearest (signed s x) (Double.signed s v) := by
  cases s with
  | negative => exact h.neg
  | positive => exact h

theorem OnGrid.nearest_self {x : ℚ} (h : OnGrid x) : Nearest x x where
  onGrid := h
  le g _ := by simp

/-- What is below a number of the grid is not rounded beyond it. -/
theorem Nearest.le_of_le {x v g : ℚ} (h : Nearest x v) (hg : OnGrid g) (hle : x ≤ g) : v ≤ g := by
  have := h.le g hg
  by_contra hlt
  rw [abs_of_nonpos (by linarith), abs_of_nonpos (by linarith)] at this
  linarith

theorem Nearest.ge_of_ge {x v g : ℚ} (h : Nearest x v) (hg : OnGrid g) (hle : g ≤ x) : g ≤ v := by
  have := h.neg.le_of_le hg.neg (neg_le_neg hle)
  linarith

theorem Nearest.eq_of_onGrid {x v : ℚ} (h : Nearest x v) (hx : OnGrid x) : v = x :=
  le_antisymm (h.le_of_le hx le_rfl) (h.ge_of_ge hx le_rfl)

/-- Rounding to an integer in units of the last place is rounding to the grid. -/
theorem nearest_of_roundsTo {y : ℚ} {r : ℕ} {t : ℤ} (hr : Decimal.RoundsTo y r) (hy : y < 2 ^ 53)
    (ht : -1074 ≤ t) (hplace : t = -1074 ∨ 2 ^ 52 ≤ y) : Nearest (y * 2 ^ t) (r * 2 ^ t) where
  onGrid := by
    exact onGrid_of_nat (hr.le_of_le (by exact_mod_cast hy.le)) ht
  le g hg := by
    obtain ⟨m, e, hm, he, rfl⟩ := hg
    have hunit : (0 : ℚ) < 2 ^ t := by positivity
    have hscale (a : ℚ) : |y * 2 ^ t - a * 2 ^ t| = |y - a| * 2 ^ t := by
      rw [← sub_mul, abs_mul, abs_of_pos hunit]
    have hinteger (n : ℤ) : |y - r| ≤ |y - n| := by
      have hhalf : |y - r| ≤ 1 / 2 := abs_le.mpr ⟨by linarith [hr.low], by linarith [hr.high]⟩
      rcases eq_or_ne n r with rfl | hne
      · simp
      · -- another integer is at least one away from the nearest
        have hapart : (1 : ℚ) ≤ |(n : ℚ) - r| := by
          exact_mod_cast Int.one_le_abs (sub_ne_zero.mpr hne)
        have := abs_sub_le (n : ℚ) y r
        rw [abs_sub_comm (n : ℚ) y] at this
        linarith
    have hexponent : (m : ℚ) * 2 ^ e = m * 2 ^ (e - t) * 2 ^ t := by
      rw [mul_assoc, ← zpow_add₀ two_ne_zero, sub_add_cancel]
    rw [hexponent, hscale, hscale]
    refine mul_le_mul_of_nonneg_right ?_ hunit.le
    rcases le_or_gt t e with hte | hte
    · have := hinteger (m * 2 ^ (e - t).toNat)
      have hcast : ((m * 2 ^ (e - t).toNat : ℤ) : ℚ) = m * 2 ^ (e - t) := by
        push_cast
        rw [← zpow_natCast, Int.toNat_of_nonneg (by omega)]
      rwa [hcast] at this
    · -- below the unit the numbers of the grid lie further down than the least mantissa
      have hy := hplace.resolve_left (by omega)
      have := hinteger (2 ^ 52)
      refine this.trans ?_
      push_cast
      have hsmall : (m : ℚ) * 2 ^ (e - t) ≤ 2 ^ 52 := by
        have hm : (m : ℚ) ≤ 2 ^ 53 := by
          have := (abs_lt.mp hm).2
          exact_mod_cast this.le
        have hp : (2 : ℚ) ^ (e - t) ≤ 2 ^ (-1 : ℤ) := zpow_le_zpow_right₀ (by norm_num) (by omega)
        have h0 : (0 : ℚ) < 2 ^ (e - t) := by positivity
        calc (m : ℚ) * 2 ^ (e - t) ≤ 2 ^ 53 * 2 ^ (e - t) := by gcongr
          _ ≤ 2 ^ 53 * 2 ^ (-1 : ℤ) := by gcongr
          _ = 2 ^ 52 := by norm_num
      rw [abs_of_nonneg (by linarith), abs_of_nonneg (by linarith)]
      linarith

end FormulaSearch.Double
