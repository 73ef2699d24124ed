import Mathlib
import FormulaSearch.Proofs.Rounding.Grid

/-!
# Rounding a mantissa

A mantissa is shifted with two guard bits, which say whether what is lost reaches a half and whether there
is more. These are enough to round to the nearest integer, and in units of the last place that is kept
this is rounding to the nearest number with a short mantissa.
-/

namespace FormulaSearch.Double

open Float.Model (Format UnpackedFloat totalExponent)
open Float.Model.UnpackedFloat

/-! ## Guard bits -/

/-- The number up to the round bit: the integer part, and a half if the bit is set. -/
def halves (em : ExtendedMantissa) : ℚ := em.mantissa + if em.roundBit then 1 / 2 else 0

/-- An extended mantissa stands for a number: its integer part, whether the rest reaches a half, and
whether there is more. -/
structure StandsFor (em : ExtendedMantissa) (y : ℚ) : Prop where
  low : halves em ≤ y
  high : y < halves em + 1 / 2
  sticky_iff : em.stickyBit = false ↔ y = halves em

section

variable {em : ExtendedMantissa} {y : ℚ}

theorem StandsFor.floor (h : StandsFor em y) : em.mantissa ≤ y ∧ y < em.mantissa + 1 := by
  have hlow := h.low
  have hhigh := h.high
  rw [halves] at hlow hhigh
  constructor
  · split at hlow <;> linarith
  · split at hhigh <;> linarith

theorem StandsFor.exact_iff (h : StandsFor em y) :
    (em.roundBit || em.stickyBit) = false ↔ y = em.mantissa := by
  have hlow := h.low
  have hsticky := h.sticky_iff
  rw [halves] at hlow hsticky
  cases hround : em.roundBit with
  | false => simpa [hround] using hsticky
  | true =>
    rw [if_pos hround] at hlow
    refine iff_of_false (by simp) fun hy => ?_
    linarith

theorem standsFor_exact (m : ℕ) : StandsFor (ExtendedMantissa.ofMantissaAndAccuracy m .exact) m := by
  constructor <;> simp [halves, ExtendedMantissa.ofMantissaAndAccuracy]

/-- A quotient of integers, with the remainder for its accuracy. -/
theorem standsFor_fraction (num : ℕ) {den : ℕ} (hden : 0 < den) :
    StandsFor (ExtendedMantissa.ofMantissaAndAccuracy (num / den)
      (accuracyOfFraction (num % den) den)) (num / den : ℚ) := by
  have hpos : (0 : ℚ) < den := by exact_mod_cast hden
  have hsplit : (num / den : ℚ) = (num / den : ℕ) + (num % den : ℕ) / den := by
    rw [div_eq_iff hpos.ne', add_mul, div_mul_cancel₀ _ hpos.ne']
    exact_mod_cast (Nat.div_add_mod' num den).symm
  have hlt : ((num % den : ℕ) : ℚ) / den < 1 := by
    rw [div_lt_one hpos]
    exact_mod_cast Nat.mod_lt _ hden
  rw [hsplit, accuracyOfFraction]
  generalize num / den = q at *
  generalize num % den = r at *
  split
  · rename_i hzero
    subst hzero
    simpa using standsFor_exact q
  · rename_i hne
    have hrest : (0 : ℚ) < r / den := by
      have : (0 : ℚ) < r := by exact_mod_cast Nat.pos_of_ne_zero hne
      positivity
    rcases Nat.lt_trichotomy (2 * r) den with h | h | h
    · have hhalf : (r / den : ℚ) < 1 / 2 := by
        rw [div_lt_div_iff₀ hpos two_pos, one_mul, mul_comm]
        exact_mod_cast h
      rw [Nat.compare_eq_lt.mpr h]
      show StandsFor ⟨q, false, true⟩ _
      refine ⟨?_, ?_, iff_of_false (by simp) ?_⟩ <;>
        simp only [halves, Bool.false_eq_true, if_false] <;> linarith
    · have hhalf : (r / den : ℚ) = 1 / 2 := by
        rw [div_eq_div_iff hpos.ne' two_ne_zero, one_mul, mul_comm]
        exact_mod_cast h
      rw [Nat.compare_eq_eq.mpr h, hhalf]
      show StandsFor ⟨q, true, false⟩ _
      constructor <;> simp [halves]
    · have hhalf : 1 / 2 < (r / den : ℚ) := by
        rw [div_lt_div_iff₀ two_pos hpos, one_mul, mul_comm]
        exact_mod_cast h
      rw [Nat.compare_eq_gt.mpr h]
      show StandsFor ⟨q, true, true⟩ _
      refine ⟨?_, ?_, iff_of_false (by simp) ?_⟩ <;> simp only [halves, if_true] <;> linarith

theorem halves_shiftRightOne (em : ExtendedMantissa) : halves em.shiftRightOne = em.mantissa / 2 := by
  have hsplit : (em.mantissa : ℚ) = 2 * (em.mantissa / 2 : ℕ) + (em.mantissa % 2 : ℕ) := by
    exact_mod_cast (Nat.div_add_mod em.mantissa 2).symm
  rw [halves, ExtendedMantissa.shiftRightOne]
  dsimp only
  rw [hsplit]
  rcases Nat.mod_two_eq_zero_or_one em.mantissa with hparity | hparity
  · simp [hparity]
  · simp [hparity]
    ring

theorem StandsFor.shiftRightOne (h : StandsFor em y) : StandsFor em.shiftRightOne (y / 2) := by
  obtain ⟨hlow, hhigh⟩ := h.floor
  refine ⟨?_, ?_, ?_⟩
  · rw [halves_shiftRightOne]
    linarith
  · rw [halves_shiftRightOne]
    linarith
  · rw [halves_shiftRightOne, div_left_inj' two_ne_zero]
    exact h.exact_iff

/-- Shifting by some places divides by a power of two. -/
theorem StandsFor.shiftRight (h : StandsFor em y) (n : ℕ) : StandsFor (em >>> n) (y / 2 ^ n) := by
  induction n with
  | zero =>
    rw [pow_zero, div_one]
    exact h
  | succ n ih =>
    have := ih.shiftRightOne
    rwa [div_div, ← pow_succ] at this

theorem roundsTo_of_strict {x : ℚ} {r : ℕ} (hlow : r - 1 / 2 < x) (hhigh : x < r + 1 / 2) :
    Decimal.RoundsTo x r where
  low := hlow.le
  high := hhigh.le
  even_of_low h := absurd h hlow.ne'
  even_of_high h := absurd h hhigh.ne

/-- The bits say enough to round to the nearest integer. -/
theorem StandsFor.roundsTo (h : StandsFor em y) : Decimal.RoundsTo y em.roundedMantissa := by
  obtain ⟨m, round, sticky⟩ := em
  obtain ⟨hlow, hhigh, hsticky⟩ := h
  simp only [halves] at hlow hhigh hsticky
  cases round with
  | false =>
    have hrounded : (ExtendedMantissa.mk m false sticky).roundedMantissa = m := by
      cases sticky <;> rfl
    rw [hrounded]
    simp only [Bool.false_eq_true, if_false] at hlow hhigh
    exact roundsTo_of_strict (by linarith) (by linarith)
  | true =>
    simp only [if_true] at hlow hhigh hsticky
    cases sticky with
    | true =>
      have hne : y ≠ m + 1 / 2 := fun hy => by simpa using hsticky.mpr hy
      have hlow := lt_of_le_of_ne hlow hne.symm
      show Decimal.RoundsTo y (m + 1)
      refine roundsTo_of_strict ?_ ?_
      · push_cast
        linarith
      · push_cast
        linarith
    | false =>
      -- a half that is exact goes to the even neighbour
      have hy := hsticky.mp rfl
      show Decimal.RoundsTo y (m + m % 2)
      rcases Nat.mod_two_eq_zero_or_one m with hparity | hparity
      · rw [hparity]
        refine ⟨?_, ?_, fun _ => by omega, fun _ => by omega⟩
        · push_cast
          linarith
        · push_cast
          linarith
      · rw [hparity]
        refine ⟨?_, ?_, fun _ => by omega, fun _ => by omega⟩
        · push_cast
          linarith
        · push_cast
          linarith

end

/-! ## Rounding -/

/-- The exponent of the last place that is kept of a mantissa. -/
def place (m : ℕ) (e : ℤ) : ℤ := max (m.log2 + 1 + e - 53) (-1074)

theorem shiftToTargetExponent_eq (m : ℕ) (e : ℤ) (accuracy : Accuracy) :
    shiftToTargetExponent Format.binary64 m e accuracy =
      (ExtendedMantissa.ofMantissaAndAccuracy m accuracy >>> (place m e - e).toNat,
        e + (place m e - e).toNat) := rfl

/-- A finite number or zero. -/
def ofMagnitude (s : Sign) (m : ℕ) (e : ℤ) : UnpackedFloat :=
  if h : m = 0 then .zero s else .finite s m e (Nat.pos_of_ne_zero h)

theorem numberOf_ofMagnitude (s : Sign) (m : ℕ) (e : ℤ) :
    numberOf (ofMagnitude s m e) = signed s (m * 2 ^ e) := by
  rw [ofMagnitude]
  split
  · rename_i hzero
    subst hzero
    cases s <;> simp [numberOf, signed]
  · rfl

/-- A finite number with a mantissa that is as long as it can be, under an exponent that may be too large
for the format. -/
def Canonical : UnpackedFloat → Prop
  | .finite _ m e _ => m < 2 ^ 53 ∧ -1074 ≤ e ∧ (e = -1074 ∨ 2 ^ 52 ≤ m)
  | .zero _ => True
  | .infinity _ | .notANumber => False

theorem canonical_ofMagnitude (s : Sign) {m : ℕ} {e : ℤ} (hm : m < 2 ^ 53) (he : -1074 ≤ e)
    (hplace : e = -1074 ∨ 2 ^ 52 ≤ m) : Canonical (ofMagnitude s m e) := by
  rw [ofMagnitude]
  split
  · trivial
  · exact ⟨hm, he, hplace⟩

theorem shift_short {m : ℕ} {e : ℤ} (hm : m < 2 ^ 53) (he : -1074 ≤ e) :
    shiftToTargetExponent Format.binary64 m e .exact = (⟨m, false, false⟩, e) := by
  have hlog : m.log2 ≤ 52 := by
    by_cases hzero : m = 0
    · simp [hzero]
    · have := (Nat.log2_lt hzero).mpr hm
      omega
  have hshift : (place m e - e).toNat = 0 := by
    rw [place]
    omega
  rw [shiftToTargetExponent_eq, hshift, Nat.cast_zero, add_zero]
  rfl

/-- A mantissa that has been rounded up to one bit more gives it back. -/
theorem shift_carry {e : ℤ} (he : -1074 ≤ e) :
    shiftToTargetExponent Format.binary64 (2 ^ 53) e .exact = (⟨2 ^ 52, false, false⟩, e + 1) := by
  have hshift : (place (2 ^ 53) e - e).toNat = 1 := by
    rw [place, Nat.log2_two_pow]
    omega
  rw [shiftToTargetExponent_eq, hshift, Nat.cast_one]
  rfl

theorem mantissa_ofMantissaAndAccuracy (m : ℕ) (accuracy : Accuracy) :
    (ExtendedMantissa.ofMantissaAndAccuracy m accuracy).mantissa = m := by
  rcases accuracy with _ | _ | _ | _ <;> rfl

/-- A mantissa that has been rounded is brought back to its length. -/
theorem completed (s : Sign) {r : ℕ} {t : ℤ} (hr : r ≤ 2 ^ 53) (ht : -1074 ≤ t)
    (hlong : t = -1074 ∨ 2 ^ 52 ≤ r) :
    let final := shiftToTargetExponent Format.binary64 r t .exact
    Canonical (ofMagnitude s final.1.mantissa final.2) ∧
      numberOf (ofMagnitude s final.1.mantissa final.2) = signed s (r * 2 ^ t) := by
  intro final
  rw [numberOf_ofMagnitude]
  rcases Nat.lt_or_eq_of_le hr with hr | rfl
  · rw [show final = _ from shift_short hr ht]
    exact ⟨canonical_ofMagnitude s hr ht hlong, rfl⟩
  · rw [show final = _ from shift_carry ht]
    refine ⟨canonical_ofMagnitude s (show 2 ^ 52 < 2 ^ 53 by decide) (by omega) (.inr le_rfl), ?_⟩
    rw [zpow_add_one₀ two_ne_zero]
    push_cast
    ring_nf

/-- A mantissa with its accuracy is rounded to the grid, unless places are missing. -/
theorem nearest_roundWithAccuracy {m : ℕ} {e : ℤ} {accuracy : Accuracy} {y : ℚ}
    (h : StandsFor (ExtendedMantissa.ofMantissaAndAccuracy m accuracy) y) (he : e ≤ place m e)
    (s : Sign) :
    Canonical (roundWithAccuracy Format.binary64 s m e accuracy) ∧
      Nearest (signed s (y * 2 ^ e)) (numberOf (roundWithAccuracy Format.binary64 s m e accuracy)) := by
  obtain ⟨hlow, hhigh⟩ := h.floor
  rw [mantissa_ofMantissaAndAccuracy] at hlow hhigh
  have hleast : -1074 ≤ place m e := le_max_right _ _
  have hkept : (m.log2 : ℤ) + 1 + e - 53 ≤ place m e := le_max_left _ _
  obtain ⟨k, hk⟩ : ∃ k : ℕ, place m e = e + k := ⟨(place m e - e).toNat, by omega⟩
  have hshift : (place m e - e).toNat = k := by omega
  have hrounds := (h.shiftRight k).roundsTo
  have hscaled : y / 2 ^ k * 2 ^ place m e = y * 2 ^ e := by
    rw [hk, zpow_add₀ two_ne_zero, zpow_natCast]
    field_simp
  have hshort : y / 2 ^ k < 2 ^ 53 := by
    have hlog : (m : ℚ) + 1 ≤ 2 ^ (53 + k) := by
      have : m + 1 ≤ 2 ^ (m.log2 + 1) := Nat.lt_log2_self
      have hmono : 2 ^ (m.log2 + 1) ≤ 2 ^ (53 + k) := Nat.pow_le_pow_right two_pos (by omega)
      exact_mod_cast this.trans hmono
    rw [div_lt_iff₀ (by positivity), ← pow_add]
    linarith
  have hlong : place m e = -1074 ∨ 2 ^ 52 ≤ y / 2 ^ k := by
    refine or_iff_not_imp_left.mpr fun hne => ?_
    have hlog : m.log2 = 52 + k := by
      rw [place] at hk hne
      omega
    have hm : m ≠ 0 := by
      rintro rfl
      rw [Nat.log2_zero] at hlog
      omega
    have : (2 : ℚ) ^ (52 + k) ≤ m := by
      rw [← hlog]
      exact_mod_cast Nat.log2_self_le hm
    rw [le_div_iff₀ (by positivity), ← pow_add]
    linarith
  have hnearest := (nearest_of_roundsTo hrounds hshort hleast hlong).signed s
  have hr := hrounds.le_of_le (n := 2 ^ 53) (by exact_mod_cast hshort.le)
  have hr' := hlong.imp_right fun hlong => hrounds.ge_of_ge (n := 2 ^ 52) (by exact_mod_cast hlong)
  obtain ⟨hcanonical, hnumber⟩ := completed s hr hleast hr'
  rw [hscaled] at hnearest
  rw [roundWithAccuracy, shiftToTargetExponent_eq, hshift, ← hk]
  exact ⟨hcanonical, hnumber ▸ hnearest⟩

theorem decreaseExponent_number (m : ℕ) {e t : ℤ} (h : t ≤ e) :
    ((decreaseExponent m e t).1 : ℚ) * 2 ^ t = m * 2 ^ e := by
  rw [decreaseExponent]
  dsimp only
  rw [Nat.shiftLeft_eq]
  push_cast
  rw [mul_assoc, ← zpow_natCast, ← zpow_add₀ two_ne_zero, Int.toNat_of_nonneg (by omega),
    sub_add_cancel]

theorem log2_shiftLeft {m : ℕ} (hm : m ≠ 0) (k : ℕ) : (m <<< k).log2 = m.log2 + k := by
  rw [Nat.shiftLeft_eq, Nat.log2_eq_iff (by positivity), pow_add, pow_succ, pow_add]
  have := Nat.log2_self_le hm
  have := Nat.lt_log2_self (n := m)
  constructor
  · gcongr
  · rw [mul_right_comm]
    gcongr
    rwa [← pow_succ]

/-- An integer with an exponent is rounded to the grid. -/
theorem nearest_round (s : Sign) {m : ℕ} (hm : m ≠ 0) (e : ℤ) :
    Canonical (Float.Model.UnpackedFloat.round Format.binary64 s m e) ∧
      Nearest (signed s (m * 2 ^ e))
        (numberOf (Float.Model.UnpackedFloat.round Format.binary64 s m e)) := by
  rw [Float.Model.UnpackedFloat.round]
  rw [show Format.binary64.targetExponent (totalExponent m e) = place m e from rfl]
  rcases le_total e (place m e) with he | he
  · have hsame : decreaseExponent m e (place m e) = (m, e) := by
      rw [decreaseExponent, Int.toNat_of_nonpos (by omega)]
      simp
    rw [hsame]
    exact nearest_roundWithAccuracy (standsFor_exact m) he s
  · have hnumber := decreaseExponent_number m he
    have hplace : place (decreaseExponent m e (place m e)).1 (place m e) = place m e := by
      have hlog := log2_shiftLeft hm (e - place m e).toNat
      rw [decreaseExponent]
      dsimp only
      generalize hp : place m e = p at *
      rw [place] at hp ⊢
      omega
    have hexponent : (decreaseExponent m e (place m e)).2 = place m e := by
      rw [decreaseExponent]
      dsimp only
      omega
    dsimp only
    rw [hexponent, ← hnumber]
    exact nearest_roundWithAccuracy (standsFor_exact _) hplace.ge s

theorem nearest_normalize (n e : ℤ) (s : Sign) :
    Canonical (UnpackedFloat.normalize Format.binary64 n e s) ∧
      Nearest (n * 2 ^ e) (numberOf (UnpackedFloat.normalize Format.binary64 n e s)) := by
  rw [UnpackedFloat.normalize]
  rcases Int.lt_trichotomy n 0 with h | rfl | h
  · rw [Int.compare_eq_lt.mpr h]
    have hround := nearest_round .negative (m := (-n).toNat) (by omega) e
    have hcast : (((-n).toNat : ℕ) : ℚ) = -n := by
      rw [← Int.cast_natCast, Int.toNat_of_nonneg (by omega)]
      push_cast
      rfl
    rw [hcast, signed, neg_mul, neg_neg] at hround
    exact hround
  · refine ⟨trivial, ?_⟩
    rw [Int.cast_zero, zero_mul]
    exact onGrid_zero.nearest_self
  · rw [Int.compare_eq_gt.mpr h]
    have hround := nearest_round .positive (m := n.toNat) (by omega) e
    have hcast : ((n.toNat : ℕ) : ℚ) = n := by
      rw [← Int.cast_natCast, Int.toNat_of_nonneg (by omega)]
    rw [hcast, signed] at hround
    exact hround

end FormulaSearch.Double
