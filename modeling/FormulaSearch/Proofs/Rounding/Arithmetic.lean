import Mathlib
import FormulaSearch.Proofs.Decimal.Bits
import FormulaSearch.Proofs.Rounding.Mantissa

/-!
# Arithmetic of doubles

A sum, a difference, a product and a half of finite doubles are the exact results, rounded to a nearest
double unless that is too large. What is not finite stays so. The order of doubles is the order of the
numbers.
-/

namespace FormulaSearch.Double

open Float.Model (Format UnpackedFloat totalExponent)
open Float.Model.UnpackedFloat

/-! ## Operations on unpacked doubles -/

theorem Canonical.zero_or_finite {u : UnpackedFloat} (hu : Canonical u) :
    (∃ s, u = .zero s) ∨ ∃ s m e hm, u = .finite s m e hm := by
  cases u with
  | notANumber | infinity s => exact hu.elim
  | zero s => exact .inl ⟨s, rfl⟩
  | finite s m e hm => exact .inr ⟨s, m, e, hm, rfl⟩

theorem Canonical.onGrid {u : UnpackedFloat} (hu : Canonical u) : OnGrid (numberOf u) := by
  rcases hu.zero_or_finite with ⟨s, rfl⟩ | ⟨s, m, e, hm, rfl⟩
  · exact onGrid_zero
  · have := onGrid_of_nat hu.1.le hu.2.1
    cases s with
    | negative => exact this.neg
    | positive => exact this

theorem Canonical.neg {u : UnpackedFloat} (hu : Canonical u) : Canonical u.neg := by
  cases u <;> exact hu

theorem numberOf_neg (u : UnpackedFloat) : numberOf u.neg = -numberOf u := by
  cases u with
  | finite s m e hm =>
    cases s
    · exact (neg_neg _).symm
    · rfl
  | zero s | infinity s | notANumber => simp [UnpackedFloat.neg, numberOf]

theorem apply_cast (s : Sign) (m : ℕ) : ((s.apply m : ℤ) : ℚ) = signed s m := by
  cases s
  · simp [Sign.apply, signed]
  · simp [Sign.apply, signed]

theorem signed_mul_right (s : Sign) (x y : ℚ) : signed s (x * y) = signed s x * y := by
  cases s
  · exact (neg_mul x y).symm
  · rfl

variable {u v : UnpackedFloat}

/-- A result that is exact needs no rounding. -/
theorem nearest_of_eq {x : ℚ} (hu : Canonical u) (h : x = numberOf u) :
    Canonical u ∧ Nearest x (numberOf u) :=
  ⟨hu, h ▸ hu.onGrid.nearest_self⟩

theorem nearest_add (hu : Canonical u) (hv : Canonical v) :
    Canonical (UnpackedFloat.add Format.binary64 u v) ∧
      Nearest (numberOf u + numberOf v) (numberOf (UnpackedFloat.add Format.binary64 u v)) := by
  rcases hu.zero_or_finite with ⟨s, rfl⟩ | ⟨s, m, e, hm, rfl⟩
  · rcases hv.zero_or_finite with ⟨s', rfl⟩ | ⟨s', m', e', hm', rfl⟩
    · cases s <;> cases s' <;> exact nearest_of_eq trivial (add_zero 0)
    · exact nearest_of_eq hv (zero_add (numberOf (.finite s' m' e' hm')))
  · rcases hv.zero_or_finite with ⟨s', rfl⟩ | ⟨s', m', e', hm', rfl⟩
    · exact nearest_of_eq hu (add_zero (numberOf (.finite s m e hm)))
    · -- both are brought to the smaller exponent
      have hsum := nearest_normalize
        (s.apply (decreaseExponent m e (min e e')).1 + s'.apply (decreaseExponent m' e' (min e e')).1)
        (min e e') .positive
      push_cast at hsum
      rw [apply_cast, apply_cast, add_mul, ← signed_mul_right, ← signed_mul_right,
        decreaseExponent_number m (min_le_left _ _),
        decreaseExponent_number m' (min_le_right _ _)] at hsum
      exact hsum

theorem sub_eq_add_negated (u v : UnpackedFloat) :
    UnpackedFloat.sub Format.binary64 u v = UnpackedFloat.add Format.binary64 u v.neg := by
  have happly (s : Sign) (n : ℤ) : (-s).apply n = -s.apply n := by
    cases s
    · exact (neg_neg n).symm
    · rfl
  rcases u with _ | _ | _ | _ <;> rcases v with _ | _ | _ | _ <;> try rfl
  simp only [UnpackedFloat.sub, UnpackedFloat.add, UnpackedFloat.neg, happly, Int.sub_eq_add_neg]

theorem nearest_sub (hu : Canonical u) (hv : Canonical v) :
    Canonical (UnpackedFloat.sub Format.binary64 u v) ∧
      Nearest (numberOf u - numberOf v) (numberOf (UnpackedFloat.sub Format.binary64 u v)) := by
  have := nearest_add hu hv.neg
  rwa [← sub_eq_add_negated, numberOf_neg, ← sub_eq_add_neg] at this

theorem signed_mul_signed (s t : Sign) (x y : ℚ) :
    signed s x * signed t y = signed (s * t) (x * y) := by
  cases s <;> cases t
  · exact neg_mul_neg x y
  · exact neg_mul x y
  · exact mul_neg x y
  · rfl

theorem signed_div_signed (s t : Sign) (x y : ℚ) :
    signed s x / signed t y = signed (s / t) (x / y) := by
  cases s <;> cases t
  · exact neg_div_neg_eq x y
  · exact neg_div y x
  · exact div_neg x
  · rfl

/-- A mantissa that is long enough has no place missing. -/
theorem le_place_of_long {m : ℕ} {e : ℤ} (hm : 2 ^ 52 ≤ m) : e ≤ place m e := by
  have : 52 ≤ m.log2 := (Nat.le_log2 (by omega)).mpr hm
  rw [place]
  omega

theorem le_place_of_low {m : ℕ} {e : ℤ} (he : e ≤ -1074) : e ≤ place m e :=
  he.trans (le_max_right _ _)

theorem nearest_mul (hu : Canonical u) (hv : Canonical v) :
    Canonical (UnpackedFloat.mul Format.binary64 u v) ∧
      Nearest (numberOf u * numberOf v) (numberOf (UnpackedFloat.mul Format.binary64 u v)) := by
  rcases hu.zero_or_finite with ⟨s, rfl⟩ | ⟨s, m, e, hm, rfl⟩
  · rcases hv.zero_or_finite with ⟨s', rfl⟩ | ⟨s', m', e', hm', rfl⟩
    · exact nearest_of_eq trivial (mul_zero 0)
    · exact nearest_of_eq trivial (zero_mul (numberOf (.finite s' m' e' hm')))
  · rcases hv.zero_or_finite with ⟨s', rfl⟩ | ⟨s', m', e', hm', rfl⟩
    · exact nearest_of_eq trivial (mul_zero (numberOf (.finite s m e hm)))
    · have hplace : e + e' ≤ place (m * m') (e + e') := by
        rcases hu.2.2 with he | hlong
        · rcases hv.2.2 with he' | hlong'
          · exact le_place_of_low (by omega)
          · exact le_place_of_long (hlong'.trans (Nat.le_mul_of_pos_left m' hm))
        · exact le_place_of_long (hlong.trans (Nat.le_mul_of_pos_right m hm'))
      have hproduct := nearest_roundWithAccuracy (standsFor_exact (m * m')) hplace (s * s')
      rw [Nat.cast_mul, zpow_add₀ two_ne_zero, mul_mul_mul_comm, ← signed_mul_signed] at hproduct
      exact hproduct

/-- The exponent of a quotient: no more than that of a shifted numerator. -/
def quotientPlace (m : ℕ) (e : ℤ) (m' : ℕ) (e' : ℤ) : ℤ :=
  min (e - e') (max ((m.log2 + 1 + e) - (m'.log2 + 1 + e') - 53) (-1074))

theorem divCore_eq (m : ℕ) (e : ℤ) (m' : ℕ) (e' : ℤ) :
    divCore Format.binary64 m e m' e' =
      (m <<< (e - e' - quotientPlace m e m' e').toNat / m', quotientPlace m e m' e',
        accuracyOfFraction (m <<< (e - e' - quotientPlace m e m' e').toNat % m') m') := rfl

/-- The numerator is shifted far enough for a quotient with no place missing. -/
theorem le_place_quotient {m m' : ℕ} (hm : m ≠ 0) (hm' : 0 < m') (hshort : m < 2 ^ 53) (e e' : ℤ) :
    quotientPlace m e m' e' ≤
      place (m <<< (e - e' - quotientPlace m e m' e').toNat / m') (quotientPlace m e m' e') := by
  have hlog : m.log2 ≤ 52 := by
    have := (Nat.log2_lt hm).mpr hshort
    omega
  rcases le_or_gt (quotientPlace m e m' e') (-1074) with hlow | hhigh
  · exact le_place_of_low hlow
  · refine le_place_of_long ?_
    obtain ⟨k, hk⟩ : ∃ k : ℕ, (e - e' - quotientPlace m e m' e').toNat = k := ⟨_, rfl⟩
    have hbits : 52 + (m'.log2 + 1) ≤ m.log2 + k := by
      rw [quotientPlace] at hhigh hk
      omega
    rw [hk, Nat.le_div_iff_mul_le hm', Nat.shiftLeft_eq]
    calc 2 ^ 52 * m' ≤ 2 ^ 52 * 2 ^ (m'.log2 + 1) := Nat.mul_le_mul_left _ Nat.lt_log2_self.le
      _ = 2 ^ (52 + (m'.log2 + 1)) := (pow_add 2 52 _).symm
      _ ≤ 2 ^ (m.log2 + k) := Nat.pow_le_pow_right two_pos hbits
      _ = 2 ^ m.log2 * 2 ^ k := pow_add 2 _ k
      _ ≤ m * 2 ^ k := Nat.mul_le_mul_right _ (Nat.log2_self_le hm)

theorem nearest_div (hu : Canonical u) (s' : Sign) {m' : ℕ} (e' : ℤ) (hm' : 0 < m') :
    Canonical (UnpackedFloat.div Format.binary64 u (.finite s' m' e' hm')) ∧
      Nearest (numberOf u / numberOf (.finite s' m' e' hm'))
        (numberOf (UnpackedFloat.div Format.binary64 u (.finite s' m' e' hm'))) := by
  rcases hu.zero_or_finite with ⟨s, rfl⟩ | ⟨s, m, e, hm, rfl⟩
  · exact nearest_of_eq trivial (zero_div (numberOf (.finite s' m' e' hm')))
  · have hplace := le_place_quotient hm.ne' hm' hu.1 e e'
    have hleast : quotientPlace m e m' e' ≤ e - e' := min_le_left _ _
    rw [UnpackedFloat.div, divCore_eq]
    dsimp only
    have hquotient := nearest_roundWithAccuracy (standsFor_fraction _ hm') hplace (s / s')
    generalize quotientPlace m e m' e' = t at *
    have hnumber : numberOf (.finite s m e hm) / numberOf (.finite s' m' e' hm') =
        signed (s / s') ((m <<< (e - e' - t).toNat : ℕ) / m' * 2 ^ t) := by
      rw [numberOf, numberOf, signed_div_signed, Nat.shiftLeft_eq]
      congr 1
      push_cast
      rw [← zpow_natCast, Int.toNat_of_nonneg (by omega), zpow_sub₀ two_ne_zero,
        zpow_sub₀ two_ne_zero]
      field_simp
    rw [hnumber]
    exact hquotient

/-! ## Doubles -/

theorem unpackSign_eq (s : Sign) (e : BitVec 11) (m : BitVec 52) :
    Sign.ofBitVec (unpackSign (packComponents Format.binary64 s e m)) = s := by
  rw [unpackSign_packComponents, Sign.ofBitVec_toBitVec]

theorem unpack_normal {s : Sign} {e : BitVec 11} {m : BitVec 52} (hlow : e ≠ 0#11)
    (hhigh : e ≠ -1#11) : unpack Format.binary64 (packComponents Format.binary64 s e m) =
      ofMagnitude s (2 ^ 52 + m.toNat) (e.toNat - 1075) := by
  rw [unpack]
  simp only [unpackExponent_packComponents, unpackMantissa_packComponents, unpackSign_eq]
  rw [if_neg hhigh, if_neg hlow, ofMagnitude, dif_neg (by omega)]
  have hmantissa : ((1#1 : BitVec 1) ++ m).toNat = 2 ^ 52 + m.toNat :=
    Decimal.toNat_append_of_lt 1#1 m
  congr 1

theorem unpack_subnormal (s : Sign) (m : BitVec 52) :
    unpack Format.binary64 (packComponents Format.binary64 s 0#11 m) =
      ofMagnitude s m.toNat (-1074) := by
  rw [unpack]
  simp only [unpackExponent_packComponents, unpackMantissa_packComponents, unpackSign_eq]
  rw [if_neg (by decide), if_pos trivial, ofMagnitude]
  by_cases hm : m = 0#52
  · rw [dif_pos hm, dif_pos (by rw [hm]; rfl)]
  · rw [dif_neg hm, dif_neg (fun h : m.toNat = 0 => hm (BitVec.eq_of_toNat_eq h))]
    rfl

/-- The numbers of the format are those below the first power of two that is too large. -/
theorem finite_lt_iff {s : Sign} {m : ℕ} {e : ℤ} {hm : 0 < m} (hu : Canonical (.finite s m e hm)) :
    |numberOf (.finite s m e hm)| < 2 ^ 1024 ↔ e ≤ 971 := by
  obtain ⟨hshort, hleast, hlong⟩ := hu
  have habs : |numberOf (.finite s m e hm)| = m * 2 ^ e := by
    have : (0 : ℚ) < m * 2 ^ e := by positivity
    cases s
    · rw [numberOf, signed, abs_neg, abs_of_pos this]
    · rw [numberOf, signed, abs_of_pos this]
  rw [habs]
  constructor
  · intro hlt
    by_contra he
    have hlong : (2 : ℚ) ^ 52 ≤ m := by exact_mod_cast hlong.resolve_left (by omega)
    have hpow : (2 : ℚ) ^ 972 ≤ 2 ^ e := by
      rw [← zpow_natCast]
      exact zpow_le_zpow_right₀ one_le_two (by push_cast; omega)
    refine hlt.not_ge ?_
    calc (2 : ℚ) ^ 1024 = 2 ^ 52 * 2 ^ 972 := pow_add 2 52 972
      _ ≤ m * 2 ^ e := by gcongr
  · intro he
    have hshort : (m : ℚ) < 2 ^ 53 := by exact_mod_cast hshort
    have hpow : (2 : ℚ) ^ e ≤ 2 ^ 971 := by
      rw [← zpow_natCast]
      exact zpow_le_zpow_right₀ one_le_two (by push_cast; omega)
    calc (m : ℚ) * 2 ^ e < 2 ^ 53 * 2 ^ e := by gcongr
      _ ≤ 2 ^ 53 * 2 ^ 971 := by gcongr
      _ = 2 ^ 1024 := (pow_add 2 53 971).symm

theorem unpack_pack_zero (s : Sign) : (Float.Model.pack (.zero s)).unpack = .zero s := by
  show unpack Format.binary64 (packComponents Format.binary64 s 0#11 0#52) = _
  rw [unpack_subnormal]
  rfl

theorem unpack_pack_large {s : Sign} {m : ℕ} {e : ℤ} {hm : 0 < m} (he : 972 ≤ e) :
    (Float.Model.pack (.finite s m e hm)).unpack = .infinity s := by
  have hpack : pack Format.binary64 (.finite s m e hm) = packedInfinity Format.binary64 s := by
    rw [pack]
    exact if_pos (show 2048 ≤ (e + 1023 + 52).toNat + 1 by omega)
  show unpack Format.binary64 (pack Format.binary64 (.finite s m e hm)) = _
  rw [hpack]
  cases s <;> rfl

theorem unpack_pack_normal {s : Sign} {m : ℕ} {e : ℤ} {hm : 0 < m} (hshort : m < 2 ^ 53)
    (hlong : 2 ^ 52 ≤ m) (hleast : -1074 ≤ e) (hgreatest : e ≤ 971) :
    (Float.Model.pack (.finite s m e hm)).unpack = .finite s m e hm := by
  have hlog : m.log2 + 1 = 53 := by
    have := (Nat.le_log2 hm.ne').mpr hlong
    have := (Nat.log2_lt hm.ne').mpr hshort
    omega
  have hpack : pack Format.binary64 (.finite s m e hm) = packComponents Format.binary64 s
      (BitVec.ofNat 11 (e + 1023 + 52).toNat) (BitVec.ofNat 52 m) := by
    rw [pack]
    exact (if_neg (show ¬ 2048 ≤ (e + 1023 + 52).toNat + 1 by omega)).trans (if_pos hlog)
  show unpack Format.binary64 (pack Format.binary64 (.finite s m e hm)) = _
  have he : (BitVec.ofNat 11 (e + 1023 + 52).toNat).toNat = (e + 1075).toNat := by
    rw [BitVec.toNat_ofNat]
    omega
  rw [hpack, unpack_normal, he, BitVec.toNat_ofNat]
  · have hm' : 2 ^ 52 + m % 2 ^ 52 = m := by omega
    have he' : ((e + 1075).toNat : ℤ) - 1075 = e := by omega
    rw [hm', he']
    exact dif_neg hm.ne'
  · intro h
    rw [h, show (0#11).toNat = 0 from rfl] at he
    omega
  · intro h
    rw [h, show (-1#11).toNat = 2047 from rfl] at he
    omega

theorem unpack_pack_subnormal {s : Sign} {m : ℕ} {hm : 0 < m} (hshort : m < 2 ^ 52) :
    (Float.Model.pack (.finite s m (-1074) hm)).unpack = .finite s m (-1074) hm := by
  have hlog : m.log2 + 1 ≠ 53 := by
    have := (Nat.log2_lt hm.ne').mpr hshort
    omega
  have hpack : pack Format.binary64 (.finite s m (-1074) hm) =
      packComponents Format.binary64 s 0#11 (BitVec.ofNat 52 m) := by
    rw [pack]
    exact (if_neg (show ¬ 2048 ≤ (-1074 + 1023 + 52 : ℤ).toNat + 1 by decide)).trans (if_neg hlog)
  show unpack Format.binary64 (pack Format.binary64 (.finite s m (-1074) hm)) = _
  rw [hpack, unpack_subnormal, BitVec.toNat_ofNat, Nat.mod_eq_of_lt hshort]
  exact dif_neg hm.ne'

/-- Packing loses nothing of a number of the format, and makes an infinity of one that is too large. -/
theorem unpack_pack {u : UnpackedFloat} (hu : Canonical u) :
    |numberOf u| < 2 ^ 1024 ∧ (Float.Model.pack u).unpack = u ∨
      2 ^ 1024 ≤ |numberOf u| ∧ ∃ s, (Float.Model.pack u).unpack = .infinity s := by
  rcases hu.zero_or_finite with ⟨s, rfl⟩ | ⟨s, m, e, hm, rfl⟩
  · exact .inl ⟨by simp [numberOf], unpack_pack_zero s⟩
  · have hrange := finite_lt_iff hu
    obtain ⟨hshort, hleast, hlong⟩ := hu
    rcases le_or_gt e 971 with he | he
    · refine .inl ⟨hrange.mpr he, ?_⟩
      rcases Nat.lt_or_ge m (2 ^ 52) with hm' | hm'
      · obtain rfl := hlong.resolve_right (by omega)
        exact unpack_pack_subnormal hm'
      · exact unpack_pack_normal hshort hm' hleast he
    · exact .inr ⟨not_lt.mp fun h => absurd (hrange.mp h) (by omega), s, unpack_pack_large (by omega)⟩

theorem canonical_of_isFinite {a : Float} (ha : a.isFinite = true) :
    Canonical a.toModel.unpack ∧ |value a| < 2 ^ 1024 := by
  obtain ⟨s, e, m, hparts⟩ := Decimal.parts_of_toBits a
  have hne := Decimal.exponent_ne_of_isFinite ha hparts
  have hhigh : e ≠ -1#11 := fun h => hne (congrArg BitVec.toNat h)
  have hm := m.isLt
  have he := e.isLt
  rw [value]
  show Canonical (unpack Format.binary64 a.toBits.toBitVec) ∧
    |numberOf (unpack Format.binary64 a.toBits.toBitVec)| < 2 ^ 1024
  rw [hparts]
  obtain ⟨m', e', hunpack, hcanonical, hrange⟩ : ∃ m' e',
      unpack Format.binary64 (packComponents Format.binary64 s e m) = ofMagnitude s m' e' ∧
        Canonical (ofMagnitude s m' e') ∧ e' ≤ 971 := by
    by_cases hzero : e = 0#11
    · rw [hzero, unpack_subnormal]
      exact ⟨_, _, rfl, canonical_ofMagnitude s (by omega) le_rfl (.inl rfl), by decide⟩
    · have : e.toNat ≠ 0 := fun h => hzero (BitVec.eq_of_toNat_eq h)
      rw [unpack_normal hzero hhigh]
      exact ⟨_, _, rfl, canonical_ofMagnitude s (by omega) (by omega) (.inr (by omega)), by omega⟩
  rw [hunpack]
  refine ⟨hcanonical, ?_⟩
  rw [ofMagnitude] at hcanonical ⊢
  split at hcanonical
  · rename_i h
    simp [h, numberOf]
  · rename_i h
    rw [dif_neg h, finite_lt_iff hcanonical]
    exact hrange

variable {a b : Float}

theorem onGrid_value (ha : a.isFinite = true) : OnGrid (value a) :=
  (canonical_of_isFinite ha).1.onGrid

/-- A double for a number: the nearest number of the grid, unless that is too large for the format. -/
inductive Rounded (x : ℚ) (a : Float) : Prop
  | finite (hfinite : a.isFinite = true) (hnearest : Nearest x (value a))
  | overflow {v : ℚ} (hfinite : a.isFinite = false) (hnearest : Nearest x v) (hlarge : 2 ^ 1024 ≤ |v|)

/-- Between two numbers of the format nothing overflows, and rounding does not leave the interval. -/
theorem Rounded.between {x : ℚ} {lower upper : Float} (h : Rounded x a) (hl : lower.isFinite = true)
    (hu : upper.isFinite = true) (hlow : value lower ≤ x) (hhigh : x ≤ value upper) :
    a.isFinite = true ∧ value lower ≤ value a ∧ value a ≤ value upper := by
  cases h with
  | finite hfinite hnearest =>
    exact ⟨hfinite, hnearest.ge_of_ge (onGrid_value hl) hlow, hnearest.le_of_le (onGrid_value hu) hhigh⟩
  | overflow hfinite hnearest hlarge =>
    have hlow := hnearest.ge_of_ge (onGrid_value hl) hlow
    have hhigh := hnearest.le_of_le (onGrid_value hu) hhigh
    have hl := (abs_lt.mp (canonical_of_isFinite hl).2).1
    have hu := (abs_lt.mp (canonical_of_isFinite hu).2).2
    exact absurd (abs_lt.mpr ⟨hl.trans_le hlow, hhigh.trans_lt hu⟩) hlarge.not_gt

theorem Rounded.nearest {x : ℚ} (h : Rounded x a) (ha : a.isFinite = true) : Nearest x (value a) := by
  cases h with
  | finite _ hnearest => exact hnearest
  | overflow hfinite => rw [ha] at hfinite; cases hfinite

theorem rounded_pack {x : ℚ} {u : UnpackedFloat} (h : Canonical u ∧ Nearest x (numberOf u)) :
    Rounded x (Float.ofModel (Float.Model.pack u)) := by
  obtain ⟨hu, hnearest⟩ := h
  rcases unpack_pack hu with ⟨hsmall, hpack⟩ | ⟨hlarge, s, hpack⟩
  · refine .finite ?_ ?_
    · show (Float.Model.pack u).unpack.isFinite = true
      rw [hpack]
      cases u <;> first | rfl | exact hu.elim
    · show Nearest x (numberOf (Float.Model.pack u).unpack)
      rwa [hpack]
  · refine .overflow ?_ hnearest hlarge
    show (Float.Model.pack u).unpack.isFinite = false
    rw [hpack]
    rfl

theorem rounded_add (ha : a.isFinite = true) (hb : b.isFinite = true) :
    Rounded (value a + value b) (a + b) :=
  rounded_pack (nearest_add (canonical_of_isFinite ha).1 (canonical_of_isFinite hb).1)

theorem rounded_sub (ha : a.isFinite = true) (hb : b.isFinite = true) :
    Rounded (value a - value b) (a - b) :=
  rounded_pack (nearest_sub (canonical_of_isFinite ha).1 (canonical_of_isFinite hb).1)

theorem rounded_mul (ha : a.isFinite = true) (hb : b.isFinite = true) :
    Rounded (value a * value b) (a * b) :=
  rounded_pack (nearest_mul (canonical_of_isFinite ha).1 (canonical_of_isFinite hb).1)

theorem rounded_half (ha : a.isFinite = true) : Rounded (value a / 2) (a / 2.0) := by
  have htwo : (2.0 : Float).toModel.unpack = .finite .positive (2 ^ 52) (-51) (by decide) := by rfl
  have hquotient := rounded_pack
    (nearest_div (canonical_of_isFinite ha).1 .positive (-51) (show 0 < 2 ^ 52 by decide))
  rw [show numberOf (.finite .positive (2 ^ 52) (-51) (by decide)) = 2 by norm_num [numberOf, signed],
    ← htwo] at hquotient
  exact hquotient

/-! ## Results that are not finite -/

theorem isFinite_of_pack {u : UnpackedFloat} (h : (Float.Model.pack u).isFinite = true) :
    u.isFinite = true := by
  rcases u with (_ | _) | _ | _ | _
  · exact absurd h (by decide +kernel)
  · exact absurd h (by decide +kernel)
  · exact absurd h (by decide +kernel)
  · rfl
  · rfl

/-- Only finite doubles have a finite sum. -/
theorem isFinite_of_add (h : (a + b).isFinite = true) : a.isFinite = true ∧ b.isFinite = true := by
  have hsum : (UnpackedFloat.add Format.binary64 a.toModel.unpack b.toModel.unpack).isFinite = true :=
    isFinite_of_pack h
  show a.toModel.unpack.isFinite = true ∧ b.toModel.unpack.isFinite = true
  revert hsum
  rcases a.toModel.unpack with (_ | _) | _ | _ | _ <;>
    rcases b.toModel.unpack with (_ | _) | _ | _ | _ <;>
    simp [UnpackedFloat.add, UnpackedFloat.isFinite]

theorem isFinite_of_mul (h : (a * b).isFinite = true) : a.isFinite = true ∧ b.isFinite = true := by
  have hproduct :
      (UnpackedFloat.mul Format.binary64 a.toModel.unpack b.toModel.unpack).isFinite = true :=
    isFinite_of_pack h
  show a.toModel.unpack.isFinite = true ∧ b.toModel.unpack.isFinite = true
  revert hproduct
  rcases a.toModel.unpack with _ | _ | _ | _ <;> rcases b.toModel.unpack with _ | _ | _ | _ <;>
    simp [UnpackedFloat.mul, UnpackedFloat.isFinite]

theorem isFinite_of_half (h : (a / 2.0).isFinite = true) : a.isFinite = true := by
  have hquotient :
      (UnpackedFloat.div Format.binary64 a.toModel.unpack (2.0 : Float).toModel.unpack).isFinite = true :=
    isFinite_of_pack h
  show a.toModel.unpack.isFinite = true
  obtain ⟨m, e, hm, htwo⟩ := unpack_two
  rw [htwo] at hquotient
  revert hquotient
  rcases a.toModel.unpack with _ | _ | _ | _ <;> simp [UnpackedFloat.div, UnpackedFloat.isFinite]

/-! ## Order -/

theorem magnitude_lt {m m' : ℕ} {e e' : ℤ} (hshort : m < 2 ^ 53) (hleast : -1074 ≤ e)
    (hlong : e' = -1074 ∨ 2 ^ 52 ≤ m') (h : e < e' ∨ e = e' ∧ m < m') :
    (m : ℚ) * 2 ^ e < m' * 2 ^ e' := by
  rcases h with h | ⟨rfl, h⟩
  · have hshort : (m : ℚ) < 2 ^ 53 := by exact_mod_cast hshort
    have hlong : (2 : ℚ) ^ 52 ≤ m' := by exact_mod_cast hlong.resolve_left (by omega)
    have hpow : (2 : ℚ) ^ (e + 1) ≤ 2 ^ e' := zpow_le_zpow_right₀ one_le_two (by omega)
    calc (m : ℚ) * 2 ^ e < 2 ^ 53 * 2 ^ e := by gcongr
      _ = 2 ^ 52 * 2 ^ (e + 1) := by rw [zpow_add_one₀ two_ne_zero]; ring
      _ ≤ m' * 2 ^ e' := by gcongr
  · have h : (m : ℚ) < m' := by exact_mod_cast h
    gcongr

theorem numberOf_pos {m : ℕ} {e : ℤ} (hm : 0 < m) : 0 < numberOf (.finite .positive m e hm) := by
  rw [numberOf, signed]
  positivity

theorem numberOf_negative {m : ℕ} {e : ℤ} (hm : 0 < m) :
    numberOf (.finite .negative m e hm) = -numberOf (.finite .positive m e hm) := rfl

/-- The order of ranks is that of the numbers. -/
theorem numberOf_lt {u v : UnpackedFloat} (hu : Canonical u) (hv : Canonical v)
    (h : Before (rank u) (rank v)) : numberOf u < numberOf v := by
  rcases hu.zero_or_finite with ⟨s, rfl⟩ | ⟨s, m, e, hm, rfl⟩
  · rcases hv.zero_or_finite with ⟨_, rfl⟩ | ⟨s', m', e', hm', rfl⟩
    · exact absurd h (not_before_self _)
    · cases s' with
      | negative => simp [Before, rank] at h
      | positive => exact numberOf_pos hm'
  · have hpos := numberOf_pos (e := e) hm
    rcases hv.zero_or_finite with ⟨_, rfl⟩ | ⟨s', m', e', hm', rfl⟩
    · cases s with
      | negative => exact neg_lt_zero.mpr hpos
      | positive => simp [Before, rank] at h
    · have hpos' := numberOf_pos (e := e') hm'
      cases s <;> cases s'
      · refine neg_lt_neg (magnitude_lt hv.1 hv.2.1 hu.2.2 ?_)
        simp only [Before, rank] at h
        omega
      · rw [numberOf_negative]
        linarith
      · simp [Before, rank] at h
      · refine magnitude_lt hu.1 hu.2.1 hv.2.2 ?_
        simp only [Before, rank] at h
        omega

theorem numberOf_eq {u v : UnpackedFloat} (hu : Canonical u) (hv : Canonical v)
    (h : rank u = rank v) : numberOf u = numberOf v := by
  rcases u with _ | _ | _ | ⟨_ | _, m, e, hm⟩ <;> rcases v with _ | _ | _ | ⟨_ | _, m', e', hm'⟩ <;>
    simp_all [Canonical, rank, numberOf]

theorem numberOf_le {u v : UnpackedFloat} (hu : Canonical u) (hv : Canonical v)
    (h : ¬ Before (rank v) (rank u)) : numberOf u ≤ numberOf v := by
  by_cases hlt : Before (rank u) (rank v)
  · exact (numberOf_lt hu hv hlt).le
  · refine (numberOf_eq hu hv ?_).le
    simp only [Before] at h hlt
    exact Prod.ext (by omega) (Prod.ext (by omega) (by omega))

theorem le_iff_value (ha : a.isFinite = true) (hb : b.isFinite = true) :
    a ≤ b ↔ value a ≤ value b := by
  have hu := (canonical_of_isFinite ha).1
  have hv := (canonical_of_isFinite hb).1
  rw [le_iff_not_before]
  constructor
  · exact fun h => numberOf_le hu hv h.2.2
  · exact fun h => ⟨not_isNaN_of_isFinite ha, not_isNaN_of_isFinite hb,
      fun hlt => (numberOf_lt hv hu hlt).not_ge h⟩

end FormulaSearch.Double
