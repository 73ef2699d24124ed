import Mathlib
import FormulaSearch.Proofs.Decimal.Nearest
import FormulaSearch.Proofs.Double

/-!
# Doubles and their bits

A finite double is taken apart into a sign and a magnitude that obeys the bounds of the format, and put
together from these bits again. A change of sign changes the sign bit alone.
-/

namespace FormulaSearch.Decimal

open Float.Model (Format)
open Float.Model.UnpackedFloat

/-! ## Parts of the bits -/

theorem toNat_append_of_lt {k n : ℕ} (a : BitVec k) (b : BitVec n) :
    (a ++ b).toNat = a.toNat * 2 ^ n + b.toNat := by
  rw [BitVec.toNat_append, ← Nat.shiftLeft_add_eq_or_of_lt b.isLt, Nat.shiftLeft_eq]

/-- The bits are sign, exponent and fraction in this order. -/
theorem toNat_packComponents (s : Sign) (e : BitVec 11) (m : BitVec 52) :
    (packComponents Format.binary64 s e m).toNat =
      s.toBitVec.toNat * 2 ^ 63 + e.toNat * 2 ^ 52 + m.toNat := by
  have happend : (s.toBitVec ++ e ++ m).toNat =
      (s.toBitVec.toNat * 2 ^ 11 + e.toNat) * 2 ^ 52 + m.toNat := by
    rw [toNat_append_of_lt, toNat_append_of_lt]
  refine happend.trans ?_
  ring

theorem parts_of_toBits (v : Float) : ∃ (s : Sign) (e : BitVec 11) (m : BitVec 52),
    v.toBits.toBitVec = packComponents Format.binary64 s e m :=
  ⟨_, _, _, (@packComponents_unpackSign_unpackExponent_unpackMantissa Format.binary64
    v.toBits.toBitVec).symm⟩

/-- A finite double does not have the greatest exponent. -/
theorem exponent_ne_of_isFinite {v : Float} (hv : v.isFinite = true) {s : Sign} {e : BitVec 11}
    {m : BitVec 52} (hparts : v.toBits.toBitVec = packComponents Format.binary64 s e m) :
    e.toNat ≠ 2047 := by
  intro he
  have he : e = -1#11 := BitVec.toNat_inj.mp he
  have hfinite : (unpack Format.binary64 v.toBits.toBitVec).isFinite = true := hv
  rw [hparts, unpack] at hfinite
  simp only [unpackExponent_packComponents, unpackMantissa_packComponents] at hfinite
  rw [if_pos he] at hfinite
  split at hfinite <;> cases hfinite

/-- The parts that are cut out of a bit pattern again. -/
theorem fields_of_bits {b s e m : ℕ} (hb : b = s * 2 ^ 63 + e * 2 ^ 52 + m) (hs : s < 2)
    (he : e < 2048) (hm : m < 2 ^ 52) :
    b / twoTo 63 % 2 = s ∧ b / twoTo 52 % 2048 = e ∧ b % twoTo 52 = m := by
  rw [hb, show twoTo 63 = 2 ^ 63 from rfl, show twoTo 52 = 2 ^ 52 from rfl]
  refine ⟨?_, ?_, ?_⟩ <;> omega

/-- A finite double is a sign and a magnitude of the format, and its bits are made of these. -/
theorem ofFloat_of_isFinite {v : Float} (hv : v.isFinite = true) :
    ∃ negative d, Binary64.ofFloat v = .finite negative d ∧ d.Canonical ∧
      v.toBits.toNat = d.bits + if negative then twoTo 63 else 0 := by
  obtain ⟨s, e, m, hparts⟩ := parts_of_toBits v
  have hne := exponent_ne_of_isFinite hv hparts
  have hbits : v.toBits.toNat = s.toBitVec.toNat * 2 ^ 63 + e.toNat * 2 ^ 52 + m.toNat := by
    rw [← toNat_packComponents, ← hparts]
    rfl
  have he := e.isLt
  have hm := m.isLt
  obtain ⟨hsign, hexponent, hfraction⟩ := fields_of_bits hbits s.toBitVec.isLt he hm
  have hof : (if (s.toBitVec.toNat == 1) = true then twoTo 63 else 0) =
      s.toBitVec.toNat * 2 ^ 63 := by
    cases s <;> rfl
  have hfull : twoTo 52 = 2 ^ 52 := rfl
  rw [Binary64.ofFloat, Binary64.ofBits, hsign, hexponent, hfraction, if_neg hne]
  split
  · -- a subnormal number or zero: the fraction is the mantissa
    rename_i hzero
    refine ⟨_, ⟨m.toNat, -1074⟩, rfl, ⟨?_, le_refl _, ?_, .inl rfl⟩, ?_⟩
    · show m.toNat < 2 ^ 53
      omega
    · show (-1074 : ℤ) ≤ 971
      decide
    · rw [hof, hbits, hzero]
      show _ = 0 * twoTo 52 + m.toNat + _
      omega
  · -- a normal number: the leading bit of the mantissa is not among the bits
    refine ⟨_, ⟨m.toNat + twoTo 52, (e.toNat : ℤ) - 1075⟩, rfl, ⟨?_, ?_, ?_, .inr ?_⟩, ?_⟩
    · show m.toNat + twoTo 52 < 2 ^ 53
      omega
    · show -1074 ≤ (e.toNat : ℤ) - 1075
      omega
    · show (e.toNat : ℤ) - 1075 ≤ 971
      omega
    · exact Nat.le_add_left _ _
    · rw [hof, hbits]
      show _ = ((e.toNat : ℤ) - 1075 + 1074).toNat * twoTo 52 + (m.toNat + twoTo 52) + _
      rw [hfull]
      omega

/-- A finite double is the nearest one to a number whose bits are those of its magnitude. -/
theorem nearest_eq_of_bits {v : Float} {negative : Bool} {d : Dyadic}
    (hbits : v.toBits.toNat = d.bits + if negative then twoTo 63 else 0) {num den : ℕ}
    (h : nearestBits num den = d.bits) : nearest negative num den = v := by
  rw [nearest, h, ← hbits, UInt64.ofNat_toNat, Float.ofBits_toBits]

/-! ## The sign bit -/

/-- The double with some bits. -/
def ofParts (s : Sign) (e : BitVec 11) (m : BitVec 52) : Float :=
  Float.ofBits (UInt64.ofBitVec (packComponents Format.binary64 s e m))

/-- Bits with the other sign unpack to the number with the other sign. -/
theorem unpack_other_sign (s : Sign) (e : BitVec 11) (m : BitVec 52) :
    unpack Format.binary64 (packComponents Format.binary64 (-s) e m) =
      (unpack Format.binary64 (packComponents Format.binary64 s e m)).neg := by
  rw [unpack, unpack]
  simp only [unpackExponent_packComponents, unpackMantissa_packComponents,
    unpackSign_packComponents, Sign.ofBitVec_toBitVec]
  split
  · split <;> rfl
  · split
    · split <;> rfl
    · rfl

/-- Bits that are not those of a NaN are packed as they were unpacked. -/
theorem pack_unpack_packComponents {s : Sign} {e : BitVec 11} {m : BitVec 52}
    (h : e = -1#11 → m = 0#52) :
    pack Format.binary64 (unpack Format.binary64 (packComponents Format.binary64 s e m)) =
      packComponents Format.binary64 s e m := by
  refine pack_unpack_of_valid ⟨fun he hm => ?_⟩
  rw [unpackExponent_packComponents] at he
  rw [unpackMantissa_packComponents] at hm
  exact absurd (h he) hm

theorem neg_ofParts {e : BitVec 11} {m : BitVec 52} (h : e = -1#11 → m = 0#52) :
    -ofParts .positive e m = ofParts .negative e m := by
  show Float.ofModel (Float.Model.pack (unpack Format.binary64 (pack Format.binary64
    (unpack Format.binary64 (packComponents Format.binary64 .positive e m)))).neg) =
      Float.ofModel (Float.Model.pack
        (unpack Format.binary64 (packComponents Format.binary64 (-.positive) e m)))
  rw [pack_unpack_packComponents h, unpack_other_sign]

/-- A change of sign leaves a finite number finite and makes no other one so. -/
theorem isFinite_neg (v : Float) : (-v).isFinite = v.isFinite := by
  obtain ⟨s, e, m, hparts⟩ := parts_of_toBits v
  show (unpack Format.binary64 (pack Format.binary64
    (unpack Format.binary64 v.toBits.toBitVec).neg)).isFinite =
      (unpack Format.binary64 v.toBits.toBitVec).isFinite
  by_cases hnan : (unpack Format.binary64 v.toBits.toBitVec).isNaN = true
  · rw [Double.eq_notANumber hnan]
    decide +kernel
  · have hm : e = -1#11 → m = 0#52 := by
      intro he
      by_contra hm
      refine hnan (Double.isNaN_unpack_iff.mpr ?_)
      rw [hparts, unpackExponent_packComponents, unpackMantissa_packComponents]
      exact ⟨he, hm⟩
    rw [hparts, ← unpack_other_sign, pack_unpack_packComponents hm, unpack_other_sign]
    cases unpack Format.binary64 (packComponents Format.binary64 s e m) <;> rfl

/-! ## Numbers that are not finite -/

/-- A double that is not finite has the greatest exponent. -/
theorem ofFloat_of_not_isFinite {v : Float} (hv : v.isFinite = false) :
    Binary64.ofFloat v = .nan ∨ ∃ negative, Binary64.ofFloat v = .infinity negative := by
  obtain ⟨s, e, m, hparts⟩ := parts_of_toBits v
  have he : e.toNat = 2047 := by
    by_contra hne
    have hne : ¬ e = -1#11 := fun h => hne (congrArg BitVec.toNat h)
    have hnot : (unpack Format.binary64 v.toBits.toBitVec).isFinite = false := hv
    rw [hparts, unpack] at hnot
    simp only [unpackExponent_packComponents, unpackMantissa_packComponents] at hnot
    rw [if_neg hne] at hnot
    split at hnot
    · split at hnot <;> cases hnot
    · cases hnot
  have hbits : v.toBits.toNat = s.toBitVec.toNat * 2 ^ 63 + e.toNat * 2 ^ 52 + m.toNat := by
    rw [← toNat_packComponents, ← hparts]
    rfl
  obtain ⟨-, hexponent, -⟩ := fields_of_bits hbits s.toBitVec.isLt e.isLt m.isLt
  rw [Binary64.ofFloat, Binary64.ofBits, hexponent, if_pos he]
  split
  · exact .inr ⟨_, rfl⟩
  · exact .inl rfl

theorem nearestBits_le (num den : ℕ) : nearestBits num den ≤ infinityBits := by
  rw [nearestBits]
  split
  · exact Nat.zero_le _
  · exact Nat.min_le_right _ _

/-- The nearest double, from the parts of its bits. -/
theorem nearest_eq_ofParts (negative : Bool) (num den : ℕ) :
    nearest negative num den = ofParts (if negative then .negative else .positive)
      (BitVec.ofNat 11 (nearestBits num den / 2 ^ 52)) (BitVec.ofNat 52 (nearestBits num den)) := by
  have hle : nearestBits num den ≤ 2047 * 2 ^ 52 := nearestBits_le num den
  rw [nearest, ofParts]
  congr 1
  rw [← UInt64.toNat_inj]
  have hparts := toNat_packComponents (if negative then .negative else .positive)
    (BitVec.ofNat 11 (nearestBits num den / 2 ^ 52)) (BitVec.ofNat 52 (nearestBits num den))
  rw [BitVec.toNat_ofNat, BitVec.toNat_ofNat] at hparts
  refine Eq.trans ?_ hparts.symm
  have hsign : (if negative then twoTo 63 else 0) =
      (if negative then Sign.negative else .positive).toBitVec.toNat * 2 ^ 63 := by
    cases negative <;> rfl
  have hlt := (if negative then Sign.negative else .positive).toBitVec.isLt
  rw [UInt64.toNat_ofNat', hsign]
  omega

/-- The greatest exponent is reached at infinity only. -/
theorem nearestBits_eq_infinityBits {num den : ℕ}
    (he : BitVec.ofNat 11 (nearestBits num den / 2 ^ 52) = -1#11) :
    nearestBits num den = infinityBits := by
  have hle : nearestBits num den ≤ 2047 * 2 ^ 52 := nearestBits_le num den
  have he := congrArg BitVec.toNat he
  rw [BitVec.toNat_ofNat] at he
  have : (-1#11).toNat = 2047 := rfl
  show _ = 2047 * 2 ^ 52
  omega

/-- The nearest double on the other side of zero has the other sign. -/
theorem neg_nearest (num den : ℕ) : -nearest false num den = nearest true num den := by
  rw [nearest_eq_ofParts, nearest_eq_ofParts]
  refine neg_ofParts fun he => ?_
  rw [nearestBits_eq_infinityBits he]
  rfl

/-- The nearest double is finite unless it has the bits of infinity. -/
theorem nearest_isFinite {num den : ℕ} (h : nearestBits num den ≠ infinityBits) :
    (nearest false num den).isFinite = true := by
  have hne : ¬ BitVec.ofNat 11 (nearestBits num den / 2 ^ 52) = -1#11 :=
    fun he => h (nearestBits_eq_infinityBits he)
  rw [nearest_eq_ofParts, ofParts]
  show (unpack Format.binary64 (pack Format.binary64 (unpack Format.binary64
    (packComponents Format.binary64 .positive _ _)))).isFinite = true
  rw [pack_unpack_packComponents fun he => absurd he hne, unpack]
  simp only [unpackExponent_packComponents, unpackMantissa_packComponents]
  rw [if_neg hne]
  split
  · split <;> rfl
  · rfl

end FormulaSearch.Decimal
