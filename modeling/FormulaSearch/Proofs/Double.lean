import Mathlib
import FormulaSearch.Params

/-!
# Doubles as numbers

Facts on the order and the arithmetic of doubles. Comparison is the order of ranks, which list sign,
exponent and mantissa, so that it is transitive, and total on all doubles that are numbers. An operation
gives no number if an operand is none, and otherwise only in a few cases, none of which arises for a
finite operand of a sum.
-/

namespace FormulaSearch.Double

open Float.Model (UnpackedFloat)
open Float.Model.UnpackedFloat (Sign)

/-! ## Comparison -/

theorem then_eq_lt_iff {d e : Int} {m n : Nat} :
    (compare d e).then (compare m n) = .lt ↔ d < e ∨ d = e ∧ m < n := by
  rcases Int.lt_trichotomy d e with h | h | h
  · simp [Int.compare_eq_lt.mpr h, h]
  · simp [h, Nat.compare_eq_lt]
  · simp [Int.compare_eq_gt.mpr h]
    omega

theorem then_eq_gt_iff {d e : Int} {m n : Nat} :
    (compare d e).then (compare m n) = .gt ↔ e < d ∨ d = e ∧ n < m := by
  rcases Int.lt_trichotomy d e with h | h | h
  · simp [Int.compare_eq_lt.mpr h]
    omega
  · simp [h, Nat.compare_eq_gt]
  · simp [Int.compare_eq_gt.mpr h, h]

/-- The place of a number in the order: its sign or its being infinite, its exponent, its mantissa. -/
def rank : UnpackedFloat → Int × Int × Int
  | .infinity .negative => (-2, 0, 0)
  | .finite .negative m e _ => (-1, -e, -m)
  | .zero _ | .notANumber => (0, 0, 0)
  | .finite .positive m e _ => (1, e, m)
  | .infinity .positive => (2, 0, 0)

/-- The lexicographic order of ranks. -/
def Before (p q : Int × Int × Int) : Prop :=
  p.1 < q.1 ∨ p.1 = q.1 ∧ (p.2.1 < q.2.1 ∨ p.2.1 = q.2.1 ∧ p.2.2 < q.2.2)

instance (p q : Int × Int × Int) : Decidable (Before p q) :=
  inferInstanceAs (Decidable (_ ∨ _ ∧ (_ ∨ _ ∧ _)))

theorem Before.asymm {p q : Int × Int × Int} (h : Before p q) : ¬ Before q p := by
  simp only [Before] at *
  omega

theorem not_before_self (p : Int × Int × Int) : ¬ Before p p := by
  simp only [Before]
  omega

theorem not_before_trans {p q r : Int × Int × Int} (hpq : ¬ Before q p) (hqr : ¬ Before r q) :
    ¬ Before r p := by
  simp only [Before] at *
  omega

theorem sign_compare_lt : compare Sign.negative Sign.positive = .lt := rfl

theorem sign_compare_gt : compare Sign.positive Sign.negative = .gt := rfl

theorem compare_eq_lt_iff {a b : UnpackedFloat} :
    a.compare b = some .lt ↔ a.isNaN = false ∧ b.isNaN = false ∧ Before (rank a) (rank b) := by
  rcases a with (_ | _) | _ | _ | ⟨_ | _, m, e, _⟩ <;>
    rcases b with (_ | _) | _ | _ | ⟨_ | _, m', e', _⟩ <;>
    simp [UnpackedFloat.compare, UnpackedFloat.isNaN, rank, Before, then_eq_lt_iff, then_eq_gt_iff,
      sign_compare_lt]

theorem compare_eq_gt_iff {a b : UnpackedFloat} :
    a.compare b = some .gt ↔ a.isNaN = false ∧ b.isNaN = false ∧ Before (rank b) (rank a) := by
  rcases a with (_ | _) | _ | _ | ⟨_ | _, m, e, _⟩ <;>
    rcases b with (_ | _) | _ | _ | ⟨_ | _, m', e', _⟩ <;>
    simp [UnpackedFloat.compare, UnpackedFloat.isNaN, rank, Before, then_eq_lt_iff, then_eq_gt_iff,
      sign_compare_gt] <;>
    omega

theorem compare_eq_none_iff {a b : UnpackedFloat} :
    a.compare b = none ↔ a.isNaN = true ∨ b.isNaN = true := by
  rcases a with (_ | _) | _ | _ | ⟨_ | _, m, e, _⟩ <;>
    rcases b with (_ | _) | _ | _ | ⟨_ | _, m', e', _⟩ <;>
    simp [UnpackedFloat.compare, UnpackedFloat.isNaN]

theorem lt_iff_before {a b : Float} :
    a < b ↔ a.isNaN = false ∧ b.isNaN = false ∧
      Before (rank a.toModel.unpack) (rank b.toModel.unpack) := by
  show decide (a.toModel.unpack.lt b.toModel.unpack = true) = true ↔ _
  rw [decide_eq_true_iff, UnpackedFloat.lt, beq_iff_eq]
  exact compare_eq_lt_iff

theorem le_iff_not_before {a b : Float} :
    a ≤ b ↔ a.isNaN = false ∧ b.isNaN = false ∧
      ¬ Before (rank b.toModel.unpack) (rank a.toModel.unpack) := by
  show decide (a.toModel.unpack.le b.toModel.unpack = true) = true ↔
    a.toModel.unpack.isNaN = false ∧ b.toModel.unpack.isNaN = false ∧ _
  generalize a.toModel.unpack = u, b.toModel.unpack = v
  have hnone := @compare_eq_none_iff u v
  have hgt := @compare_eq_gt_iff u v
  rw [decide_eq_true_iff, UnpackedFloat.le]
  cases hc : u.compare v with
  | none =>
    rw [hc] at hnone
    rcases hnone.mp rfl with h | h <;> simp [h]
  | some o =>
    rw [hc] at hnone hgt
    have hnot (h : u.isNaN = true ∨ v.isNaN = true) : False := by cases hnone.mpr h
    have hu : u.isNaN = false := Bool.eq_false_iff.mpr fun h => hnot (.inl h)
    have hv : v.isNaN = false := Bool.eq_false_iff.mpr fun h => hnot (.inr h)
    cases o <;> simp_all [Ordering.isLE]

theorem le_trans {a b c : Float} (hab : a ≤ b) (hbc : b ≤ c) : a ≤ c := by
  rw [le_iff_not_before] at *
  exact ⟨hab.1, hbc.2.1, not_before_trans hab.2.2 hbc.2.2⟩

theorem le_of_lt {a b : Float} (h : a < b) : a ≤ b := by
  rw [lt_iff_before] at h
  rw [le_iff_not_before]
  exact ⟨h.1, h.2.1, h.2.2.asymm⟩

/-- Any two numbers can be compared. -/
theorem le_of_not_lt {a b : Float} (ha : a.isNaN = false) (hb : b.isNaN = false) (h : ¬ a < b) :
    b ≤ a := by
  rw [lt_iff_before] at h
  rw [le_iff_not_before]
  exact ⟨hb, ha, fun hlt => h ⟨ha, hb, hlt⟩⟩

theorem lt_of_not_le {a b : Float} (ha : a.isNaN = false) (hb : b.isNaN = false) (h : ¬ a ≤ b) :
    b < a := by
  by_contra hlt
  exact h (le_of_not_lt hb ha hlt)

theorem not_le_of_lt {a b : Float} (h : a < b) : ¬ b ≤ a := by
  rw [lt_iff_before] at h
  rw [le_iff_not_before]
  exact fun hle => hle.2.2 h.2.2

theorem le_refl {a : Float} (ha : a.isNaN = false) : a ≤ a := by
  rw [le_iff_not_before]
  exact ⟨ha, ha, not_before_self _⟩

theorem not_isNaN_of_le {a b : Float} (h : a ≤ b) : a.isNaN = false ∧ b.isNaN = false := by
  rw [le_iff_not_before] at h
  exact ⟨h.1, h.2.1⟩

/-! ## Finite numbers -/

theorem isFinite_iff {a : Float} :
    a.isFinite = true ↔ a.isNaN = false ∧ -2 < (rank a.toModel.unpack).1 ∧
      (rank a.toModel.unpack).1 < 2 := by
  show a.toModel.unpack.isFinite = true ↔ a.toModel.unpack.isNaN = false ∧ _
  rcases a.toModel.unpack with (_ | _) | _ | _ | ⟨_ | _, _, _, _⟩ <;>
    simp [UnpackedFloat.isFinite, UnpackedFloat.isNaN, rank]

theorem not_isNaN_of_isFinite {a : Float} (h : a.isFinite = true) : a.isNaN = false :=
  (isFinite_iff.mp h).1

/-- What lies between two finite numbers is finite. -/
theorem isFinite_of_le {a b c : Float} (ha : a.isFinite = true) (hc : c.isFinite = true)
    (hab : a ≤ b) (hbc : b ≤ c) : b.isFinite = true := by
  rw [le_iff_not_before] at hab hbc
  rw [isFinite_iff] at *
  refine ⟨hab.2.1, ?_⟩
  have hab := hab.2.2
  have hbc := hbc.2.2
  simp only [Before] at hab hbc
  omega

/-! ## Operations that give a number -/

open Float.Model (Format)

theorem isNaN_unpack_iff {b : BitVec Format.binary64.numBits} :
    (UnpackedFloat.unpack Format.binary64 b).isNaN = true ↔
      UnpackedFloat.unpackExponent b = -1#_ ∧ UnpackedFloat.unpackMantissa b ≠ 0#_ := by
  rw [UnpackedFloat.unpack]
  dsimp only
  split
  · split <;> simp_all [UnpackedFloat.isNaN]
  · split
    · split <;> simp_all [UnpackedFloat.isNaN]
    · simp_all [UnpackedFloat.isNaN]

theorem not_isNaN_unpack {b : BitVec Format.binary64.numBits}
    (h : UnpackedFloat.unpackExponent b = -1#_ → UnpackedFloat.unpackMantissa b = 0#_) :
    (UnpackedFloat.unpack Format.binary64 b).isNaN = false := by
  rw [Bool.eq_false_iff, Ne, isNaN_unpack_iff]
  exact fun hb => hb.2 (h hb.1)

/-- Packing keeps what is a number. -/
theorem not_isNaN_pack {u : UnpackedFloat} (hu : u.isNaN = false) :
    (Float.Model.pack u).isNaN = false := by
  refine not_isNaN_unpack ?_
  show UnpackedFloat.unpackExponent (UnpackedFloat.pack Format.binary64 u) = _ →
    UnpackedFloat.unpackMantissa (UnpackedFloat.pack Format.binary64 u) = _
  cases u with
  | notANumber => cases hu
  | infinity s => simp [UnpackedFloat.pack, UnpackedFloat.packedInfinity]
  | zero s => simp [UnpackedFloat.pack, UnpackedFloat.packedZero]
  | finite s m e hm =>
    rw [UnpackedFloat.pack]
    dsimp only
    split
    · simp [UnpackedFloat.packedInfinity]
    · rename_i hbiased
      split
      · -- a normal number has a smaller exponent than the infinities
        intro h
        rw [UnpackedFloat.unpackExponent_packComponents] at h
        have := congrArg BitVec.toNat h
        simp at this hbiased
        omega
      · intro h
        rw [UnpackedFloat.unpackExponent_packComponents] at h
        exact absurd h (by decide)

theorem not_isNaN_round (s : Sign) (m : Nat) (e : Int) (accuracy : UnpackedFloat.Accuracy) :
    (UnpackedFloat.roundWithAccuracy Format.binary64 s m e accuracy).isNaN = false := by
  rw [UnpackedFloat.roundWithAccuracy]
  dsimp only
  split <;> rfl

theorem not_isNaN_normalize (m e : Int) (s : Sign) :
    (UnpackedFloat.normalize Format.binary64 m e s).isNaN = false := by
  rw [UnpackedFloat.normalize]
  split
  · exact not_isNaN_round _ _ _ _
  · rfl
  · exact not_isNaN_round _ _ _ _

/-- A sum is a number if one part is finite and the other is a number. -/
theorem not_isNaN_add {a b : Float} (ha : a.isFinite = true) (hb : b.isNaN = false) :
    (a + b).isNaN = false := by
  have ha : a.toModel.unpack.isFinite = true := ha
  have hb : b.toModel.unpack.isNaN = false := hb
  refine not_isNaN_pack (?_ : (UnpackedFloat.add _ a.toModel.unpack b.toModel.unpack).isNaN = false)
  revert ha hb
  rcases a.toModel.unpack with _ | _ | _ | _ <;> rcases b.toModel.unpack with _ | _ | _ | _ <;>
    simp only [UnpackedFloat.isFinite, UnpackedFloat.isNaN, UnpackedFloat.add, reduceCtorEq,
      false_implies, true_implies]
  · rename_i s t
    cases s <;> cases t <;> rfl
  · exact not_isNaN_normalize _ _ _

theorem not_isNaN_sub {a b : Float} (ha : a.isFinite = true) (hb : b.isNaN = false) :
    (a - b).isNaN = false := by
  have ha : a.toModel.unpack.isFinite = true := ha
  have hb : b.toModel.unpack.isNaN = false := hb
  refine not_isNaN_pack (?_ : (UnpackedFloat.sub _ a.toModel.unpack b.toModel.unpack).isNaN = false)
  revert ha hb
  rcases a.toModel.unpack with _ | _ | _ | _ <;> rcases b.toModel.unpack with _ | _ | _ | _ <;>
    simp only [UnpackedFloat.isFinite, UnpackedFloat.isNaN, UnpackedFloat.sub, reduceCtorEq,
      false_implies, true_implies]
  · rename_i s t
    cases s <;> cases t <;> rfl
  · exact not_isNaN_normalize _ _ _

theorem unpack_two : ∃ m e h, (2.0 : Float).toModel.unpack = .finite .positive m e h :=
  ⟨2 ^ 52, -51, by decide, by rfl⟩

/-- Half of a number is a number. -/
theorem not_isNaN_half {a : Float} (ha : a.isNaN = false) : (a / 2.0).isNaN = false := by
  obtain ⟨m, e, h, htwo⟩ := unpack_two
  have ha : a.toModel.unpack.isNaN = false := ha
  refine not_isNaN_pack
    (?_ : (UnpackedFloat.div _ a.toModel.unpack (2.0 : Float).toModel.unpack).isNaN = false)
  rw [htwo]
  revert ha
  cases a.toModel.unpack with
  | notANumber => exact id
  | infinity s => exact id
  | zero s => exact id
  | finite s m' e' h' => exact fun _ => not_isNaN_round _ _ _ _

theorem unpack_zero : (0.0 : Float).toModel.unpack = .zero .positive := by rfl

/-- A finite positive number times a number is a number. -/
theorem not_isNaN_mul {a b : Float} (hpos : 0.0 < a) (ha : a.isFinite = true)
    (hb : b.isNaN = false) : (a * b).isNaN = false := by
  have hbefore := (lt_iff_before.mp hpos).2.2
  have ha : a.toModel.unpack.isFinite = true := ha
  have hb : b.toModel.unpack.isNaN = false := hb
  refine not_isNaN_pack (?_ : (UnpackedFloat.mul _ a.toModel.unpack b.toModel.unpack).isNaN = false)
  rw [unpack_zero] at hbefore
  revert hbefore ha hb
  cases a.toModel.unpack with
  | notANumber => exact fun _ ha => nomatch ha
  | infinity s => exact fun _ ha => nomatch ha
  | zero s => exact fun hbefore => absurd hbefore (not_before_self _)
  | finite s m e hm =>
    intro _ _
    cases b.toModel.unpack with
    | notANumber => exact id
    | infinity t => exact fun _ => rfl
    | zero t => exact fun _ => rfl
    | finite t m' e' hm' => exact fun _ => not_isNaN_round _ _ _ _

/-! ## Operations that give no number -/

theorem eq_notANumber {u : UnpackedFloat} (h : u.isNaN = true) : u = .notANumber := by
  cases u <;> simp_all [UnpackedFloat.isNaN]

theorem isNaN_pack : (Float.Model.pack .notANumber).isNaN = true := by decide +kernel

theorem isNaN_abs {a : Float} (h : a.isNaN = true) : a.abs.isNaN = true := by
  show (Float.Model.pack a.toModel.unpack.abs).isNaN = true
  rw [eq_notANumber (u := a.toModel.unpack) h]
  exact isNaN_pack

theorem isNaN_sub {a b : Float} (h : a.isNaN = true ∨ b.isNaN = true) : (a - b).isNaN = true := by
  show (Float.Model.pack (UnpackedFloat.sub _ a.toModel.unpack b.toModel.unpack)).isNaN = true
  have hsub :
      UnpackedFloat.sub Format.binary64 a.toModel.unpack b.toModel.unpack = .notANumber := by
    rcases h with h | h
    · rw [eq_notANumber (u := a.toModel.unpack) h]
      rfl
    · rw [eq_notANumber (u := b.toModel.unpack) h]
      cases a.toModel.unpack <;> rfl
  rw [hsub]
  exact isNaN_pack

/-- A distance is a number only between numbers. -/
theorem not_isNaN_of_distance {a b : Float} (h : (a - b).abs.isNaN = false) :
    a.isNaN = false ∧ b.isNaN = false := by
  constructor
  · exact Bool.eq_false_iff.mpr fun ha => Bool.eq_false_iff.mp h (isNaN_abs (isNaN_sub (.inl ha)))
  · exact Bool.eq_false_iff.mpr fun hb => Bool.eq_false_iff.mp h (isNaN_abs (isNaN_sub (.inr hb)))

/-! ## Intervals -/

theorem isWithin_iff {lower upper v : Float} :
    isWithin lower upper v = true ↔ lower ≤ v ∧ v ≤ upper := by
  rw [isWithin, Bool.and_eq_true, decide_eq_true_iff, decide_eq_true_iff]

/-- A number moved into an interval lies in it. -/
theorem isWithin_clampTo {lower upper v : Float} (h : lower ≤ upper) (hv : v.isNaN = false) :
    isWithin lower upper (clampTo lower upper v) = true := by
  obtain ⟨hl, hu⟩ := not_isNaN_of_le h
  have hraised : lower ≤ (if lower > v then lower else v) := by
    split
    · exact le_refl hl
    · exact le_of_not_lt hv hl ‹_›
  rw [isWithin_iff, clampTo]
  generalize (if lower > v then lower else v) = raised at *
  split
  · exact ⟨h, le_refl hu⟩
  · exact ⟨hraised, le_of_not_lt hu (not_isNaN_of_le hraised).2 ‹_›⟩

/-- What is no number is no number after it has been moved. -/
theorem not_isNaN_of_clampTo {lower upper v : Float} (h : (clampTo lower upper v).isNaN = false) :
    v.isNaN = false := by
  rw [Bool.eq_false_iff]
  intro hv
  have hnot {a b : Float} (hab : a.isNaN = true ∨ b.isNaN = true) : ¬ a < b := by
    rw [lt_iff_before]
    rintro ⟨ha, hb, -⟩
    rw [ha, hb, or_self] at hab
    cases hab
  rw [clampTo, if_neg (hnot (.inl hv)), if_neg (hnot (.inr hv)), hv] at h
  cases h

/-- A value of the interval stays where it is. -/
theorem clampTo_of_isWithin {lower upper v : Float} (h : isWithin lower upper v = true) :
    clampTo lower upper v = v := by
  rw [isWithin_iff] at h
  rw [clampTo, if_neg fun hlt => not_le_of_lt hlt h.1, if_neg fun hlt => not_le_of_lt hlt h.2]

/-- A value of a finite interval is finite. -/
theorem isFinite_of_isWithin {lower upper v : Float} (hl : lower.isFinite = true)
    (hu : upper.isFinite = true) (hv : isWithin lower upper v = true) : v.isFinite = true := by
  rw [isWithin_iff] at hv
  exact isFinite_of_le hl hu hv.1 hv.2

theorem not_isNaN_of_isWithin {lower upper v : Float} (hv : isWithin lower upper v = true) :
    v.isNaN = false := by
  rw [isWithin_iff] at hv
  exact (not_isNaN_of_le hv.1).2

end FormulaSearch.Double
