import FormulaSearch.Proofs.Decimal.Nearest
import FormulaSearch.Proofs.Decimal.Numeral

/-!
# What a written number denotes

A literal denotes a rational number, and the double that is read is the nearest one. The reader settles
literals far out of range by the place of their first digit; this agrees with the rule for all others, so
two literals that denote the same number are read as the same double.
-/

namespace FormulaSearch.Decimal

open Text

/-! ## Values of digits -/

theorem digitsValue_foldl (digits : List Char) (n : ℕ) :
    digits.foldl (fun n c => 10 * n + (digitValue? c).getD 0) n =
      n * 10 ^ digits.length + digitsValue digits := by
  rw [digitsValue]
  induction digits generalizing n with
  | nil => simp
  | cons c digits ih =>
    rw [List.foldl_cons, List.foldl_cons, ih, ih (10 * 0 + _), List.length_cons, pow_succ]
    ring

theorem digitsValue_append (a b : List Char) :
    digitsValue (a ++ b) = digitsValue a * 10 ^ b.length + digitsValue b := by
  rw [digitsValue, List.foldl_append, digitsValue_foldl]
  rfl

theorem digitsValue_cons (c : Char) (digits : List Char) :
    digitsValue (c :: digits) =
      (digitValue? c).getD 0 * 10 ^ digits.length + digitsValue digits := by
  rw [digitsValue, List.foldl_cons, digitsValue_foldl]
  simp

theorem digitsValue_replicate_zero (n : ℕ) : digitsValue (List.replicate n '0') = 0 := by
  induction n with
  | zero => rfl
  | succ n ih =>
    rw [List.replicate_succ, digitsValue_cons, ih, show digitValue? '0' = some 0 from rfl]
    simp

/-- Zeros in front do not count. -/
theorem digitsValue_dropWhile (digits : List Char) :
    digitsValue (digits.dropWhile (· == '0')) = digitsValue digits := by
  induction digits with
  | nil => rfl
  | cons c digits ih =>
    rw [List.dropWhile_cons]
    split
    · rename_i hc
      rw [ih, digitsValue_cons, eq_of_beq hc, show digitValue? '0' = some 0 from rfl]
      simp
    · rfl

theorem digitsValue_lt (digits : List Char) : digitsValue digits < 10 ^ digits.length := by
  induction digits with
  | nil => decide
  | cons c digits ih =>
    have hc : (digitValue? c).getD 0 < 10 := by
      cases hv : digitValue? c with
      | none => decide
      | some v => exact digitValue?_lt hv
    rw [digitsValue_cons, List.length_cons, pow_succ]
    nlinarith

/-- A first digit that is not zero decides the size. -/
theorem le_digitsValue {c : Char} {digits : List Char} (hc : c.isDigit = true) (hne : c ≠ '0') :
    10 ^ digits.length ≤ digitsValue (c :: digits) := by
  have hpos : 1 ≤ (digitValue? c).getD 0 := by
    rw [digitValue?_eq_of_isDigit hc, Option.getD_some]
    by_contra hzero
    simp only [Char.isDigit, Bool.and_eq_true, decide_eq_true_eq] at hc
    have h0 : '0'.toNat ≤ c.toNat := hc.1
    exact hne (Char.toNat_inj.mp (by omega))
  rw [digitsValue_cons]
  nlinarith [Nat.pow_pos (n := digits.length) (show 0 < 10 by decide)]

theorem digitValue?_plainDigit {c : Char} (h : isDigit c = true) :
    digitValue? (plainDigit c) = digitValue? c := by
  obtain ⟨v, hv⟩ := isDigit_iff.mp h
  have hall : ∀ v < 10, digitValue? (digitChar v) = some v := by decide
  rw [plainDigit, hv]
  exact hall v (digitValue?_lt hv)

/-- Digits of any script have the value of the ASCII digits in their place. -/
theorem digitsValue_map_plainDigit {digits : List Char} (h : ∀ c ∈ digits, isDigit c = true) :
    digitsValue (digits.map plainDigit) = digitsValue digits := by
  induction digits with
  | nil => rfl
  | cons c digits ih =>
    rw [List.map_cons, digitsValue_cons, digitsValue_cons, List.length_map,
      digitValue?_plainDigit (h c List.mem_cons_self),
      ih fun d hd => h d (List.mem_cons_of_mem c hd)]

/-! ## Literals -/

/-- The number that a literal denotes. -/
def Literal.value (l : Literal) : ℚ := digitsValue l.digits * 10 ^ l.exponent

theorem nearest_congr {negative : Bool} {num den num' den' : ℕ}
    (h : nearestBits num den = nearestBits num' den') :
    nearest negative num den = nearest negative num' den' := by
  rw [nearest, nearest, h]

namespace Literal

/-- The place of the first digit bounds the number on both sides. -/
theorem value_bounds {l : Literal} (hdigits : ∀ c ∈ l.digits, c.isDigit = true)
    (hne : digitsValue l.digits ≠ 0) :
    let place := ((l.digits.dropWhile (· == '0')).length : ℤ) + l.exponent
    (10 : ℚ) ^ (place - 1) ≤ l.value ∧ l.value < 10 ^ place := by
  intro place
  have hpos : (0 : ℚ) < 10 ^ l.exponent := by positivity
  have hvalue := digitsValue_dropWhile l.digits
  have hmem : ∀ c ∈ l.digits.dropWhile (· == '0'), c.isDigit = true :=
    fun c hc => hdigits c ((List.dropWhile_suffix _).subset hc)
  have hhead := @List.head?_dropWhile_not _ (· == '0') l.digits
  rw [value, ← hvalue]
  rw [← hvalue] at hne
  subst place
  generalize l.digits.dropWhile (· == '0') = digits at *
  cases digits with
  | nil => exact absurd rfl hne
  | cons c digits =>
    have hc : c ≠ '0' := by simpa using hhead
    have hlow := @le_digitsValue c digits (hmem c List.mem_cons_self) hc
    have hhigh := digitsValue_lt (c :: digits)
    constructor
    · rw [List.length_cons, show ((digits.length + 1 : ℕ) : ℤ) + l.exponent - 1 =
        digits.length + l.exponent by push_cast; ring, zpow_add₀ (by norm_num), zpow_natCast]
      gcongr
      exact_mod_cast hlow
    · rw [zpow_add₀ (by norm_num), zpow_natCast]
      gcongr
      exact_mod_cast hhigh

/-- The bound on the place of the first digit lies beyond the greatest double. -/
theorem large_of_bound_lt {place : ℤ} (h : exponentBound < place) :
    (2 : ℚ) ^ 1024 ≤ 10 ^ (place - 1) := by
  have hpower : (2 : ℚ) ^ 1024 ≤ 10 ^ 400 := by
    exact_mod_cast (by decide +kernel : 2 ^ 1024 ≤ 10 ^ 400)
  have hmono : (10 : ℚ) ^ (400 : ℤ) ≤ 10 ^ (place - 1) :=
    zpow_le_zpow_right₀ (by norm_num) (by rw [exponentBound] at h; omega)
  exact hpower.trans (by exact_mod_cast hmono)

/-- On the other side it lies below half of the least one. -/
theorem small_of_lt_bound {place : ℤ} (h : place < -exponentBound) :
    (10 : ℚ) ^ place ≤ 2 ^ (-1075 : ℤ) := by
  have hpower : (2 : ℚ) ^ 1075 ≤ 10 ^ 401 := by
    exact_mod_cast (by decide +kernel : 2 ^ 1075 ≤ 10 ^ 401)
  have hmono : (10 : ℚ) ^ place ≤ 10 ^ (-401 : ℤ) :=
    zpow_le_zpow_right₀ (by norm_num) (by rw [exponentBound] at h; omega)
  refine hmono.trans ?_
  rw [zpow_neg, zpow_neg]
  exact inv_anti₀ (by positivity) (by exact_mod_cast hpower)

/-- A literal is read as the double nearest to the number that it denotes. -/
theorem toFloat_eq {l : Literal} (hdigits : ∀ c ∈ l.digits, c.isDigit = true) {num den : ℕ}
    (hden : den ≠ 0) (h : l.value = num / den) (negative : Bool) :
    l.toFloat negative = nearest negative num den := by
  by_cases hzero : digitsValue l.digits = 0
  · have hsame : ((0 : ℕ) / (1 : ℕ) : ℚ) = num / den := by
      rw [← h, value, hzero]
      simp
    rw [toFloat, hzero]
    exact nearest_congr (nearestBits_congr one_ne_zero hden hsame)
  · obtain ⟨hlow, hhigh⟩ := l.value_bounds hdigits hzero
    rw [toFloat]
    generalize ((l.digits.dropWhile (· == '0')).length : ℤ) + l.exponent = place at *
    rw [h] at hlow hhigh
    -- out of range on either side, both readings are settled by the place of the first digit
    split
    · rename_i hsmall
      have hsmall : place < -exponentBound := by simpa [hzero] using hsmall
      refine nearest_congr ?_
      rw [nearestBits_of_small hden (hhigh.trans_le (small_of_lt_bound hsmall))]
      rfl
    · split
      · rename_i hlarge
        refine nearest_congr ?_
        rw [nearestBits_of_large hden ((large_of_bound_lt hlarge).trans hlow)]
        refine nearestBits_of_large one_ne_zero ?_
        have hbound := large_of_bound_lt (show exponentBound < 401 by decide)
        rw [show (401 : ℤ) - 1 = (400 : ℕ) from rfl, zpow_natCast] at hbound
        rwa [cast_tenTo, Nat.cast_one, div_one]
      · refine nearest_congr (nearestBits_congr (tenTo_pos _).ne' hden ?_)
        rw [← h, value]
        push_cast [cast_tenTo]
        rw [mul_div_assoc, pow_toNat_div (by norm_num)]

end Literal

/-! ## Numerals -/

namespace Numeral

/-- The number that a numeral denotes. -/
def value (n : Numeral) : ℚ := n.literal.value

theorem digits_plain (n : Numeral) : n.plain.literal.digits = n.literal.digits.map plainDigit := by
  cases hf : n.fraction <;> simp [literal, plain, hf]

theorem exponent_plain (n : Numeral) : n.plain.literal.exponent = n.literal.exponent := by
  have hvalue (e : ExponentPart) : e.plain.value = e.value := by
    have := digitsValue_map_plainDigit e.digits_isDigit
    simp [ExponentPart.value, ExponentPart.plain, this]
  cases hf : n.fraction <;> cases he : n.exponent <;> simp [literal, plain, hf, he, hvalue]

/-- The script of its digits does not change what a numeral denotes. -/
theorem value_plain (n : Numeral) : n.plain.value = n.value := by
  have hdigits : digitsValue (n.literal.digits.map plainDigit) = digitsValue n.literal.digits :=
    digitsValue_map_plainDigit n.digits_isDigit
  rw [value, value, Literal.value, Literal.value, digits_plain, exponent_plain, hdigits]

theorem toFloat_plain (n : Numeral) {num den : ℕ} (hden : den ≠ 0) (h : n.value = num / den)
    (negative : Bool) : n.plain.literal.toFloat negative = nearest negative num den := by
  have hdigits : ∀ c ∈ n.plain.literal.digits, c.isDigit = true := by
    intro c hc
    rw [digits_plain] at hc
    obtain ⟨d, hd, rfl⟩ := List.mem_map.mp hc
    exact plainDigit_isDigit (n.digits_isDigit d hd)
  exact Literal.toFloat_eq hdigits hden (n.value_plain.trans h) negative

/-- A numeral is read as the double nearest to the number that it denotes. -/
theorem readFloat?_eq (n : Numeral) {num den : ℕ} (hden : den ≠ 0) (h : n.value = num / den) :
    readFloat? (String.ofList n.text) = some (nearest false num den) := by
  rw [n.readFloat?_text, n.toFloat_plain hden h]

theorem readFloat?_minus_eq (n : Numeral) {num den : ℕ} (hden : den ≠ 0) (h : n.value = num / den) :
    readFloat? (String.ofList ('-' :: n.text)) = some (nearest true num den) := by
  rw [n.readFloat?_minus_text, n.toFloat_plain hden h]

end Numeral

end FormulaSearch.Decimal
