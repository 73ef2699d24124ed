import FormulaSearch.Decimal.Notation
import FormulaSearch.Proofs.Decimal.Magnitude
import FormulaSearch.Proofs.Decimal.Shortest

/-!
# Laid out numbers

However chosen digits are laid out, with a point or with an exponent, zeros trimmed or filled in, the text
is a numeral and denotes the number that the digits stand for.
-/

namespace FormulaSearch.Decimal

open Text

/-! ## Digits of a natural number -/

theorem digitsOf_isDigit {n : ℕ} : ∀ c ∈ digitsOf n, c.isDigit = true :=
  fun _ hc => Nat.isDigit_of_mem_toDigits (by decide) (by decide) hc

theorem digitsOf_ne_nil {n : ℕ} : digitsOf n ≠ [] := Nat.toDigits_ne_nil

theorem digitsValue_digitsOf (n : ℕ) : digitsValue (digitsOf n) = n := by
  have hvalue : digitsValue (digitsOf n) = Nat.ofDigitChars 10 (digitsOf n) 0 := by
    rw [digitsValue, Nat.ofDigitChars_eq_foldl]
    refine List.foldl_ext _ _ _ fun m c hc => ?_
    rw [digitValue?_eq_of_isDigit (digitsOf_isDigit c hc)]
    rfl
  rw [hvalue]
  exact Nat.ofDigitChars_ten_toDigits

/-- Only zeros are trimmed. -/
theorem trimZeros_append (n : ℕ) :
    ∃ z, trimZeros (digitsOf n) ++ List.replicate z '0' = digitsOf n := by
  have hzeros : (digitsOf n).reverse.takeWhile (· == '0') =
      List.replicate ((digitsOf n).reverse.takeWhile (· == '0')).length '0' := by
    refine List.eq_replicate_of_mem fun c hc => ?_
    simpa using List.all_eq_true.mp List.all_takeWhile c hc
  have hsplit : ((digitsOf n).reverse.dropWhile (· == '0')).reverse ++
      List.replicate ((digitsOf n).reverse.takeWhile (· == '0')).length '0' = digitsOf n := by
    rw [← List.reverse_inj, List.reverse_append, List.reverse_replicate, ← hzeros,
      List.reverse_reverse, List.takeWhile_append_dropWhile]
  rw [trimZeros]
  split
  · rename_i hnil
    rw [hnil, List.nil_append] at hsplit
    -- a number whose digits are all zeros is zero, and has one digit
    have hn : n = 0 := by
      rw [← digitsValue_digitsOf n, ← hsplit, digitsValue_replicate_zero]
    exact ⟨0, by rw [hn]; rfl⟩
  · exact ⟨_, hsplit⟩

theorem trimZeros_ne_nil (digits : List Char) : trimZeros digits ≠ [] := by
  rw [trimZeros]
  split
  · exact List.cons_ne_nil _ _
  · assumption

/-! ## Forms -/

/-- The text is a numeral with a digit before any point, and denotes the number. -/
def Writes (text : String) (x : ℚ) : Prop :=
  ∃ n : Numeral, text.toList = n.text ∧ n.whole ≠ [] ∧ n.value = x

section

variable {digits : List Char}

theorem writes_digits (hdigits : ∀ c ∈ digits, isDigit c = true) (hne : digits ≠ [])
    {text : String} (h : text.toList = digits) : Writes text (digitsValue digits) := by
  refine ⟨⟨digits, none, none, by simpa using hdigits,
    by simpa using hne⟩, ?_, hne, ?_⟩
  · simpa [Numeral.text, Numeral.mantissaText, Numeral.fractionText, Numeral.exponentText] using h
  · simp [Numeral.value, Numeral.literal, Literal.value]

/-- Digits on both sides of a point. -/
theorem writes_fraction {whole fraction : List Char}
    (hdigits : ∀ c ∈ whole ++ fraction, isDigit c = true) (hne : whole ≠ []) {text : String}
    (h : text.toList = whole ++ '.' :: fraction) :
    Writes text (digitsValue (whole ++ fraction) * 10 ^ (-(fraction.length : ℤ))) := by
  refine ⟨⟨whole, some fraction, none, hdigits,
    by simp [hne]⟩, ?_, hne, ?_⟩
  · simpa [Numeral.text, Numeral.mantissaText, Numeral.fractionText, Numeral.exponentText] using h
  · simp [Numeral.value, Numeral.literal, Literal.value]

/-- The exponent as it is written. -/
theorem exists_exponentPart_text (e : ℤ) :
    ∃ p : ExponentPart, (exponentText e).toList = p.text ∧ p.value = e := by
  let padded :=
    if (digitsOf e.natAbs).length < 2 then '0' :: digitsOf e.natAbs else digitsOf e.natAbs
  have hpadded : ∀ c ∈ padded, isDigit c = true := by
    intro c hc
    dsimp only [padded] at hc
    split at hc
    · rcases List.mem_cons.mp hc with rfl | hc
      · decide
      · exact isDigit_of_isDigit (digitsOf_isDigit c hc)
    · exact isDigit_of_isDigit (digitsOf_isDigit c hc)
  have hne : padded ≠ [] := by
    dsimp only [padded]
    split
    · exact List.cons_ne_nil _ _
    · exact digitsOf_ne_nil
  have hvalue : digitsValue padded = e.natAbs := by
    dsimp only [padded]
    split
    · rw [digitsValue_cons, digitsValue_digitsOf, show digitValue? '0' = some 0 from rfl]
      simp
    · exact digitsValue_digitsOf _
  refine ⟨⟨'e', [if e < 0 then '-' else '+'], padded, .inl rfl, ?_, hpadded, hne⟩, ?_, ?_⟩
  · split <;> simp
  · rw [exponentText]
    split <;> simp [ExponentPart.text, padded]
  · rw [ExponentPart.value, hvalue]
    by_cases he : e < 0
    · rw [if_pos (by simp [he])]
      omega
    · rw [if_neg (by simp [he])]
      omega

/-- Digits with an exponent. -/
theorem exponentForm_writes (hdigits : ∀ c ∈ digits, isDigit c = true) (hne : digits ≠ []) (e : ℤ) :
    Writes (exponentForm digits e) (digitsValue digits * 10 ^ (e + 1 - digits.length)) := by
  obtain ⟨part, htext, hvalue⟩ := exists_exponentPart_text e
  cases digits with
  | nil => exact absurd rfl hne
  | cons d rest =>
    cases rest with
    | nil =>
      refine ⟨⟨[d], none, some part, by simpa using hdigits, by simp⟩, ?_, by simp, ?_⟩
      · simp [exponentForm, Numeral.text, Numeral.mantissaText, Numeral.fractionText,
          Numeral.exponentText, htext]
      · simp [Numeral.value, Numeral.literal, Literal.value, hvalue]
    | cons d' rest =>
      refine ⟨⟨[d], some (d' :: rest), some part, by simpa using hdigits, by simp⟩, ?_, by simp, ?_⟩
      · simp [exponentForm, Numeral.text, Numeral.mantissaText, Numeral.fractionText,
          Numeral.exponentText, htext]
      · have : e + 1 - ((rest.length : ℤ) + 1 + 1) = e - (rest.length + 1) := by ring
        simp [Numeral.value, Numeral.literal, Literal.value, hvalue, this]

theorem zeros_isDigit (n : ℕ) : ∀ c ∈ List.replicate n '0', isDigit c = true := by
  intro c hc
  rw [List.eq_of_mem_replicate hc]
  decide

/-- Zeros behind the digits fill up to the place of the point. -/
theorem digitsValue_padded {e : ℤ} (he : 0 ≤ e) (h : digits.length ≤ (e + 1).toNat) :
    (digitsValue (digits ++ List.replicate ((e + 1).toNat - digits.length) '0') : ℚ) =
      digitsValue digits * 10 ^ (e + 1 - digits.length) := by
  have hexponent : e + 1 - digits.length = ((e + 1).toNat - digits.length : ℕ) := by omega
  rw [digitsValue_append, digitsValue_replicate_zero, List.length_replicate, hexponent]
  simp

/-- A number below one: a zero, the point, and more zeros before the digits. -/
theorem writes_small (hdigits : ∀ c ∈ digits, isDigit c = true) {e : ℤ} (he : e < 0) :
    Writes (String.ofList ('0' :: '.' :: (List.replicate (-e - 1).toNat '0' ++ digits)))
      (digitsValue digits * 10 ^ (e + 1 - digits.length)) := by
  let fraction := List.replicate (-e - 1).toNat '0' ++ digits
  have hall : ∀ c ∈ ['0'] ++ fraction, isDigit c = true := by
    intro c hc
    simp only [fraction, List.mem_append] at hc
    rcases hc with hc | hc | hc
    · exact zeros_isDigit 1 c hc
    · exact zeros_isDigit _ c hc
    · exact hdigits c hc
  have hwrites := writes_fraction hall (by simp) (String.toList_ofList)
  have hvalue : digitsValue (['0'] ++ fraction) = digitsValue digits := by
    rw [digitsValue_append, digitsValue_append, digitsValue_replicate_zero,
      show digitsValue ['0'] = 0 from rfl]
    simp
  have hlength : -(fraction.length : ℤ) = e + 1 - digits.length := by
    simp only [fraction, List.length_append, List.length_replicate]
    omega
  rwa [hvalue, hlength] at hwrites

/-- A whole number, with a point and a zero behind it if the point is kept. -/
theorem writes_whole (keepsPoint : Bool) (hdigits : ∀ c ∈ digits, isDigit c = true)
    (hne : digits ≠ []) :
    Writes (String.ofList digits ++ (if keepsPoint then ".0" else "")) (digitsValue digits) := by
  cases keepsPoint with
  | false => exact writes_digits hdigits hne (by simp)
  | true =>
    have hall : ∀ c ∈ digits ++ ['0'], isDigit c = true := by
      intro c hc
      rcases List.mem_append.mp hc with hc | hc
      · exact hdigits c hc
      · exact zeros_isDigit 1 c hc
    have hwrites := @writes_fraction digits ['0'] hall hne
      (String.ofList digits ++ (if true then ".0" else "")) (by simp)
    have htenth : ((10 ^ ['0'].length : ℕ) : ℚ) * 10 ^ (-(['0'].length : ℤ)) = 1 := by norm_num
    rwa [digitsValue_append, show digitsValue ['0'] = 0 from rfl, Nat.add_zero, Nat.cast_mul,
      mul_assoc, htenth, mul_one] at hwrites

/-- Digits with a point where the exponent puts it. -/
theorem positionalForm_writes (keepsPoint : Bool) (hdigits : ∀ c ∈ digits, isDigit c = true)
    (hne : digits ≠ []) (e : ℤ) :
    Writes (positionalForm keepsPoint digits e)
      (digitsValue digits * 10 ^ (e + 1 - digits.length)) := by
  rw [positionalForm]
  split
  · rename_i hneg
    exact writes_small hdigits hneg
  · split
    · rename_i hneg hwhole
      rw [← digitsValue_padded (Int.not_lt.mp hneg) hwhole]
      refine writes_whole keepsPoint (fun c hc => ?_) (by simp [hne])
      rcases List.mem_append.mp hc with hc | hc
      · exact hdigits c hc
      · exact zeros_isDigit _ c hc
    · rename_i hneg hwhole
      have hwrites := @writes_fraction (digits.take (e + 1).toNat) (digits.drop (e + 1).toNat)
        (by simpa using hdigits) (by simpa using ⟨by omega, hne⟩) _ String.toList_ofList
      have hlength : -((digits.drop (e + 1).toNat).length : ℤ) = e + 1 - digits.length := by
        rw [List.length_drop]
        omega
      rwa [List.take_append_drop, hlength] at hwrites

/-- A magnitude is laid out as a numeral that denotes it. -/
theorem write_writes (layout : Layout) (s : Scaled) : Writes (layout.write s) s.value := by
  obtain ⟨z, htrim⟩ := trimZeros_append s.coefficient
  have hdigits : ∀ c ∈ trimZeros (digitsOf s.coefficient), isDigit c = true := by
    intro c hc
    exact isDigit_of_isDigit (digitsOf_isDigit c (htrim ▸ List.mem_append_left _ hc))
  have hvalue := digitsValue_digitsOf s.coefficient
  rw [← htrim, digitsValue_append, digitsValue_replicate_zero, Nat.add_zero, List.length_replicate]
    at hvalue
  have hlength := congrArg List.length htrim
  rw [List.length_append, List.length_replicate] at hlength
  have hne := trimZeros_ne_nil (digitsOf s.coefficient)
  rw [Layout.write]
  generalize trimZeros (digitsOf s.coefficient) = digits at *
  generalize he : (if s.coefficient = 0 then 0 else
    s.exponent + ((digitsOf s.coefficient).length : ℤ) - 1) = e
  -- the digits that are left, in the place that the trimmed zeros give them
  have hsame : (digitsValue digits : ℚ) * 10 ^ (e + 1 - digits.length) = s.value := by
    rw [Scaled.value]
    by_cases hzero : s.coefficient = 0
    · rw [hzero] at hvalue ⊢
      have : digitsValue digits = 0 := by simpa using hvalue
      rw [this]
      simp
    · rw [if_neg hzero] at he
      have hexponent : e + 1 - digits.length = z + s.exponent := by omega
      rw [hexponent, zpow_add₀ (by norm_num), zpow_natCast, ← mul_assoc]
      congr 1
      exact_mod_cast hvalue
  rw [← hsame]
  split
  · exact positionalForm_writes _ hdigits hne e
  · exact exponentForm_writes hdigits hne e

end

end FormulaSearch.Decimal
