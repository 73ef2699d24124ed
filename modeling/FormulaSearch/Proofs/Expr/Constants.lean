import FormulaSearch.Expr.Printer
import FormulaSearch.Proofs.Decimal.Bits
import FormulaSearch.Proofs.Decimal.Layout

/-!
# Printed constants

Every finite constant is printed so that it is read back with all its bits, the sign of a zero included.
The digits in full always round to the constant. The six digits that are preferred are only used if they
do so too, and dropping the point of a whole number changes nothing.
-/

namespace FormulaSearch.Decimal

/-! ## Whole numbers without their point -/

theorem point_not_isDigit : ¬ Text.isDigit '.' = true := by decide

/-- An exponent has no point in it. -/
theorem point_not_mem_exponent (e : ExponentPart) : '.' ∉ e.text := by
  intro h
  rcases List.mem_cons.mp h with h | h
  · rcases e.mark_eq with hm | hm <;> rw [hm] at h <;> exact absurd h (by decide)
  · rcases List.mem_append.mp h with h | h
    · rcases e.sign_eq with hs | hs | hs <;> rw [hs] at h <;> simp at h
    · exact point_not_isDigit (e.digits_isDigit _ h)

/-- A numeral that ends with a point and a zero has nothing else behind its whole part. -/
theorem numeral_of_ends {n : Numeral} {whole : List Char} (h : n.text = whole ++ ['.', '0']) :
    n.whole = whole ∧ n.fraction = some ['0'] ∧ n.exponent = none := by
  have hends : ['.', '0'] <:+ n.text := ⟨whole, h.symm⟩
  have hexponent : n.exponent = none := by
    cases he : n.exponent with
    | none => rfl
    | some e =>
      -- the exponent would be a suffix at least as long, and so contain the point
      have hsuffix : e.text <:+ n.text :=
        ⟨n.mantissaText, by rw [Numeral.text, Numeral.exponentText, he]⟩
      have hlength : ['.', '0'].length ≤ e.text.length := by
        have := List.length_pos_of_ne_nil e.digits_ne_nil
        simp only [ExponentPart.text, List.length_cons, List.length_append, List.length_nil]
        omega
      have := (List.suffix_of_suffix_length_le hends hsuffix hlength).subset (List.mem_cons_self ..)
      exact absurd this (point_not_mem_exponent e)
  have htext : n.text = n.whole ++ n.fractionText := by
    rw [Numeral.text, Numeral.mantissaText, Numeral.exponentText, hexponent, List.append_nil]
  rw [htext] at h hends
  cases hf : n.fraction with
  | none =>
    rw [Numeral.fractionText, hf, List.append_nil] at hends
    exact absurd (n.whole_isDigit _ (hends.subset (List.mem_cons_self ..))) point_not_isDigit
  | some digits =>
    obtain ⟨reversed, rfl⟩ : ∃ reversed, digits = reversed.reverse := ⟨digits.reverse, by simp⟩
    have hpoint : '.' ∉ reversed :=
      fun hmem => point_not_isDigit (n.fraction_isDigit hf _ (List.mem_reverse.mpr hmem))
    rw [Numeral.fractionText, hf, ← List.reverse_inj] at h
    simp only [List.reverse_append, List.reverse_cons, List.reverse_reverse, List.append_assoc,
      List.reverse_nil, List.nil_append, List.cons_append] at h
    cases reversed with
    | nil => simp at h
    | cons c reversed =>
      cases reversed with
      | nil =>
        simp only [List.cons_append, List.nil_append, List.cons.injEq, true_and] at h
        exact ⟨List.reverse_inj.mp h.2, by simp [h.1], hexponent⟩
      | cons c' reversed =>
        simp only [List.cons_append, List.cons.injEq] at h
        simp [h.2.1] at hpoint

/-- Dropping the point of a whole number leaves what it denotes. -/
theorem writes_dropPoint {text : String} {x : ℚ} (h : Writes text x) :
    Writes (dropPoint text) x := by
  obtain ⟨n, htext, hne, hvalue⟩ := h
  rw [dropPoint]
  split
  · rename_i whole hwhole
    have hends : n.text = whole.reverse ++ ['.', '0'] := by
      rw [← htext, ← List.reverse_inj, hwhole]
      simp
    obtain ⟨hw, hf, he⟩ := numeral_of_ends hends
    have hvalue : (digitsValue whole.reverse : ℚ) = x := by
      rw [← hvalue, Numeral.value, Literal.value, Numeral.literal, hf, he, hw, Option.getD_some,
        digitsValue_append, show digitsValue ['0'] = 0 from rfl]
      simp
    rw [← hvalue]
    exact writes_digits (hw ▸ n.whole_isDigit) (hw ▸ hne) String.toList_ofList
  · exact ⟨n, htext, hne, hvalue⟩

theorem dropPoint_minus (text : String) : dropPoint ("-" ++ text) = "-" ++ dropPoint text := by
  have hreverse : ("-" ++ text).toList.reverse = text.toList.reverse ++ ['-'] := by simp
  rw [dropPoint, hreverse, dropPoint]
  generalize text.toList.reverse = reversed
  match reversed with
  | [] => rfl
  | [c] => simp
  | c :: c' :: reversed =>
    simp only [List.cons_append]
    split
    · rename_i whole h
      simp only [List.cons.injEq] at h
      obtain ⟨rfl, rfl, rfl⟩ := h
      apply String.toList_injective
      simp
    · rename_i hne
      split
      · rename_i whole h
        simp only [List.cons.injEq] at h
        obtain ⟨rfl, rfl, rfl⟩ := h
        exact absurd rfl (hne _)
      · rfl

/-! ## Texts that round to a constant -/

/-- The text, with a minus in front if the constant is negative, is read as the constant. -/
def Shows (negative : Bool) (v : Float) (text : String) : Prop :=
  ∃ x, Writes text x ∧ ∀ num den : ℕ, den ≠ 0 → x = num / den → nearest negative num den = v

/-- The sign of a printed number. -/
def signText (negative : Bool) : String := if negative then "-" else ""

theorem dropPoint_sign (negative : Bool) (text : String) :
    dropPoint (signText negative ++ text) = signText negative ++ dropPoint text := by
  cases negative with
  | true => exact dropPoint_minus text
  | false => simp [signText]

/-- A numeral with a sign in front is read as the nearest double with that sign. -/
theorem readFloat?_sign {text : String} {n : Numeral} (htext : text.toList = n.text)
    {num den : ℕ} (hden : den ≠ 0) (h : n.value = num / den) (negative : Bool) :
    readFloat? (signText negative ++ text) = some (nearest negative num den) := by
  cases negative with
  | true =>
    have hlist : signText true ++ text = String.ofList ('-' :: n.text) := by
      apply String.toList_injective
      simp [signText, htext]
    rw [hlist, n.readFloat?_minus_eq hden h]
  | false =>
    have hlist : signText false ++ text = String.ofList n.text := by
      apply String.toList_injective
      simp [signText, htext]
    rw [hlist, n.readFloat?_eq hden h]

section

variable {v : Float} {negative : Bool} {d : Dyadic}

theorem Shows.dropPoint {text : String} (h : Shows negative v text) :
    Shows negative v (FormulaSearch.dropPoint text) := by
  obtain ⟨x, hwrites, hx⟩ := h
  exact ⟨x, writes_dropPoint hwrites, hx⟩

/-- Nothing but zero shows a double whose magnitude is zero. -/
theorem shows_zero (hbits : v.toBits.toNat = d.bits + if negative then twoTo 63 else 0)
    (hd : d.Canonical) (hzero : d.mantissa = 0) {text : String} (h : Writes text 0) :
    Shows negative v text := by
  refine ⟨0, h, fun num den hden hx => nearest_eq_of_bits hbits ?_⟩
  have hleast : d.exponent = -1074 := by
    have := hd.normal
    omega
  have hden : (den : ℚ) ≠ 0 := by exact_mod_cast hden
  have hnum : num = 0 := by exact_mod_cast (div_eq_zero_iff.mp hx.symm).resolve_right hden
  rw [nearestBits, if_pos (.inl hnum), Dyadic.bits, hleast, hzero]
  rfl

/-- The digits in full show the constant. -/
theorem shows_shortest (hbits : v.toBits.toNat = d.bits + if negative then twoTo 63 else 0)
    (hd : d.Canonical) : Shows negative v (fullLayout.write d.shortest) := by
  by_cases hzero : d.mantissa = 0
  · have hwrites := write_writes fullLayout d.shortest
    rw [show d.shortest = ⟨0, 0⟩ by rw [Dyadic.shortest, if_pos hzero]] at hwrites ⊢
    exact shows_zero hbits hd hzero (by simpa [Scaled.value] using hwrites)
  · refine ⟨_, write_writes fullLayout d.shortest, fun num den hden hx => ?_⟩
    refine nearest_eq_of_bits hbits ?_
    exact Dyadic.nearestBits_of_attracts hd hzero hden (hx ▸ Dyadic.shortest_attracts hd hzero)

/-- Zero is the only finite double that equals another one without having its bits. -/
theorem eq_of_beq_of_mantissa_ne {w : Float} (hof : Binary64.ofFloat v = .finite negative d)
    (hne : d.mantissa ≠ 0) (h : (w == v) = true) : w = v := by
  have hzero {u : Float} (hu : v = u) (hm : Binary64.ofFloat u = .finite false ⟨0, -1074⟩ ∨
      Binary64.ofFloat u = .finite true ⟨0, -1074⟩) : False := by
    rw [← hu, hof] at hm
    rcases hm with hm | hm <;> cases hm <;> exact hne rfl
  obtain ⟨-, -, h | ⟨-, h⟩ | ⟨-, h⟩⟩ := Float.beq_iff_ne_nan_and_eq.mp h
  · exact h
  · exact (hzero h (.inr (by decide +kernel))).elim
  · exact (hzero h (.inl (by decide +kernel))).elim

/-- The six digits show the constant if the reader takes them for it. -/
theorem shows_significant (hof : Binary64.ofFloat v = .finite negative d) (hd : d.Canonical)
    (hbits : v.toBits.toNat = d.bits + if negative then twoTo 63 else 0) {w : Float}
    (hread : readFloat? (signText negative ++ shortLayout.write (d.significant 6)) = some w)
    (hw : (w == v) = true) : Shows negative v (shortLayout.write (d.significant 6)) := by
  have hwrites := write_writes shortLayout (d.significant 6)
  by_cases hzero : d.mantissa = 0
  · -- the reader's answer says nothing here, as a zero of the other sign equals it too
    rw [show d.significant 6 = ⟨0, 1 - 6⟩ by rw [Dyadic.significant, if_pos hzero]; rfl]
      at hwrites ⊢
    exact shows_zero hbits hd hzero (by simpa [Scaled.value] using hwrites)
  · obtain rfl := eq_of_beq_of_mantissa_ne hof hzero hw
    refine ⟨_, hwrites, fun num den hden hx => ?_⟩
    obtain ⟨n, htext, -, hvalue⟩ := hwrites
    rw [readFloat?_sign htext hden (hvalue.trans hx)] at hread
    exact Option.some.inj hread

end

/-! ## Constants in a formula -/

/-- What is printed of a constant: a numeral that is read as it, perhaps in parentheses, or in
parentheses a minus and a numeral that is read as its negation. -/
inductive ReadsAs (v : Float) : List Char → Prop where
  | plain (n : Numeral) (h : readFloat? (String.ofList n.text) = some v) : ReadsAs v n.text
  | guarded (n : Numeral) (h : readFloat? (String.ofList n.text) = some v) :
      ReadsAs v ('(' :: (n.text ++ [')']))
  | minus (n : Numeral) (w : Float) (h : readFloat? (String.ofList n.text) = some w) (hv : -w = v) :
      ReadsAs v ('(' :: '-' :: (n.text ++ [')']))

theorem fullText_shows {v : Float} (hv : v.isFinite = true) :
    ∃ negative text, fullText v = signText negative ++ text ∧ Shows negative v text := by
  obtain ⟨negative, d, hof, hd, hbits⟩ := ofFloat_of_isFinite hv
  refine ⟨negative, _, ?_, shows_shortest hbits hd⟩
  rw [fullText, signedText, hof]
  rfl

theorem readableText_shows {v : Float} (hv : v.isFinite = true) :
    ∃ negative text, readableText v = signText negative ++ text ∧ Shows negative v text := by
  obtain ⟨negative, d, hof, hd, hbits⟩ := ofFloat_of_isFinite hv
  have hshort : shortText v = signText negative ++ shortLayout.write (d.significant 6) := by
    rw [shortText, signedText, hof]
    rfl
  rw [readableText]
  split
  · rename_i w hread
    split
    · rename_i hw
      rw [hshort] at hread
      exact ⟨negative, _, hshort, shows_significant hof hd hbits hread hw⟩
    · exact fullText_shows hv
  · exact fullText_shows hv

/-- Every finite constant is printed so that it is read back. -/
theorem constantText_readsAs (precise : Bool) {v : Float} (hv : v.isFinite = true) :
    ReadsAs v (constantText precise v).toList := by
  have hshows : ∃ negative text,
      (if precise then fullText v else readableText v) = signText negative ++ text ∧
        Shows negative v text := by
    cases precise with
    | true => exact fullText_shows hv
    | false => exact readableText_shows hv
  obtain ⟨negative, text, htext, hshows⟩ := hshows
  obtain ⟨x, ⟨n, hn, -, hvalue⟩, hx⟩ := hshows.dropPoint
  have hnonneg : 0 ≤ x := by
    rw [← hvalue, Numeral.value, Literal.value]
    positivity
  have hsplit : n.value = (x.num.natAbs : ℚ) / x.den := by
    rw [hvalue, natAbs_num_div_den hnonneg]
  have hread := n.readFloat?_eq x.den_nz hsplit
  have hround := hx x.num.natAbs x.den x.den_nz (natAbs_num_div_den hnonneg).symm
  rw [constantText, htext, dropPoint_sign, guardSign]
  cases negative with
  | true =>
    rw [← neg_nearest] at hround
    simpa [signText, hn] using ReadsAs.minus n _ hread hround
  | false =>
    rw [hround] at hread
    split
    · simpa [signText, hn] using ReadsAs.guarded n hread
    · simpa [signText, hn] using ReadsAs.plain n hread

end FormulaSearch.Decimal
