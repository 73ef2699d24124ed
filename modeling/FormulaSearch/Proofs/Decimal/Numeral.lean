import Mathlib.Data.List.TakeDrop
import FormulaSearch.Decimal.Reader
import FormulaSearch.Expr.Token

/-!
# Written numbers

A numeral is a number as a formula may show it: digits with an optional point, and an optional
exponent, but no sign in front. The scanner cuts off exactly the numerals, and the reader of real numbers
gives each of them the double nearest to what it denotes.
-/

namespace FormulaSearch.Decimal

open Text

/-! ## Digits of any script -/

theorem isDigit_iff {c : Char} : isDigit c = true ↔ ∃ v, digitValue? c = some v :=
  Option.isSome_iff_exists

theorem digitValue?_of_not_isDigit {c : Char} (h : ¬ isDigit c = true) : digitValue? c = none := by
  simpa [isDigit] using h

/-- A digit is an ASCII digit, or stands at its value behind the zero of its script. -/
theorem digitValue?_cases {c : Char} {v : Nat} (h : digitValue? c = some v) :
    ('0' ≤ c ∧ c ≤ '9' ∧ v = c.toNat - '0'.toNat) ∨
      ∃ first ∈ digitZeros, v < 10 ∧ c.toNat = first + v := by
  rw [digitValue?] at h
  split at h
  · split at h
    · rename_i hc
      exact .inl ⟨hc.1, hc.2, (Option.some.inj h).symm⟩
    · cases h
  · obtain ⟨first, hz, rfl⟩ := Option.map_eq_some_iff.mp h
    have hin := List.find?_some hz
    simp only [Bool.and_eq_true, decide_eq_true_eq] at hin
    exact .inr ⟨first, List.mem_of_find?_eq_some hz, by omega, by omega⟩

theorem digitValue?_lt {c : Char} {v : Nat} (h : digitValue? c = some v) : v < 10 := by
  rcases digitValue?_cases h with ⟨-, h9, rfl⟩ | ⟨_, _, hv, _⟩
  · have : c.toNat ≤ '9'.toNat := h9
    have : '9'.toNat = '0'.toNat + 9 := rfl
    omega
  · exact hv

theorem digitValue?_eq_of_isDigit {c : Char} (h : c.isDigit = true) :
    digitValue? c = some (c.toNat - '0'.toNat) := by
  simp only [Char.isDigit, Bool.and_eq_true, decide_eq_true_eq] at h
  have h0 : '0' ≤ c := h.1
  have h9 : c ≤ '9' := h.2
  have hlt : c.toNat < 0x80 := Nat.lt_of_le_of_lt (show c.toNat ≤ '9'.toNat from h9) (by decide)
  rw [digitValue?, if_pos hlt, if_pos ⟨h0, h9⟩]

/-- The ASCII digits count as digits. -/
theorem isDigit_of_isDigit {c : Char} (h : c.isDigit = true) : isDigit c = true :=
  isDigit_iff.mpr ⟨_, digitValue?_eq_of_isDigit h⟩

theorem digitChar_isDigit {v : Nat} (h : v < 10) : (digitChar v).isDigit = true := by
  have hall : ∀ v < 10, (digitChar v).isDigit = true := by decide
  exact hall v h

/-- No digit is white space. -/
theorem not_isBlank_of_isDigit {c : Char} (h : isDigit c = true) : isBlank c = false := by
  obtain ⟨v, hv⟩ := isDigit_iff.mp h
  have hc : isBlank (Char.ofNat c.toNat) = false := by
    rcases digitValue?_cases hv with ⟨h0, h9, -⟩ | ⟨first, hz, hlt, hc⟩
    · have h0 : '0'.toNat ≤ c.toNat := h0
      have h9 : c.toNat ≤ '9'.toNat := h9
      have hall : ∀ i < 10, isBlank (Char.ofNat ('0'.toNat + i)) = false := by decide
      have : '9'.toNat = '0'.toNat + 9 := rfl
      have := hall (c.toNat - '0'.toNat) (by omega)
      rwa [Nat.add_sub_cancel' h0] at this
    · have hall : ∀ first ∈ digitZeros, ∀ i < 10, isBlank (Char.ofNat (first + i)) = false := by
        decide +kernel
      rw [hc]
      exact hall first hz v hlt
  rwa [Char.ofNat_toNat] at hc

/-- Digits are written as ASCII digits; other characters are kept. -/
def plainDigit (c : Char) : Char :=
  match digitValue? c with
  | some v => digitChar v
  | none => c

theorem plainDigits_eq_map (cs : List Char) : plainDigits cs = cs.map plainDigit := rfl

theorem plainDigit_isDigit {c : Char} (h : isDigit c = true) : (plainDigit c).isDigit = true := by
  obtain ⟨v, hv⟩ := isDigit_iff.mp h
  rw [plainDigit, hv]
  exact digitChar_isDigit (digitValue?_lt hv)

theorem plainDigit_of_not_isDigit {c : Char} (h : ¬ isDigit c = true) : plainDigit c = c := by
  rw [plainDigit, digitValue?_of_not_isDigit h]

/-! ## Numerals -/

/-- The exponent of a number: its mark, its sign if it has one, and its digits. -/
structure ExponentPart where
  mark : Char
  sign : List Char
  digits : List Char
  mark_eq : mark = 'e' ∨ mark = 'E'
  sign_eq : sign = [] ∨ sign = ['+'] ∨ sign = ['-']
  digits_isDigit : ∀ c ∈ digits, isDigit c = true
  digits_ne_nil : digits ≠ []

/-- A written number: digits, further digits after a point if there is one, and an exponent if there
is one. There is a digit before or after the point. -/
structure Numeral where
  whole : List Char
  fraction : Option (List Char)
  exponent : Option ExponentPart
  digits_isDigit : ∀ c ∈ whole ++ fraction.getD [], isDigit c = true
  digits_ne_nil : whole ++ fraction.getD [] ≠ []

namespace ExponentPart

def text (e : ExponentPart) : List Char := e.mark :: (e.sign ++ e.digits)

def value (e : ExponentPart) : Int :=
  if e.sign = ['-'] then -(digitsValue e.digits : Int) else digitsValue e.digits

/-- The exponent with ASCII digits. -/
def plain (e : ExponentPart) : ExponentPart :=
  { e with
    digits := e.digits.map plainDigit
    digits_isDigit := by
      intro c hc
      obtain ⟨d, hd, rfl⟩ := List.mem_map.mp hc
      exact isDigit_of_isDigit (plainDigit_isDigit (e.digits_isDigit d hd))
    digits_ne_nil := by simpa using e.digits_ne_nil }

end ExponentPart

namespace Numeral

/-- The digits after the point, with the point. -/
def fractionText (n : Numeral) : List Char :=
  match n.fraction with
  | some digits => '.' :: digits
  | none => []

def exponentText (n : Numeral) : List Char :=
  match n.exponent with
  | some e => e.text
  | none => []

def mantissaText (n : Numeral) : List Char := n.whole ++ n.fractionText

def text (n : Numeral) : List Char := n.mantissaText ++ n.exponentText

/-- All digits, and the place of the last one. -/
def literal (n : Numeral) : Literal :=
  let fraction := n.fraction.getD []
  ⟨n.whole ++ fraction,
    (n.exponent.map ExponentPart.value).getD 0 - (fraction.length : Int)⟩

/-- The numeral with ASCII digits. -/
def plain (n : Numeral) : Numeral where
  whole := n.whole.map plainDigit
  fraction := n.fraction.map (·.map plainDigit)
  exponent := n.exponent.map ExponentPart.plain
  digits_isDigit := by
    intro c hc
    have hc : c ∈ (n.whole ++ n.fraction.getD []).map plainDigit := by
      cases hf : n.fraction <;> simpa [hf] using hc
    obtain ⟨d, hd, rfl⟩ := List.mem_map.mp hc
    exact isDigit_of_isDigit (plainDigit_isDigit (n.digits_isDigit d hd))
  digits_ne_nil := by
    intro h
    refine n.digits_ne_nil (List.map_eq_nil_iff (f := plainDigit) |>.mp ?_)
    cases hf : n.fraction <;> simpa [hf] using h

end Numeral

/-! ## Runs of digits -/

/-- The text does not go on with a digit. -/
def EndsDigits (rest : List Char) : Prop := ∀ c ∈ rest.head?, ¬ isDigit c = true

theorem takeWhile_isDigit {digits rest : List Char} (h : ∀ c ∈ digits, isDigit c = true)
    (hr : EndsDigits rest) : (digits ++ rest).takeWhile isDigit = digits := by
  rw [List.takeWhile_append_of_pos h]
  cases rest with
  | nil => simp
  | cons c rest => simp [hr c (by simp)]

theorem dropWhile_isDigit {digits rest : List Char} (h : ∀ c ∈ digits, isDigit c = true)
    (hr : EndsDigits rest) : (digits ++ rest).dropWhile isDigit = rest := by
  rw [List.dropWhile_append_of_pos h]
  cases rest with
  | nil => simp
  | cons c rest => simp [hr c (by simp)]

theorem not_isDigit_mark {c : Char} (h : c = 'e' ∨ c = 'E') : ¬ isDigit c = true := by
  rcases h with rfl | rfl <;> decide

/-- The text does not go on with anything that could belong to a number. -/
def EndsNumber (rest : List Char) : Prop :=
  ∀ c ∈ rest.head?, ¬ isDigit c = true ∧ c ≠ '.' ∧ c ≠ 'e' ∧ c ≠ 'E'

theorem EndsNumber.endsDigits {rest : List Char} (h : EndsNumber rest) : EndsDigits rest :=
  fun c hc => (h c hc).1

theorem EndsNumber.nil : EndsNumber [] := by
  intro c hc
  simp at hc

/-! ## Numerals are read -/

theorem ne_sign_of_isDigit {c : Char} (h : isDigit c = true) : c ≠ '+' ∧ c ≠ '-' := by
  constructor
  · rintro rfl
    exact absurd h (by decide)
  · rintro rfl
    exact absurd h (by decide)

theorem splitSign_digits {digits : List Char} (h : ∀ c ∈ digits, isDigit c = true) :
    splitSign digits = (false, digits) := by
  cases digits with
  | nil => rfl
  | cons c digits =>
    obtain ⟨hplus, hminus⟩ := ne_sign_of_isDigit (h c (by simp))
    simp [splitSign, hplus, hminus]

theorem ExponentPart.splitSign_eq (e : ExponentPart) :
    splitSign (e.sign ++ e.digits) = (e.sign == ['-'], e.digits) := by
  rcases e.sign_eq with hs | hs | hs <;> rw [hs]
  · exact splitSign_digits e.digits_isDigit
  · rfl
  · rfl

theorem ExponentPart.readExponent?_text (e : ExponentPart) :
    readExponent? e.text = some e.value := by
  have hmark : (e.mark == 'e' || e.mark == 'E') = true := by
    rcases e.mark_eq with h | h <;> rw [h] <;> rfl
  have hdigits : e.digits.all isDigit = true := List.all_eq_true.mpr e.digits_isDigit
  have hne : e.digits.isEmpty = false := by simpa using e.digits_ne_nil
  simp [text, readExponent?, e.splitSign_eq, hmark, hdigits, hne, value]

namespace Numeral

theorem whole_isDigit (n : Numeral) : ∀ c ∈ n.whole, isDigit c = true :=
  fun c hc => n.digits_isDigit c (List.mem_append_left _ hc)

theorem fraction_isDigit (n : Numeral) {digits : List Char} (h : n.fraction = some digits) :
    ∀ c ∈ digits, isDigit c = true :=
  fun c hc => n.digits_isDigit c (List.mem_append_right _ (by simpa [h] using hc))

theorem mantissaText_ne_nil (n : Numeral) : n.mantissaText ≠ [] := by
  have hne := n.digits_ne_nil
  rw [mantissaText, fractionText]
  cases hf : n.fraction <;> simp_all

theorem exponentText_endsDigits (n : Numeral) {rest : List Char} (hr : EndsDigits rest) :
    EndsDigits (n.exponentText ++ rest) := by
  rw [exponentText]
  cases n.exponent with
  | none => exact hr
  | some e =>
    intro c hc
    obtain rfl : e.mark = c := by simpa [ExponentPart.text] using hc
    exact not_isDigit_mark e.mark_eq

theorem fractionText_endsDigits (n : Numeral) {rest : List Char} (hr : EndsDigits rest) :
    EndsDigits (n.fractionText ++ (n.exponentText ++ rest)) := by
  rw [fractionText]
  cases n.fraction with
  | none => exact n.exponentText_endsDigits hr
  | some digits =>
    intro c hc
    obtain rfl : '.' = c := by simpa using hc
    decide

theorem readExponent?_exponentText (n : Numeral) :
    readExponent? n.exponentText = some ((n.exponent.map ExponentPart.value).getD 0) := by
  rw [exponentText]
  cases n.exponent with
  | none => rfl
  | some e => exact e.readExponent?_text

/-- A text that does not begin with a point has no fraction. -/
theorem exponentText_head (n : Numeral) {rest : List Char} (hr : EndsNumber rest) :
    ∀ after, n.exponentText ++ rest ≠ '.' :: after := by
  intro after h
  rw [exponentText] at h
  cases he : n.exponent with
  | none =>
    rw [he] at h
    exact (hr '.' (by simp_all)).2.1 rfl
  | some e =>
    rw [he] at h
    have hm : e.mark = '.' := by simpa [ExponentPart.text] using congrArg List.head? h
    have := e.mark_eq
    rw [hm] at this
    revert this
    decide

theorem readLiteral?_text (n : Numeral) : readLiteral? n.text = some n.literal := by
  have hends : EndsDigits [] := EndsNumber.nil.endsDigits
  have hw : n.text.span isDigit = (n.whole, n.fractionText ++ n.exponentText) := by
    have hf := n.fractionText_endsDigits hends
    rw [List.append_nil] at hf
    rw [List.span_eq_takeWhile_dropWhile, text, mantissaText, List.append_assoc,
      takeWhile_isDigit n.whole_isDigit hf, dropWhile_isDigit n.whole_isDigit hf]
  have he := n.exponentText_endsDigits hends
  rw [List.append_nil] at he
  have hne := n.digits_ne_nil
  rw [readLiteral?, hw, literal]
  cases hf : n.fraction with
  | none =>
    have hpoint := n.exponentText_head EndsNumber.nil
    rw [List.append_nil] at hpoint
    simp only [hf, Option.getD_none, List.append_nil] at hne
    simp [fractionText, hf, n.readExponent?_exponentText, hne]
  | some digits =>
    simp only [hf, Option.getD_some] at hne
    have hd := n.fraction_isDigit hf
    simp only [fractionText, hf, List.cons_append, List.span_eq_takeWhile_dropWhile,
      takeWhile_isDigit hd he, dropWhile_isDigit hd he, n.readExponent?_exponentText]
    have : (n.whole.isEmpty && digits.isEmpty) = false := by
      cases hwhole : n.whole <;> cases digits <;> simp_all
    simp [this]

/-! ## The number reader on numerals -/

theorem exponentText_plain (n : Numeral) :
    n.plain.exponentText = n.exponentText.map plainDigit := by
  cases he : n.exponent with
  | none => simp [exponentText, plain, he]
  | some e =>
    have hmark : plainDigit e.mark = e.mark :=
      plainDigit_of_not_isDigit (not_isDigit_mark e.mark_eq)
    have hsign : e.sign.map plainDigit = e.sign := by
      rcases e.sign_eq with h | h | h <;> rw [h] <;> decide
    simp [exponentText, plain, he, ExponentPart.text, ExponentPart.plain, hmark, hsign]

theorem plainDigits_text (n : Numeral) : plainDigits n.text = n.plain.text := by
  have hpoint : plainDigit '.' = '.' := by decide
  rw [plainDigits_eq_map, text, text, exponentText_plain, mantissaText, mantissaText]
  cases hf : n.fraction <;> simp [plain, fractionText, hf, hpoint]

/-- What a numeral may consist of besides digits. -/
theorem mem_text (n : Numeral) {c : Char} (h : c ∈ n.text) :
    isDigit c = true ∨ c ∈ ['.', 'e', 'E', '+', '-'] := by
  rw [text, mantissaText, List.mem_append, List.mem_append] at h
  rcases h with (h | h) | h
  · exact .inl (n.whole_isDigit c h)
  · rw [fractionText] at h
    cases hf : n.fraction with
    | none => simp [hf] at h
    | some digits =>
      rw [hf] at h
      rcases List.mem_cons.mp h with rfl | h
      · exact .inr (by simp)
      · exact .inl (n.fraction_isDigit hf c h)
  · rw [exponentText] at h
    cases he : n.exponent with
    | none => simp [he] at h
    | some e =>
      rw [he] at h
      rcases List.mem_cons.mp h with rfl | h
      · exact .inr (by rcases e.mark_eq with h | h <;> simp [h])
      · rcases List.mem_append.mp h with h | h
        · exact .inr (by rcases e.sign_eq with hs | hs | hs <;> simp_all)
        · exact .inl (e.digits_isDigit c h)

/-- A numeral has no white space to trim. -/
theorem not_isBlank_of_mem (n : Numeral) {c : Char} (h : c ∈ n.text) : isBlank c = false := by
  rcases n.mem_text h with h | h
  · exact not_isBlank_of_isDigit h
  · have hall : ['.', 'e', 'E', '+', '-'].all (!isBlank ·) = true := by decide
    simpa using List.all_eq_true.mp hall c h

end Numeral

theorem dropWhile_eq_self {p : Char → Bool} {cs : List Char} (h : ∀ c ∈ cs, p c = false) :
    cs.dropWhile p = cs := by
  cases cs with
  | nil => rfl
  | cons c cs => simp [h c (by simp)]

theorem trimBy_eq_self {p : Char → Bool} {cs : List Char} (h : ∀ c ∈ cs, p c = false) :
    trimBy p cs = cs := by
  rw [trimBy, dropWhile_eq_self h, dropWhile_eq_self (by simpa using h), List.reverse_reverse]

/-- A text without underscores has no separators. -/
theorem dropSeparators_eq_self {before : Bool} {cs : List Char} (h : '_' ∉ cs) :
    dropSeparators before cs = some cs := by
  induction cs generalizing before with
  | nil => rfl
  | cons c cs ih =>
    have hc : c ≠ '_' := by rintro rfl; simp at h
    have hcs : '_' ∉ cs := fun hmem => h (List.mem_cons_of_mem c hmem)
    simp [dropSeparators, hc, ih hcs]

namespace Numeral

theorem underscore_not_mem (n : Numeral) : '_' ∉ n.text := by
  intro h
  rcases n.mem_text h with h | h
  · exact absurd h (by decide)
  · simp at h

/-- A text without white space and underscores only has its digits replaced. -/
theorem plainForm?_eq {cs : List Char} (hblank : ∀ c ∈ cs, isBlank c = false)
    (h : '_' ∉ plainDigits cs) : plainForm? cs = some (plainDigits cs) := by
  have hpad : ∀ c ∈ cs, isPadding c = false := by
    intro c hc
    simp [isPadding, hblank c hc]
  rw [plainForm?, trimBy_eq_self hpad, dropSeparators_eq_self h]

theorem plainForm?_text (n : Numeral) : plainForm? n.text = some n.plain.text := by
  have hunderscore := n.plain.underscore_not_mem
  rw [← n.plainDigits_text] at hunderscore ⊢
  exact plainForm?_eq (fun c hc => n.not_isBlank_of_mem hc) hunderscore

theorem plainForm?_minus_text (n : Numeral) :
    plainForm? ('-' :: n.text) = some ('-' :: n.plain.text) := by
  have hplain : plainDigits ('-' :: n.text) = '-' :: n.plain.text := by
    rw [← n.plainDigits_text]
    rfl
  rw [← hplain]
  refine plainForm?_eq (fun c hc => ?_) ?_
  · rcases List.mem_cons.mp hc with rfl | hc
    · decide
    · exact n.not_isBlank_of_mem hc
  · rw [hplain]
    exact List.not_mem_cons_of_ne_of_not_mem (by decide) n.plain.underscore_not_mem

/-- A numeral does not begin with a sign. -/
theorem splitSign_text (n : Numeral) : splitSign n.text = (false, n.text) := by
  have hhead : ∀ c rest, n.text = c :: rest → c ≠ '+' ∧ c ≠ '-' := by
    intro c rest h
    have hc : isDigit c = true ∨ c = '.' := by
      rw [text, mantissaText] at h
      cases hw : n.whole with
      | cons d whole =>
        rw [hw] at h
        obtain ⟨rfl, -⟩ := List.cons.inj h
        exact .inl (n.whole_isDigit d (by simp [hw]))
      | nil =>
        have hne := n.digits_ne_nil
        rw [hw, List.nil_append, fractionText] at h
        cases hf : n.fraction with
        | none => simp [hw, hf] at hne
        | some digits =>
          rw [hf] at h
          exact .inr (List.cons.inj h).1.symm
    rcases hc with hc | rfl
    · exact ne_sign_of_isDigit hc
    · decide
  unfold splitSign
  split
  · exact absurd rfl (hhead _ _ ‹_›).2
  · exact absurd rfl (hhead _ _ ‹_›).1
  · rfl

/-- The reader of real numbers gives the double nearest to a numeral. -/
theorem readFloat?_text (n : Numeral) :
    readFloat? (String.ofList n.text) = some (n.plain.literal.toFloat false) := by
  rw [readFloat?, String.toList_ofList, n.plainForm?_text]
  simp only [n.plain.splitSign_text, n.plain.readLiteral?_text]

/-- With a minus in front it gives the double on the other side of zero. -/
theorem readFloat?_minus_text (n : Numeral) :
    readFloat? (String.ofList ('-' :: n.text)) = some (n.plain.literal.toFloat true) := by
  rw [readFloat?, String.toList_ofList, n.plainForm?_minus_text]
  simp only [splitSign, n.plain.readLiteral?_text]

end Numeral

end FormulaSearch.Decimal
