import FormulaSearch.Proofs.Decimal.Numeral
import FormulaSearch.Proofs.Failure

/-!
# Scanning tokens

A token is a numeral, a name or a sign. The scanner cuts the longest one off the front of a text: it finds
the longest numeral or the longest name whatever stands behind it, and it fails exactly if the text begins
with no token. What is cut off is cut off again wherever white space follows instead.
-/

namespace FormulaSearch

open Text Decimal

/-! ## Numerals are cut off whole -/

theorem scanExponent_of_head {cs : List Char} (h : ∀ c ∈ cs.head?, c ≠ 'e' ∧ c ≠ 'E') :
    scanExponent cs = [] := by
  unfold scanExponent
  split <;> simp_all

/-- Behind the mark and the sign of an exponent all digits are cut off. -/
theorem scanExponent_append (e : ExponentPart) (rest : List Char) :
    scanExponent (e.text ++ rest) =
      e.mark :: (e.sign ++ (e.digits ++ rest).takeWhile isDigit) := by
  have hmark : (e.mark == 'e' || e.mark == 'E') = true := by
    rcases e.mark_eq with h | h <;> rw [h] <;> rfl
  obtain ⟨d, ds, hd⟩ := List.exists_cons_of_ne_nil e.digits_ne_nil
  have hdigit : isDigit d = true := e.digits_isDigit d (by simp [hd])
  have hne : ((e.digits ++ rest).takeWhile isDigit != []) = true := by simp [hd, hdigit]
  rw [ExponentPart.text]
  rcases e.sign_eq with hs | hs | hs <;> rw [hs]
  · -- the first digit is no sign, so the last clause of the scanner applies
    obtain ⟨hplus, hminus⟩ := ne_sign_of_isDigit hdigit
    rw [hd] at hne ⊢
    simp only [List.nil_append, List.cons_append] at hne ⊢
    rw [scanExponent, hmark, hne]
    · rfl
    · intro _ h
      exact hplus (List.cons.inj h).1
    · intro _ h
      exact hminus (List.cons.inj h).1
  · simp only [List.cons_append, List.nil_append, scanExponent, hmark, hne, Bool.and_self, if_true]
  · simp only [List.cons_append, List.nil_append, scanExponent, hmark, hne, Bool.and_self, if_true]

theorem scanExponent_exponentText (n : Numeral) {rest : List Char} (hr : EndsNumber rest) :
    scanExponent (n.exponentText ++ rest) = n.exponentText := by
  rw [Numeral.exponentText]
  cases n.exponent with
  | none => exact scanExponent_of_head fun c hc => (hr c hc).2.2
  | some e =>
    dsimp only
    rw [scanExponent_append, takeWhile_isDigit e.digits_isDigit hr.endsDigits]
    rfl

theorem scanMantissa_mantissaText (n : Numeral) {rest : List Char} (hdigit : EndsDigits rest)
    (hpoint : ∀ after, rest ≠ '.' :: after) :
    scanMantissa (n.mantissaText ++ rest) = n.mantissaText := by
  have hfraction : EndsDigits (n.fractionText ++ rest) := by
    rw [Numeral.fractionText]
    cases n.fraction with
    | none => exact hdigit
    | some digits =>
      intro c hc
      obtain rfl : '.' = c := by simpa using hc
      decide
  have hw : (n.mantissaText ++ rest).takeWhile isDigit = n.whole := by
    rw [Numeral.mantissaText, List.append_assoc]
    exact takeWhile_isDigit n.whole_isDigit hfraction
  have hd : (n.mantissaText ++ rest).drop n.whole.length = n.fractionText ++ rest := by
    rw [Numeral.mantissaText, List.append_assoc, List.drop_left]
  have hne := n.digits_ne_nil
  simp only [scanMantissa, hw, hd]
  rw [Numeral.mantissaText]
  cases hf : n.fraction with
  | none => simp [Numeral.fractionText, hf]
  | some digits =>
    have hrun := takeWhile_isDigit (n.fraction_isDigit hf) hdigit
    have : (n.whole.isEmpty && digits.isEmpty) = false := by
      cases hwhole : n.whole <;> cases digits <;> simp_all
    simp only [Numeral.fractionText, hf, List.cons_append, hrun, this, Bool.false_eq_true, if_false]

/-- A numeral is cut off whole if the rest of the text cannot belong to a number. -/
theorem scanNumber_text (n : Numeral) {rest : List Char} (hr : EndsNumber rest) :
    scanNumber (n.text ++ rest) = n.text := by
  have hne : n.mantissaText.isEmpty = false := by simpa using n.mantissaText_ne_nil
  have hmantissa := scanMantissa_mantissaText n (n.exponentText_endsDigits hr.endsDigits)
    (n.exponentText_head hr)
  rw [Numeral.text, List.append_assoc]
  simp only [scanNumber, hmantissa, hne, List.drop_left, scanExponent_exponentText n hr,
    Bool.false_eq_true, if_false]

/-! ## What is cut off is a numeral -/

theorem takeWhile_all_isDigit (cs : List Char) : ∀ c ∈ cs.takeWhile isDigit, isDigit c = true :=
  List.all_eq_true.mp List.all_takeWhile

theorem exists_exponentPart {cs : List Char} (h : scanExponent cs ≠ []) :
    ∃ e : ExponentPart, e.text = scanExponent cs := by
  have build (c : Char) (sign rest : List Char) (hsign : sign = [] ∨ sign = ['+'] ∨ sign = ['-'])
      (hc : (c == 'e' || c == 'E') = true ∧ (rest.takeWhile isDigit != []) = true) :
      ∃ e : ExponentPart, e.text = c :: (sign ++ rest.takeWhile isDigit) :=
    ⟨⟨c, sign, rest.takeWhile isDigit, by simpa using hc.1, hsign,
      takeWhile_all_isDigit rest, by simpa using hc.2⟩, rfl⟩
  unfold scanExponent at h ⊢
  split at h
  · rename_i c rest
    split at h
    · rename_i hc
      rw [if_pos hc]
      exact build c ['+'] rest (by simp) (Bool.and_eq_true_iff.mp hc)
    · exact absurd rfl h
  · rename_i c rest
    split at h
    · rename_i hc
      rw [if_pos hc]
      exact build c ['-'] rest (by simp) (Bool.and_eq_true_iff.mp hc)
    · exact absurd rfl h
  · rename_i c rest _ _
    split at h
    · rename_i hc
      rw [if_pos hc]
      exact build c [] rest (by simp) (Bool.and_eq_true_iff.mp hc)
    · exact absurd rfl h
  · exact absurd rfl h

theorem exists_mantissa {cs : List Char} (h : scanMantissa cs ≠ []) :
    ∃ n : Numeral, n.mantissaText = scanMantissa cs := by
  unfold scanMantissa at h ⊢
  dsimp only at h ⊢
  have hwhole := takeWhile_all_isDigit cs
  generalize cs.takeWhile isDigit = whole at h hwhole ⊢
  split at h
  · rename_i rest _
    have hfraction := takeWhile_all_isDigit rest
    generalize rest.takeWhile isDigit = fraction at h hfraction ⊢
    split at h
    · exact absurd rfl h
    · rename_i hne
      rw [if_neg hne]
      refine ⟨⟨whole, some fraction, none, ?_, ?_⟩, rfl⟩
      · intro c hc
        rcases List.mem_append.mp hc with hc | hc
        · exact hwhole c hc
        · exact hfraction c hc
      · intro hnil
        simp_all
  · exact ⟨⟨whole, none, none, by simpa using hwhole, by simpa using h⟩, by
      simp [Numeral.mantissaText, Numeral.fractionText]⟩

/-- What is cut off as a number is a numeral. -/
theorem exists_numeral {cs : List Char} (h : scanNumber cs ≠ []) :
    ∃ n : Numeral, n.text = scanNumber cs := by
  unfold scanNumber at h ⊢
  dsimp only at h ⊢
  split at h
  · exact absurd rfl h
  · rename_i hne
    rw [if_neg hne]
    obtain ⟨m, hm⟩ := exists_mantissa (by simpa using hne)
    generalize hrest : cs.drop (scanMantissa cs).length = rest
    by_cases he : scanExponent rest = []
    · exact ⟨{ m with exponent := none }, by
        rw [he, ← hm]
        rfl⟩
    · obtain ⟨e, he⟩ := exists_exponentPart he
      exact ⟨{ m with exponent := some e }, by
        rw [← he, ← hm]
        rfl⟩

/-! ## Numbers, names and signs -/

theorem scanToken?_numeral (n : Numeral) {rest : List Char} (hr : EndsNumber rest) :
    scanToken? (n.text ++ rest) = some (.number, n.text) := by
  have hne : n.text ≠ [] := by
    rw [Numeral.text]
    exact List.append_ne_nil_of_left_ne_nil n.mantissaText_ne_nil _
  simp [scanToken?, scanNumber_text n hr, hne]

/-- A text that begins neither with a digit nor with a point has no number in front. -/
theorem scanNumber_of_head {c : Char} (hdigit : ¬ isDigit c = true) (hpoint : c ≠ '.')
    (rest : List Char) : scanNumber (c :: rest) = [] := by
  have hmantissa : scanMantissa (c :: rest) = [] := by
    simp [scanMantissa, hdigit, hpoint]
  rw [scanNumber, hmantissa]
  rfl

theorem toNat_of_isAlpha {c : Char} (h : c.isAlpha = true) : 65 ≤ c.toNat ∧ c.toNat ≤ 122 := by
  change (decide (65 ≤ c.val ∧ c.val ≤ 90) ||
    decide (97 ≤ c.val) && decide (c.val ≤ 122)) = true at h
  simp only [Bool.or_eq_true, Bool.and_eq_true, decide_eq_true_eq, UInt32.le_iff_toNat_le] at h
  change (65 ≤ c.toNat ∧ c.toNat ≤ 90) ∨ (97 ≤ c.toNat ∧ c.toNat ≤ 122) at h
  omega

/-- No letter is white space. -/
theorem not_isBlank_of_isAlpha {c : Char} (h : c.isAlpha = true) : isBlank c = false := by
  have := toNat_of_isAlpha h
  simp [isBlank]
  omega

theorem not_isDigit_of_isAlpha {c : Char} (h : c.isAlpha = true) : ¬ isDigit c = true := by
  have hrange := toNat_of_isAlpha h
  intro hdigit
  obtain ⟨v, hv⟩ := isDigit_iff.mp hdigit
  rcases digitValue?_cases hv with ⟨-, h9, -⟩ | ⟨first, hfirst, hlt, hc⟩
  · have h9 : c.toNat ≤ 57 := h9
    omega
  · have hall : ∀ first ∈ digitZeros, first = 48 ∨ 122 < first := by decide
    have := hall first hfirst
    omega

/-- A letter begins a name, which goes on as long as it can. -/
theorem scanToken?_name {c : Char} {name rest : List Char} (hc : c.isAlpha = true)
    (hname : ∀ d ∈ name, continuesName d = true) (hr : ∀ d ∈ rest.head?, continuesName d = false) :
    scanToken? (c :: (name ++ rest)) = some (.name, c :: name) := by
  have hpoint : c ≠ '.' := by
    rintro rfl
    exact absurd hc (by decide)
  have hrun : (name ++ rest).takeWhile continuesName = name := by
    rw [List.takeWhile_append_of_pos hname]
    cases rest with
    | nil => simp
    | cons d rest => simp [hr d (by simp)]
  simp [scanToken?, scanNumber_of_head (not_isDigit_of_isAlpha hc) hpoint, scanName, startsName, hc,
    hrun]

theorem isSign_cases {c : Char} (h : isSign c = true) :
    c = '+' ∨ c = '-' ∨ c = '*' ∨ c = '/' ∨ c = '^' ∨ c = '(' ∨ c = ')' := by
  simpa [isSign] using h

theorem scanToken?_sign {c : Char} (h : isSign c = true) (rest : List Char) :
    scanToken? (c :: rest) = some (.sign, [c]) := by
  rcases isSign_cases h with rfl | rfl | rfl | rfl | rfl | rfl | rfl <;> rfl

/-! ## The longest token -/

/-- What the tokens of a kind look like: a numeral; a letter or an underscore, and any letters, digits and
underscores behind it; a sign. -/
def IsLexeme : TokenKind → List Char → Prop
  | .number, cs => ∃ n : Numeral, n.text = cs
  | .name, cs => ∃ first rest, cs = first :: rest ∧ startsName first = true ∧
      ∀ c ∈ rest, continuesName c = true
  | .sign, cs => ∃ c, cs = [c] ∧ isSign c = true

/-- The front of the text is a token of the kind, and there is no longer one at its front. -/
structure IsLongest (kind : TokenKind) (lexeme cs : List Char) : Prop where
  isLexeme : IsLexeme kind lexeme
  front : lexeme <+: cs
  longest : ∀ other, IsLexeme kind other → other <+: cs → other.length ≤ lexeme.length

/-- The scanner of each kind. -/
def scanKind : TokenKind → List Char → List Char
  | .number => scanNumber
  | .name => scanName
  | .sign => scanSign

theorem not_isBlank_of_startsName {c : Char} (h : startsName c = true) : isBlank c = false := by
  simp only [startsName, Bool.or_eq_true, beq_iff_eq] at h
  rcases h with h | rfl
  · exact not_isBlank_of_isAlpha h
  · decide

theorem not_isDigit_of_startsName {c : Char} (h : startsName c = true) : ¬ isDigit c = true := by
  simp only [startsName, Bool.or_eq_true, beq_iff_eq] at h
  rcases h with h | rfl
  · exact not_isDigit_of_isAlpha h
  · decide

theorem startsName_or_isDigit_of_continuesName {c : Char} (h : continuesName c = true) :
    startsName c = true ∨ isDigit c = true := by
  simp only [continuesName, Char.isAlphanum, Bool.or_eq_true, beq_iff_eq] at h
  simp only [startsName, Bool.or_eq_true, beq_iff_eq]
  rcases h with (h | h) | h
  · exact .inl (.inl h)
  · exact .inr (isDigit_of_isDigit h)
  · exact .inl (.inr h)

theorem IsLexeme.ne_nil {kind : TokenKind} {lexeme : List Char} (h : IsLexeme kind lexeme) :
    lexeme ≠ [] := by
  cases kind with
  | number =>
    obtain ⟨n, rfl⟩ := h
    exact List.append_ne_nil_of_left_ne_nil n.mantissaText_ne_nil _
  | name =>
    obtain ⟨first, rest, rfl, -⟩ := h
    simp
  | sign =>
    obtain ⟨c, rfl, -⟩ := h
    simp

/-- There is no white space in a token. -/
theorem IsLexeme.not_isBlank {kind : TokenKind} {lexeme : List Char} (h : IsLexeme kind lexeme) :
    ∀ c ∈ lexeme, isBlank c = false := by
  intro c hc
  cases kind with
  | number =>
    obtain ⟨n, rfl⟩ := h
    exact n.not_isBlank_of_mem hc
  | name =>
    obtain ⟨first, rest, rfl, hfirst, hrest⟩ := h
    rcases List.mem_cons.mp hc with rfl | hc
    · exact not_isBlank_of_startsName hfirst
    · rcases startsName_or_isDigit_of_continuesName (hrest c hc) with h | h
      · exact not_isBlank_of_startsName h
      · exact not_isBlank_of_isDigit h
  | sign =>
    obtain ⟨d, rfl, hd⟩ := h
    obtain rfl := List.mem_singleton.mp hc
    rcases isSign_cases hd with rfl | rfl | rfl | rfl | rfl | rfl | rfl <;> decide

/-! ### What is cut off stands at the front -/

theorem scanExponent_front (cs : List Char) : scanExponent cs <+: cs := by
  unfold scanExponent
  split
  · split
    · simp [List.takeWhile_prefix]
    · simp
  · split
    · simp [List.takeWhile_prefix]
    · simp
  · split
    · simp [List.takeWhile_prefix]
    · simp
  · simp

theorem scanMantissa_front (cs : List Char) : scanMantissa cs <+: cs := by
  obtain ⟨rest, hrest⟩ := List.takeWhile_prefix (l := cs) isDigit
  unfold scanMantissa
  dsimp only
  generalize cs.takeWhile isDigit = whole at hrest ⊢
  subst hrest
  rw [List.drop_left]
  split
  · split
    · simp
    · simp [List.takeWhile_prefix]
  · simp

theorem scanNumber_front (cs : List Char) : scanNumber cs <+: cs := by
  obtain ⟨rest, hrest⟩ := scanMantissa_front cs
  unfold scanNumber
  dsimp only
  split
  · simp
  · generalize scanMantissa cs = mantissa at hrest ⊢
    subst hrest
    rw [List.drop_left]
    simp [scanExponent_front]

theorem scanKind_front (kind : TokenKind) (cs : List Char) : scanKind kind cs <+: cs := by
  cases kind with
  | number => exact scanNumber_front cs
  | name =>
    cases cs with
    | nil => simp [scanKind, scanName]
    | cons c cs =>
      simp only [scanKind, scanName]
      split
      · simp [List.takeWhile_prefix]
      · simp
  | sign =>
    cases cs with
    | nil => simp [scanKind, scanSign]
    | cons c cs =>
      simp only [scanKind, scanSign]
      split <;> simp

theorem isLexeme_scanKind {kind : TokenKind} {cs : List Char} (h : scanKind kind cs ≠ []) :
    IsLexeme kind (scanKind kind cs) := by
  cases kind with
  | number => exact exists_numeral h
  | name =>
    cases cs with
    | nil => simp [scanKind, scanName] at h
    | cons c cs =>
      simp only [scanKind, scanName] at h ⊢
      split at h
      · rename_i hc
        rw [if_pos hc]
        exact ⟨c, _, rfl, hc, List.all_eq_true.mp List.all_takeWhile⟩
      · simp at h
  | sign =>
    cases cs with
    | nil => simp [scanKind, scanSign] at h
    | cons c cs =>
      simp only [scanKind, scanSign] at h ⊢
      split at h
      · rename_i hc
        rw [if_pos hc]
        exact ⟨c, rfl, hc⟩
      · simp at h

/-! ### No longer token stands there -/

theorem length_le_scanMantissa (n : Numeral) (rest : List Char) :
    n.mantissaText.length ≤ (scanMantissa (n.mantissaText ++ rest)).length := by
  have hne := n.digits_ne_nil
  rw [Numeral.mantissaText, Numeral.fractionText]
  cases hf : n.fraction with
  | none =>
    have hwhole : n.whole ≠ [] := by simpa [hf] using hne
    unfold scanMantissa
    dsimp only
    rw [List.append_nil, List.takeWhile_append_of_pos n.whole_isDigit]
    split
    · rw [if_neg (by simp [hwhole])]
      simp only [List.length_append]
      omega
    · simp
  | some digits =>
    have hpoint : EndsDigits ('.' :: (digits ++ rest)) := by
      intro c hc
      obtain rfl : '.' = c := by simpa using hc
      decide
    have hdigits : ¬ (n.whole = [] ∧ digits = []) := by simpa [hf] using hne
    unfold scanMantissa
    dsimp only
    rw [List.append_assoc, List.cons_append, takeWhile_isDigit n.whole_isDigit hpoint,
      List.drop_left]
    simp only
    rw [List.takeWhile_append_of_pos (n.fraction_isDigit hf), if_neg (by simp_all)]
    simp only [List.length_append, List.length_cons]
    omega

theorem length_le_scanNumber (n : Numeral) (rest : List Char) :
    n.text.length ≤ (scanNumber (n.text ++ rest)).length := by
  have hmantissa (more : List Char) : scanMantissa (n.mantissaText ++ more) ≠ [] := by
    have hle := length_le_scanMantissa n more
    have hpos := List.length_pos_iff.mpr n.mantissaText_ne_nil
    exact List.ne_nil_of_length_pos (by omega)
  rw [Numeral.text, Numeral.exponentText]
  cases he : n.exponent with
  | none =>
    have hle := length_le_scanMantissa n rest
    have hne := hmantissa rest
    simp only [scanNumber, List.append_nil]
    rw [if_neg (by simpa using hne)]
    simp only [List.length_append]
    omega
  | some e =>
    -- the mark of the exponent ends the mantissa, whatever stands behind the exponent
    have hmark : EndsDigits (e.text ++ rest) := by
      intro c hc
      obtain rfl : e.mark = c := by simpa [ExponentPart.text] using hc
      exact not_isDigit_mark e.mark_eq
    have hpoint : ∀ after, e.text ++ rest ≠ '.' :: after := by
      intro after h
      have hm : e.mark = '.' := by simpa [ExponentPart.text] using congrArg List.head? h
      rcases e.mark_eq with h | h <;> rw [h] at hm <;> exact absurd hm (by decide)
    have hexponent := scanExponent_append e rest
    rw [List.takeWhile_append_of_pos e.digits_isDigit] at hexponent
    have hmantissa := scanMantissa_mantissaText n hmark hpoint
    have hne := n.mantissaText_ne_nil
    rw [List.append_assoc]
    simp only [scanNumber, hmantissa, List.drop_left, hexponent]
    rw [if_neg (by simpa using hne)]
    simp only [ExponentPart.text, List.length_append, List.length_cons]
    omega

theorem length_le_scanKind {kind : TokenKind} {lexeme cs : List Char} (h : IsLexeme kind lexeme)
    (hfront : lexeme <+: cs) : lexeme.length ≤ (scanKind kind cs).length := by
  obtain ⟨rest, rfl⟩ := hfront
  cases kind with
  | number =>
    obtain ⟨n, rfl⟩ := h
    exact length_le_scanNumber n rest
  | name =>
    obtain ⟨first, name, rfl, hfirst, hname⟩ := h
    simp [scanKind, scanName, hfirst, List.takeWhile_append_of_pos hname]
  | sign =>
    obtain ⟨c, rfl, hc⟩ := h
    simp [scanKind, scanSign, hc]

/-! ### The scanner of tokens -/

/-- A text begins with a longest token of a kind exactly if the scanner of the kind cuts it off. -/
theorem isLongest_iff {kind : TokenKind} {lexeme cs : List Char} :
    IsLongest kind lexeme cs ↔ lexeme ≠ [] ∧ scanKind kind cs = lexeme := by
  constructor
  · intro h
    have hle := length_le_scanKind h.isLexeme h.front
    have hpos := List.length_pos_iff.mpr h.isLexeme.ne_nil
    have hscan : IsLexeme kind (scanKind kind cs) :=
      isLexeme_scanKind (List.ne_nil_of_length_pos (by omega))
    have hge := h.longest _ hscan (scanKind_front kind cs)
    refine ⟨h.isLexeme.ne_nil, ?_⟩
    exact (List.prefix_of_prefix_length_le (scanKind_front kind cs) h.front hge).eq_of_length
      (by omega)
  · rintro ⟨hne, rfl⟩
    exact ⟨isLexeme_scanKind hne, scanKind_front kind cs, fun _ => length_le_scanKind⟩

/-- The characters that tokens of a kind begin with. -/
def startsKind : TokenKind → Char → Bool
  | .number, c => isDigit c || c == '.'
  | .name, c => startsName c
  | .sign, c => isSign c

theorem startsKind_unique {kind kind' : TokenKind} {c : Char} (h : startsKind kind c = true)
    (h' : startsKind kind' c = true) : kind = kind' := by
  have hname (hc : startsName c = true) : ¬ (isDigit c || c == '.') = true := by
    intro hnumber
    rcases Bool.or_eq_true_iff.mp hnumber with hdigit | hpoint
    · exact not_isDigit_of_startsName hc hdigit
    · rw [eq_of_beq hpoint] at hc
      exact absurd hc (by decide)
  have hsign (hc : isSign c = true) : (isDigit c || c == '.') = false ∧ startsName c = false := by
    rcases isSign_cases hc with rfl | rfl | rfl | rfl | rfl | rfl | rfl <;> decide
  cases kind <;> cases kind' <;> simp only [startsKind] at h h'
  case number.number | name.name | sign.sign => rfl
  case number.name => exact absurd h (hname h')
  case number.sign => simp [hsign h'] at h
  case name.number => exact absurd h' (hname h)
  case name.sign => simp [hsign h'] at h
  case sign.number => simp [hsign h] at h'
  case sign.name => simp [hsign h] at h'

theorem IsLexeme.exists_head {kind : TokenKind} {lexeme : List Char} (h : IsLexeme kind lexeme) :
    ∃ c rest, lexeme = c :: rest ∧ startsKind kind c = true := by
  cases kind with
  | number =>
    obtain ⟨n, rfl⟩ := h
    have hne := n.digits_ne_nil
    have hdigit := n.whole_isDigit
    rw [Numeral.text, Numeral.mantissaText, Numeral.fractionText]
    cases hwhole : n.whole with
    | cons c whole => exact ⟨c, _, rfl, by simp [startsKind, hdigit c (by simp [hwhole])]⟩
    | nil =>
      cases hf : n.fraction with
      | none => simp [hwhole, hf] at hne
      | some digits => exact ⟨'.', _, rfl, by simp [startsKind]⟩
  | name =>
    obtain ⟨first, rest, rfl, hfirst, -⟩ := h
    exact ⟨first, rest, rfl, hfirst⟩
  | sign =>
    obtain ⟨c, rfl, hc⟩ := h
    exact ⟨c, [], rfl, hc⟩

/-- Tokens at the front of one text are of one kind. -/
theorem IsLexeme.kind_eq {kind kind' : TokenKind} {lexeme lexeme' cs : List Char}
    (h : IsLexeme kind lexeme) (h' : IsLexeme kind' lexeme') (hfront : lexeme <+: cs)
    (hfront' : lexeme' <+: cs) : kind = kind' := by
  obtain ⟨c, rest, rfl, hc⟩ := h.exists_head
  obtain ⟨c', rest', rfl, hc'⟩ := h'.exists_head
  obtain ⟨more, rfl⟩ := hfront
  obtain rfl : c' = c := by simpa using (List.cons_prefix_cons.mp hfront').1
  exact startsKind_unique hc hc'

theorem scanKind_eq_nil {kind kind' : TokenKind} {cs : List Char} (h : scanKind kind cs ≠ [])
    (hkind : kind' ≠ kind) : scanKind kind' cs = [] := by
  by_contra h'
  exact hkind ((isLexeme_scanKind h').kind_eq (isLexeme_scanKind h) (scanKind_front kind' cs)
    (scanKind_front kind cs))

/-- The scanner cuts off the longest token, of whatever kind it is. -/
theorem scanToken?_eq_some_iff {kind : TokenKind} {lexeme cs : List Char} :
    scanToken? cs = some (kind, lexeme) ↔ IsLongest kind lexeme cs := by
  rw [isLongest_iff]
  constructor
  · intro h
    simp only [scanToken?] at h
    split at h
    · rename_i hnumber
      cases h
      exact ⟨by simpa using hnumber, rfl⟩
    · split at h
      · rename_i hname
        cases h
        exact ⟨by simpa using hname, rfl⟩
      · split at h
        · rename_i hsign
          cases h
          exact ⟨by simpa using hsign, rfl⟩
        · cases h
  · rintro ⟨hne, rfl⟩
    -- the scanners that are tried first find nothing
    have hother (kind' : TokenKind) (hkind : kind' ≠ kind) : scanKind kind' cs = [] :=
      scanKind_eq_nil hne hkind
    cases kind with
    | number => simp_all [scanToken?, scanKind]
    | name =>
      have hnumber := hother .number (by decide)
      simp_all [scanToken?, scanKind]
    | sign =>
      have hnumber := hother .number (by decide)
      have hname := hother .name (by decide)
      simp_all [scanToken?, scanKind]

/-- The scanner fails exactly if no token stands at the front. -/
theorem scanToken?_eq_none_iff {cs : List Char} :
    scanToken? cs = none ↔ ∀ kind lexeme, IsLexeme kind lexeme → ¬ lexeme <+: cs := by
  constructor
  · intro h kind lexeme hlexeme hfront
    have hle := length_le_scanKind hlexeme hfront
    have hpos := List.length_pos_iff.mpr hlexeme.ne_nil
    have : IsLongest kind (scanKind kind cs) cs :=
      isLongest_iff.mpr ⟨List.ne_nil_of_length_pos (by omega), rfl⟩
    rw [scanToken?_eq_some_iff.mpr this] at h
    cases h
  · intro h
    rw [Option.eq_none_iff_forall_ne_some]
    rintro ⟨kind, lexeme⟩ hscan
    have hlongest := scanToken?_eq_some_iff.mp hscan
    exact h kind lexeme hlongest.isLexeme hlongest.front

/-- A token is cut off whatever stands behind white space that follows it, be it at once or after other
tokens. -/
theorem IsLongest.respace {kind : TokenKind} {lexeme cs more rest : List Char}
    (h : IsLongest kind lexeme (cs ++ more)) (hcs : lexeme <+: cs)
    (hrest : ∀ c ∈ rest.head?, isBlank c = true) : IsLongest kind lexeme (cs ++ rest) where
  isLexeme := h.isLexeme
  front := hcs.trans (List.prefix_append cs rest)
  longest other hother hfront := by
    refine h.longest other hother (List.IsPrefix.trans ?_ (List.prefix_append cs more))
    by_cases hlength : other.length ≤ cs.length
    · exact List.prefix_of_prefix_length_le hfront (List.prefix_append cs rest) hlength
    · -- a token that went on would have the white space in it
      obtain ⟨tail, rfl⟩ : cs <+: other :=
        List.prefix_of_prefix_length_le (List.prefix_append cs rest) hfront (by omega)
      rw [List.prefix_append_right_inj] at hfront
      cases tail with
      | nil => simp at hlength
      | cons c tail =>
        obtain ⟨after, rfl⟩ := hfront
        have hblank := hrest c (by simp)
        simp [hother.not_isBlank c (by simp)] at hblank

/-! ## Cutting single tokens -/

theorem tokensFrom_skip (position : ℕ) (cs rest : List Char) :
    tokensFrom position cs.length (cs ++ rest) = tokensFrom (position + cs.length) 0 rest := by
  induction cs generalizing position with
  | nil => rfl
  | cons c cs ih =>
    rw [List.length_cons, List.cons_append, tokensFrom, ih]
    congr 1
    omega

theorem tokensFrom_blank {c : Char} (h : isBlank c = true) (position : ℕ) (rest : List Char) :
    tokensFrom position 0 (c :: rest) = tokensFrom (position + 1) 0 rest := by
  rw [tokensFrom, if_pos h]

/-- A token at the front is cut off. -/
theorem tokensFrom_token {kind : TokenKind} {c : Char} {lexeme rest : List Char}
    (hblank : isBlank c = false)
    (hscan : scanToken? (c :: (lexeme ++ rest)) = some (kind, c :: lexeme)) (position : ℕ) :
    tokensFrom position 0 (c :: (lexeme ++ rest)) =
      (tokensFrom (position + (lexeme.length + 1)) 0 rest).map
        (⟨kind, String.ofList (c :: lexeme), position⟩ :: ·) := by
  rw [tokensFrom, if_neg (by simp [hblank]), hscan]
  dsimp only
  rw [List.length_cons, Nat.add_sub_cancel, tokensFrom_skip]
  congr 2
  omega

end FormulaSearch
