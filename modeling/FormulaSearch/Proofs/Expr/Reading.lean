import FormulaSearch.Proofs.Expr.Acceptance
import FormulaSearch.Proofs.Expr.Cutting

/-!
# Reading a text

Every number token of a text is a numeral and can be read, and a text that can be cut into tokens is read as
a formula exactly if the grammar derives its tokens.
-/

namespace FormulaSearch

open Text Decimal

/-! ## Number tokens can be read -/

theorem tokenize_numeral {text : String} {list : TokenList} (h : tokenize text = .ok list) :
    ∀ t ∈ list.tokens, t.kind = .number → ∃ n : Numeral, t.text = String.ofList n.text := by
  intro t ht hk
  have hlexeme := tokenize_isLexeme h t ht
  rw [hk] at hlexeme
  obtain ⟨n, hn⟩ := hlexeme
  exact ⟨n, by rw [hn, String.ofList_toList]⟩

/-- So it can be read as a number. -/
theorem tokenize_readable {text : String} {list : TokenList} (h : tokenize text = .ok list) :
    Grammar.Readable list.tokens := by
  intro t ht hk
  obtain ⟨n, hn⟩ := tokenize_numeral h t ht hk
  exact ⟨_, by rw [hn, n.readFloat?_text]⟩

/-! ## Texts and the grammar -/

theorem parse_eq_ok_iff {text : String} {list : TokenList} (h : tokenize text = .ok list)
    {e : Formula} : parse text = .ok e ↔ parseTokens list = .ok e := by
  rw [parse, h]
  dsimp only
  cases parseTokens list <;> simp

open Grammar in
/-- A text is read exactly if the grammar derives its tokens. The derivation is the only one, and the
formula read is the one that it denotes. -/
theorem parse_accepts_grammar {text : String} {list : TokenList} (h : tokenize text = .ok list) :
    ((∃ e, parse text = .ok e) ↔ ∃ d : Derivation .expr, d.tokens = list.tokens) ∧
      ∀ d : Derivation .expr, d.tokens = list.tokens →
        parse text = .ok d.meaning ∧
          ∀ d' : Derivation .expr, d'.tokens = list.tokens → d' = d := by
  have hread {e : Formula} := (parse_eq_ok_iff h).trans (parseTokens_eq_ok_iff (e := e)
    (tokenize_readable h))
  refine ⟨⟨?_, ?_⟩, ?_⟩
  · rintro ⟨e, he⟩
    obtain ⟨d, hd, -⟩ := hread.mp he
    exact ⟨d, hd⟩
  · rintro ⟨d, hd⟩
    exact ⟨d.meaning, hread.mpr ⟨d, hd, rfl⟩⟩
  · intro d hd
    exact ⟨hread.mpr ⟨d, hd, rfl⟩, fun d' hd' => Derivation.eq_of_tokens_eq (hd'.trans hd.symm)⟩

open Grammar in
/-- A leading minus is outside of a power, and the exponent takes a minus of its own. -/
theorem parse_minus_power : parse "-x^-x" =
    .ok (.unary .neg (.binary .pow .var (.unary .neg .var))) :=
  let minus (position : Nat) : Token := ⟨.sign, "-", position⟩
  let x (position : Nat) : Token := ⟨.name, "x", position⟩
  let hat : Token := ⟨.sign, "^", 2⟩
  let exponent : Derivation .unary :=
    .minus (minus 3) (.sign rfl rfl) (.plain (.base (.var (x 4) (.var rfl rfl))))
  let power : Derivation .power := .raised (.var (x 1) (.var rfl rfl)) hat (.sign rfl rfl) exponent
  let d : Derivation .expr :=
    .expr (.term (.minus (minus 0) (.sign rfl rfl) (.plain power)) .noFactor) .noTerm
  have hcut : tokenize "-x^-x" = .ok ⟨[minus 0, x 1, hat, minus 3, x 4], 5⟩ := by rfl
  ((parse_accepts_grammar hcut).2 d rfl).1

end FormulaSearch
