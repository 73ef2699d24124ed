import FormulaSearch.Proofs.Expr.Fault
import FormulaSearch.Proofs.Expr.Reading

/-!
# Where a text is not read

A text that is not read has one error. If it cannot be cut, the error is where the cut is stuck. If it can,
the error is at the first token with which the tokens no longer begin the tokens of any text that is read;
the end of the text counts as a token. Tokens are compared by their kinds and texts, since the texts that go
on have them at places of their own.
-/

namespace FormulaSearch

open Text Grammar

/-! ## Sequences of tokens -/

/-- A token by its kind and its text; none is the end of a text. -/
abbrev Symbol := Option (TokenKind × String)

def Token.symbol (t : Token) : Symbol := some t.lexeme

/-- The tokens of a text and its end. -/
def TokenList.symbols (list : TokenList) : List Symbol := list.tokens.map Token.symbol ++ [none]

/-- The positions of the tokens and of the end. -/
def TokenList.positions (list : TokenList) : List Nat := list.tokens.map Token.position ++ [list.stop]

/-- The sequence of a text that is read. -/
def Accepted (symbols : List Symbol) : Prop :=
  ∃ text list e, tokenize text = .ok list ∧ parse text = .ok e ∧ list.symbols = symbols

/-- The beginning of the sequence of a text that is read. -/
def Viable (symbols : List Symbol) : Prop := ∃ more, Accepted (symbols ++ more)

/-- The first symbol that no accepted sequence goes on with. -/
structure Offends (symbols : List Symbol) (k : Nat) : Prop where
  before : Viable (symbols.take k)
  through : ¬ Viable (symbols.take (k + 1))

theorem Viable.take {symbols : List Symbol} (h : Viable symbols) (k : Nat) :
    Viable (symbols.take k) := by
  obtain ⟨more, hmore⟩ := h
  refine ⟨symbols.drop k ++ more, ?_⟩
  rwa [← List.append_assoc, List.take_append_drop]

/-- Behind the first such symbol no beginning is viable. -/
theorem Offends.le {symbols : List Symbol} {j k : Nat} (hj : Offends symbols j)
    (hk : Offends symbols k) : k ≤ j := by
  by_contra hlt
  have := hk.before.take (j + 1)
  rw [List.take_take, Nat.min_eq_left (by omega)] at this
  exact hj.through this

theorem Offends.unique {symbols : List Symbol} {j k : Nat} (hj : Offends symbols j)
    (hk : Offends symbols k) : j = k :=
  Nat.le_antisymm (hk.le hj) (hj.le hk)

theorem map_symbol (ts : List Token) : ts.map Token.symbol = (ts.map Token.lexeme).map some := by
  rw [List.map_map]
  rfl

theorem map_symbol_eq_iff {ts us : List Token} :
    ts.map Token.symbol = us.map Token.symbol ↔ ts.map Token.lexeme = us.map Token.lexeme := by
  rw [map_symbol, map_symbol, List.map_inj_right (fun _ _ h => Option.some.inj h)]

/-! ## Accepted sequences are derived -/

theorem parse_eq_ok_iff_derivation {text : String} {list : TokenList}
    (h : tokenize text = .ok list) {e : Formula} :
    parse text = .ok e ↔ ∃ d : Derivation .expr, d.tokens = list.tokens ∧ d.meaning = e :=
  (parse_eq_ok_iff h).trans (parseTokens_eq_ok_iff (tokenize_readable h))

/-- Lexemes that the grammar derives are the tokens of a text, which is read. -/
theorem accepted_of_derivation (d : Derivation .expr)
    (h : ∀ t ∈ d.tokens, IsLexeme t.kind t.text.toList) :
    Accepted (d.tokens.map Token.symbol ++ [none]) := by
  obtain ⟨us, hcuts, hus⟩ := exists_cuts_spaced h 0
  obtain ⟨d', rfl, -⟩ := d.exists_alike hus
  have htokenize : tokenize (String.ofList (spaced d.tokens)) =
      .ok ⟨d'.tokens, (String.ofList (spaced d.tokens)).length⟩ :=
    tokenize_eq_ok_iff.mpr ⟨by simpa using hcuts, rfl⟩
  refine ⟨_, _, d'.meaning, htokenize, ?_, ?_⟩
  · exact (parse_eq_ok_iff_derivation htokenize).mpr ⟨d', rfl, rfl⟩
  · rw [TokenList.symbols, map_symbol_eq_iff.mpr hus]

/-- The end stands behind all tokens, so tokens at the front of a sequence are the first ones of its
text. -/
theorem exists_split_of_symbols {us ts : List Token} {more : List Symbol}
    (h : us.map Token.symbol ++ [none] = ts.map Token.symbol ++ more) :
    ∃ vs ws, us = vs ++ ws ∧ vs.map Token.lexeme = ts.map Token.lexeme ∧
      more = ws.map Token.symbol ++ [none] := by
  induction ts generalizing us with
  | nil => exact ⟨[], us, rfl, rfl, by simpa using h.symm⟩
  | cons t ts ih =>
    cases us with
    | nil => simp [Token.symbol] at h
    | cons u us =>
      simp only [List.map_cons, List.cons_append, List.cons.injEq, Token.symbol,
        Option.some.injEq] at h
      obtain ⟨vs, ws, rfl, hvs, hmore⟩ := ih h.2
      exact ⟨u :: vs, ws, rfl, by simp [h.1, hvs], hmore⟩

/-- What stands at the front of an accepted sequence is derived together with what stands behind it. -/
theorem exists_derivation_of_accepted {ts : List Token} {more : List Symbol}
    (h : Accepted (ts.map Token.symbol ++ more)) :
    ∃ us, ∃ d : Derivation .expr, d.tokens = ts ++ us ∧ more = us.map Token.symbol ++ [none] := by
  obtain ⟨text, list, e, htokenize, hparse, hsymbols⟩ := h
  obtain ⟨d, hd, -⟩ := (parse_eq_ok_iff_derivation htokenize).mp hparse
  obtain ⟨vs, us, hsplit, hvs, rfl⟩ := exists_split_of_symbols hsymbols
  obtain ⟨d', hd', -⟩ : ∃ d' : Derivation .expr, d'.tokens = ts ++ us ∧ d'.meaning = d.meaning :=
    d.exists_alike (by rw [hd, hsplit, List.map_append, List.map_append, hvs])
  exact ⟨us, d', hd', rfl⟩

/-! ## The place of the error -/

theorem isLexeme_fillers : ∀ t ∈ fillers, IsLexeme t.kind t.text.toList := by
  intro t ht
  simp only [fillers, List.mem_cons, List.not_mem_nil, or_false] at ht
  rcases ht with rfl | rfl | rfl
  · exact ⟨'(', rfl, by decide⟩
  · exact ⟨'x', [], rfl, by decide, by simp⟩
  · exact ⟨')', rfl, by decide⟩

/-- A text that is cut and not read: the error is at the first symbol that no accepted sequence goes on
with. -/
theorem exists_offends {text : String} {list : TokenList} {error : ParseError}
    (htokenize : tokenize text = .ok list) (hparse : parse text = .error error) :
    error.text = text ∧
      ∃ k, list.positions[k]? = some error.position ∧ Offends list.symbols k := by
  rw [parse, htokenize] at hparse
  dsimp only at hparse
  split at hparse
  · rename_i f hf
    cases hparse
    obtain ⟨before, rest, hsplit, hposition, ⟨more, d, hmore, hd⟩, hopeless⟩ :=
      parseTokens_refuses (tokenize_readable htokenize) hf
    have hlexeme := tokenize_isLexeme htokenize
    rw [← hsplit] at hlexeme
    refine ⟨rfl, before.length, ?_, ?_, ?_⟩
    · rw [hposition, TokenList.positions, ← hsplit]
      cases rest <;> simp [positionOf]
    · refine ⟨more.map Token.symbol ++ [none], ?_⟩
      have htake : list.symbols.take before.length = before.map Token.symbol := by
        simp [TokenList.symbols, ← hsplit]
      rw [htake, ← List.append_assoc, ← List.map_append, ← hd]
      refine accepted_of_derivation d fun t ht => ?_
      rw [hd] at ht
      rcases List.mem_append.mp ht with ht | ht
      · exact hlexeme t (List.mem_append_left rest ht)
      · exact isLexeme_fillers t (hmore ht)
    · rintro ⟨more, haccepted⟩
      cases rest with
      | nil =>
        have htake : list.symbols.take (before.length + 1) = before.map Token.symbol ++ [none] := by
          simp [TokenList.symbols, ← hsplit]
        rw [htake, List.append_assoc] at haccepted
        obtain ⟨us, d, hd, hus⟩ := exists_derivation_of_accepted haccepted
        cases us with
        | nil => exact hopeless [] rfl d hd
        | cons u us => simp [Token.symbol] at hus
      | cons t rest =>
        have htake : list.symbols.take (before.length + 1) =
            (before ++ [t]).map Token.symbol := by
          simp [TokenList.symbols, ← hsplit, List.take_append]
        rw [htake] at haccepted
        obtain ⟨us, d, hd, -⟩ := exists_derivation_of_accepted haccepted
        exact hopeless (t :: us) rfl d (by simpa using hd)
  · cases hparse

/-- A text that cannot be cut: the error is behind complete tokens and white space, where neither begins. -/
theorem tokenize_stuck {text : String} {error : ParseError} (h : tokenize text = .error error) :
    error.text = text ∧ (∃ ts, Covers text.toList 0 ts error.position) ∧
      Stuck (text.toList.drop error.position) := by
  obtain ⟨-, htext, ts, rest, hcuts, hstuck, hposition⟩ := exists_cuts_of_tokenize h
  rw [← String.length_toList] at hposition
  obtain ⟨before, hbefore⟩ := hcuts.isSuffix
  have hrest : text.toList.drop error.position = rest := by
    have hlength := congrArg List.length hbefore
    rw [List.length_append] at hlength
    rw [← hbefore, show error.position = before.length by omega, List.drop_left]
  refine ⟨htext, ⟨ts, hcuts.covers [] rfl ?_⟩, hrest ▸ hstuck⟩
  rw [hposition, Nat.zero_add]

/-- The fragment of an error is the text from its position on, as much of it as an error shows. -/
theorem ParseError.fragment_eq (error : ParseError) : error.fragment =
    String.ofList ((error.text.toList.drop error.position).take fragmentLength) := by
  have hindex (n : Nat) : textIndex error.text.toList.length (n : Int) =
      min n error.text.toList.length := by
    rw [textIndex, if_neg (by omega), Int.toNat_natCast]
  simp only [fragment, fragmentAt, ← Int.natCast_add, hindex]
  rw [List.drop_take]
  congr 1
  generalize error.text.toList = cs
  by_cases h : error.position ≤ cs.length
  · rw [Nat.min_eq_left h, List.take_eq_take_iff, List.length_drop]
    omega
  · rw [List.drop_eq_nil_of_le (by omega), List.drop_eq_nil_of_le (by omega), List.take_nil,
      List.take_nil]

/-- Every text is read or has an error, which shows the text from its position on. If the text cannot be cut
into tokens, that is the first place behind complete tokens and white space where neither begins. If it can,
it is the place of the first token, the end among them, with which the tokens no longer begin those of any
text that is read. No number token is in the way: each can be read. -/
theorem parse_locates_error (text : String) :
    (∀ list, tokenize text = .ok list → Readable list.tokens) ∧
      ((∃ e, parse text = .ok e) ∨
        ∃ error, parse text = .error error ∧ error.text = text ∧
          error.fragment = String.ofList ((text.toList.drop error.position).take 12) ∧
          (tokenize text = .error error ∧ (∃ ts, Covers text.toList 0 ts error.position) ∧
              Stuck (text.toList.drop error.position) ∨
            ∃ list k, tokenize text = .ok list ∧ list.positions[k]? = some error.position ∧
              Offends list.symbols k)) := by
  refine ⟨fun list => tokenize_readable, ?_⟩
  cases hparse : parse text with
  | ok e => exact .inl ⟨e, rfl⟩
  | error error =>
    refine .inr ⟨error, rfl, ?_⟩
    cases htokenize : tokenize text with
    | error fault =>
      obtain rfl : fault = error := by simpa [parse, htokenize] using hparse
      obtain ⟨htext, hcovers, hstuck⟩ := tokenize_stuck htokenize
      exact ⟨htext, htext ▸ fault.fragment_eq, .inl ⟨rfl, hcovers, hstuck⟩⟩
    | ok list =>
      obtain ⟨htext, k, hposition, hoffends⟩ := exists_offends htokenize hparse
      exact ⟨htext, htext ▸ error.fragment_eq, .inr ⟨list, k, rfl, hposition, hoffends⟩⟩

end FormulaSearch
