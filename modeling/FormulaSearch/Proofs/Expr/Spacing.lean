import FormulaSearch.Proofs.Expr.ParseErrors

/-!
# White space between tokens

The tokens of a text are found again in it: they stand one behind the other, and only white space is outside
of them. White space that is put in where no token is cut through leaves their kinds and texts as they are,
so the text is read as before, or the error is at the same token.
-/

namespace FormulaSearch

open Text Grammar

/-! ## The positions of the tokens -/

/-- Tokens stand one behind the other, and the end behind all of them. -/
theorem positions_increasing {text : String} {list : TokenList} (h : tokenize text = .ok list) :
    list.positions.Pairwise (· < ·) := by
  have hcovers := tokenize_covers h
  have hlt : ∀ t ∈ list.tokens, t.position < t.stop := by
    intro t ht
    have hpos := List.length_pos_iff.mpr (tokenize_isLexeme h t ht).ne_nil
    rw [String.length_toList] at hpos
    simp only [Token.stop]
    omega
  rw [TokenList.positions, List.pairwise_append, (tokenize_eq_ok_iff.mp h).2]
  refine ⟨List.pairwise_map.mpr (hcovers.ordered.imp_of_mem ?_), by simp, ?_⟩
  · intro t u ht _ hle
    exact Nat.lt_of_lt_of_le (hlt t ht) hle
  · intro position hposition stop hstop
    obtain ⟨t, ht, rfl⟩ := List.mem_map.mp hposition
    obtain rfl := List.mem_singleton.mp hstop
    exact Nat.lt_of_lt_of_le (hlt t ht) (hcovers.within t ht).2

/-! ## Texts with the same tokens -/

/-- Two texts are read alike: as one formula, or both have an error, at tokens of one index. -/
def ReadAlike (text text' : String) (positions positions' : List Nat) : Prop :=
  match parse text, parse text' with
  | .ok e, .ok e' => e' = e
  | .error error, .error error' => ∃ k : Nat,
      positions[k]? = some error.position ∧ positions'[k]? = some error'.position
  | _, _ => False

/-- Texts whose tokens agree in kind and text are read alike. -/
theorem readAlike_of_symbols {text text' : String} {list list' : TokenList}
    (h : tokenize text = .ok list) (h' : tokenize text' = .ok list')
    (hsymbols : list'.symbols = list.symbols) :
    ReadAlike text text' list.positions list'.positions := by
  have hlexemes : list'.tokens.map Token.lexeme = list.tokens.map Token.lexeme :=
    map_symbol_eq_iff.mp (List.append_cancel_right hsymbols)
  rw [ReadAlike]
  cases hparse : parse text with
  | ok e =>
    obtain ⟨d, hd, rfl⟩ := (parse_eq_ok_iff_derivation h).mp hparse
    obtain ⟨d', hd', hmeaning⟩ := d.exists_alike (hd ▸ hlexemes)
    rw [(parse_eq_ok_iff_derivation h').mpr ⟨d', hd', hmeaning⟩]
  | error error =>
    cases hparse' : parse text' with
    | ok e =>
      obtain ⟨d', hd', rfl⟩ := (parse_eq_ok_iff_derivation h').mp hparse'
      obtain ⟨d, hd, hmeaning⟩ := d'.exists_alike (hd' ▸ hlexemes.symm)
      rw [(parse_eq_ok_iff_derivation h).mpr ⟨d, hd, hmeaning⟩] at hparse
      cases hparse
    | error error' =>
      -- the index is decided by the symbols alone
      obtain ⟨-, k, hposition, hoffends⟩ := exists_offends h hparse
      obtain ⟨-, k', hposition', hoffends'⟩ := exists_offends h' hparse'
      rw [hsymbols] at hoffends'
      obtain rfl := hoffends.unique hoffends'
      exact ⟨k, hposition, hposition'⟩

/-! ## White space put in -/

/-- White space that is put in where no token is cut through changes no token. -/
theorem exists_tokenize_insert {before space after : String} {list : TokenList}
    (h : tokenize (before ++ after) = .ok list) (hspace : ∀ c ∈ space.toList, isBlank c = true)
    (hapart : ∀ t ∈ list.tokens, t.stop ≤ before.length ∨ before.length ≤ t.position) :
    ∃ list', tokenize (before ++ space ++ after) = .ok list' ∧ list'.symbols = list.symbols := by
  by_cases hempty : space = ""
  · subst hempty
    exact ⟨list, by simpa using h, rfl⟩
  · have hcuts := (tokenize_eq_ok_iff.mp h).1
    have hplace : 0 + before.toList.length = before.length := by
      rw [Nat.zero_add, String.length_toList]
    have hinsert := hcuts.insert String.toList_append rfl (by rwa [hplace]) hspace
      (by simpa using hempty)
    rw [← String.toList_append, ← String.toList_append, ← String.append_assoc] at hinsert
    refine ⟨⟨_, _⟩, tokenize_eq_ok_iff.mpr ⟨hinsert, rfl⟩, ?_⟩
    simp only [TokenList.symbols, map_symbol, List.map_map]
    rfl

/-- Cutting a text loses nothing. The positions increase up to the end of the text, each token is found at
its position and is the longest one there, and all other characters are white space. White space that is put
in where no token is cut through, in front of the tokens, behind them or between two of them, leaves the kinds
and texts of the tokens as they are, and the text is read alike. -/
theorem tokenize_lossless {text : String} {list : TokenList} (h : tokenize text = .ok list) :
    list.positions.Pairwise (· < ·) ∧ list.stop = text.length ∧
      (∀ t ∈ list.tokens,
        (text.toList.drop t.position).take t.text.length = t.text.toList ∧
          IsLongest t.kind t.text.toList (text.toList.drop t.position)) ∧
      (∀ i < text.length, (∀ t ∈ list.tokens, i < t.position ∨ t.position + t.text.length ≤ i) →
        ∃ c, text.toList[i]? = some c ∧ isBlank c = true) ∧
      ∀ before space after, text = before ++ after → (∀ c ∈ space.toList, isBlank c = true) →
        (∀ t ∈ list.tokens,
          t.position + t.text.length ≤ before.length ∨ before.length ≤ t.position) →
        ∃ list', tokenize (before ++ space ++ after) = .ok list' ∧ list'.symbols = list.symbols ∧
          ReadAlike text (before ++ space ++ after) list.positions list'.positions := by
  have hcovers := tokenize_covers h
  refine ⟨positions_increasing h, (tokenize_eq_ok_iff.mp h).2, fun t ht => ?_,
    fun i hi => hcovers.blank i (Nat.zero_le i) hi, ?_⟩
  · have hlongest := hcovers.longest t ht
    have hfront := List.prefix_iff_eq_take.mp hlongest.front
    rw [String.length_toList] at hfront
    exact ⟨hfront.symm, hlongest⟩
  · intro before space after htext hspace hapart
    subst htext
    obtain ⟨list', h', hsymbols⟩ := exists_tokenize_insert h hspace hapart
    exact ⟨list', h', hsymbols, readAlike_of_symbols h h' hsymbols⟩

/-- A number that stands before a name is no longer number for a blank in between, although the name begins as
an exponent does. -/
theorem tokenize_lossless_exponent :
    let list : TokenList := ⟨[⟨.number, "2", 0⟩, ⟨.name, "e", 1⟩], 2⟩
    tokenize "2e" = .ok list ∧
      ∃ list', tokenize "2 e" = .ok list' ∧ list'.symbols = list.symbols ∧
        ReadAlike "2e" "2 e" [0, 1, 2] list'.positions := by
  intro list
  have h : tokenize "2e" = .ok list := by rfl
  refine ⟨h, ?_⟩
  have hspace : ∀ c ∈ " ".toList, isBlank c = true := by simp [isBlank]
  exact (tokenize_lossless h).2.2.2.2 "2" " " "e" rfl hspace (by decide)

end FormulaSearch
