import FormulaSearch.Proofs.Expr.Scanning

/-!
# Cutting a text into tokens

Cutting is a relation between a text, the tokens that are cut off its front, and the rest; the rest stays
in view, so that each token is the longest where it stands. The function that cuts a text finds the only
cut up to its end, or comes to the first place where neither white space nor a token begins. A cut loses
nothing but white space, and white space that is put in between tokens moves the tokens and changes none.
-/

namespace FormulaSearch

open Text

/-- The position behind a token. -/
def Token.stop (t : Token) : Nat := t.position + t.text.length

/-- From a position on, tokens and white space are cut off the front of a text until the rest. -/
inductive Cuts : Nat → List Char → List Token → List Char → Prop where
  | done {position : Nat} {rest : List Char} : Cuts position rest [] rest
  | blank {position : Nat} {c : Char} {cs : List Char} {ts : List Token} {rest : List Char}
      (hc : isBlank c = true) (h : Cuts (position + 1) cs ts rest) :
      Cuts position (c :: cs) ts rest
  | token {position : Nat} {kind : TokenKind} {lexeme cs : List Char} {ts : List Token}
      {rest : List Char} (hl : IsLongest kind lexeme (lexeme ++ cs))
      (h : Cuts (position + lexeme.length) cs ts rest) :
      Cuts position (lexeme ++ cs) (⟨kind, String.ofList lexeme, position⟩ :: ts) rest

/-- A text that begins neither with white space nor with a token. -/
structure Stuck (rest : List Char) : Prop where
  ne_nil : rest ≠ []
  not_isBlank : ∀ c ∈ rest.head?, isBlank c = false
  no_token : ∀ kind lexeme, IsLexeme kind lexeme → ¬ lexeme <+: rest

theorem Cuts.isSuffix {position : Nat} {cs : List Char} {ts : List Token} {rest : List Char}
    (h : Cuts position cs ts rest) : rest <:+ cs := by
  induction h with
  | done => exact List.suffix_refl _
  | blank hc h ih => exact ih.trans (List.suffix_cons _ _)
  | token hl h ih => exact ih.trans (List.suffix_append _ _)

/-! ## The function that cuts -/

theorem tokensFrom_isLongest {kind : TokenKind} {lexeme cs : List Char}
    (h : IsLongest kind lexeme (lexeme ++ cs)) (position : Nat) :
    tokensFrom position 0 (lexeme ++ cs) =
      (tokensFrom (position + lexeme.length) 0 cs).map
        (⟨kind, String.ofList lexeme, position⟩ :: ·) := by
  have hscan := scanToken?_eq_some_iff.mpr h
  have hblank := h.isLexeme.not_isBlank
  have hne := h.isLexeme.ne_nil
  cases lexeme with
  | nil => exact absurd rfl hne
  | cons c lexeme => exact tokensFrom_token (hblank c (by simp)) hscan position

/-- What the function finds: a cut up to the end of the text, or up to where it is stuck. -/
theorem tokensFrom_cuts (position : Nat) (cs : List Char) :
    match tokensFrom position 0 cs with
    | .ok ts => Cuts position cs ts []
    | .error stop => ∃ ts rest, Cuts position cs ts rest ∧ Stuck rest ∧
        stop + rest.length = position + cs.length := by
  induction hn : cs.length using Nat.strongRecOn generalizing position cs with
  | ind n ih =>
    cases cs with
    | nil => exact .done
    | cons c cs =>
      by_cases hc : isBlank c = true
      · have := ih cs.length (by simp [← hn]) (position + 1) cs rfl
        rw [tokensFrom_blank hc]
        cases htokens : tokensFrom (position + 1) 0 cs with
        | ok ts =>
          rw [htokens] at this
          exact .blank hc this
        | error stop =>
          rw [htokens] at this
          obtain ⟨ts, rest, hcuts, hstuck, hstop⟩ := this
          refine ⟨ts, rest, .blank hc hcuts, hstuck, ?_⟩
          simp only [← hn, List.length_cons]
          omega
      · cases hscan : scanToken? (c :: cs) with
        | none =>
          rw [tokensFrom, if_neg hc, hscan]
          have hstuck : Stuck (c :: cs) :=
            ⟨by simp, by simpa using hc, scanToken?_eq_none_iff.mp hscan⟩
          exact ⟨[], c :: cs, .done, hstuck, by rw [← hn]⟩
        | some found =>
          obtain ⟨kind, lexeme⟩ := found
          have hlongest := scanToken?_eq_some_iff.mp hscan
          have hpos := List.length_pos_iff.mpr hlongest.isLexeme.ne_nil
          obtain ⟨more, hmore⟩ := hlongest.front
          rw [← hmore] at hlongest hn ⊢
          rw [List.length_append] at hn
          have := ih more.length (by omega) (position + lexeme.length) more rfl
          rw [tokensFrom_isLongest hlongest]
          cases htokens : tokensFrom (position + lexeme.length) 0 more with
          | ok ts =>
            rw [htokens] at this
            exact .token hlongest this
          | error stop =>
            rw [htokens] at this
            obtain ⟨ts, rest, hcuts, hstuck, hstop⟩ := this
            exact ⟨_, rest, .token hlongest hcuts, hstuck, by omega⟩

/-- The function finds every cut up to the end of a text. -/
theorem Cuts.tokensFrom_eq {position : Nat} {cs : List Char} {ts : List Token}
    (h : Cuts position cs ts []) : tokensFrom position 0 cs = .ok ts := by
  generalize hrest : ([] : List Char) = rest at h
  induction h with
  | done =>
    subst hrest
    rfl
  | blank hc h ih => rw [tokensFrom_blank hc, ih hrest]
  | token hl h ih =>
    rw [tokensFrom_isLongest hl, ih hrest]
    rfl

theorem tokenize_eq_ok_iff {text : String} {list : TokenList} :
    tokenize text = .ok list ↔ Cuts 0 text.toList list.tokens [] ∧ list.stop = text.length := by
  rw [tokenize]
  constructor
  · intro h
    have hcuts := tokensFrom_cuts 0 text.toList
    split at h
    · rename_i ts hts
      cases h
      rw [hts] at hcuts
      exact ⟨hcuts, rfl⟩
    · cases h
  · rintro ⟨hcuts, hstop⟩
    rw [hcuts.tokensFrom_eq, ← hstop]

/-- A text that cannot be cut: there is a cut up to where it is stuck. -/
theorem exists_cuts_of_tokenize {text : String} {e : ParseError} (h : tokenize text = .error e) :
    e.cause = .unexpectedCharacter ∧ e.text = text ∧ ∃ ts rest, Cuts 0 text.toList ts rest ∧
      Stuck rest ∧ e.position + rest.length = text.length := by
  have hcuts := tokensFrom_cuts 0 text.toList
  rw [tokenize] at h
  split at h
  · cases h
  · rename_i stop hstop
    cases h
    rw [hstop] at hcuts
    exact ⟨rfl, rfl, by simpa only [Nat.zero_add, String.length_toList] using hcuts⟩

/-! ## Nothing is lost -/

/-- The tokens of a part of a text: they stand one behind the other, each is the longest at its place, and
only white space is outside of them. -/
structure Covers (text : List Char) (start : Nat) (ts : List Token) (stop : Nat) : Prop where
  ordered : ts.Pairwise fun t u => t.stop ≤ u.position
  within : ∀ t ∈ ts, start ≤ t.position ∧ t.stop ≤ stop
  longest : ∀ t ∈ ts, IsLongest t.kind t.text.toList (text.drop t.position)
  blank : ∀ i, start ≤ i → i < stop → (∀ t ∈ ts, i < t.position ∨ t.stop ≤ i) →
    ∃ c, text[i]? = some c ∧ isBlank c = true

theorem Cuts.covers {position : Nat} {cs : List Char} {ts : List Token} {rest : List Char}
    (h : Cuts position cs ts rest) (before : List Char) {stop : Nat}
    (hposition : position = before.length) (hstop : stop + rest.length = position + cs.length) :
    Covers (before ++ cs) position ts stop := by
  induction h generalizing before with
  | done =>
    refine ⟨.nil, by simp, by simp, ?_⟩
    intro i _ hi
    omega
  | @blank position c cs ts rest hc h ih =>
    simp only [List.length_cons] at hstop
    have hcovers := ih (before ++ [c]) (by simp [hposition]) (by omega)
    rw [List.append_assoc, List.singleton_append] at hcovers
    refine ⟨hcovers.ordered, ?_, hcovers.longest, ?_⟩
    · intro t ht
      have := hcovers.within t ht
      omega
    · intro i hstart hi hout
      by_cases heq : i = position
      · subst hposition heq
        exact ⟨c, by simp, hc⟩
      · exact hcovers.blank i (by omega) hi hout
  | @token position kind lexeme cs ts rest hl h ih =>
    rw [List.length_append] at hstop
    have hcovers := ih (before ++ lexeme) (by simp [hposition]) (by omega)
    rw [List.append_assoc] at hcovers
    have hend : Token.stop ⟨kind, String.ofList lexeme, position⟩ = position + lexeme.length := by
      simp [Token.stop]
    have hrest : position + lexeme.length ≤ stop := by
      have := h.isSuffix.length_le
      omega
    refine ⟨?_, ?_, ?_, ?_⟩
    · refine List.pairwise_cons.mpr ⟨?_, hcovers.ordered⟩
      intro t ht
      rw [hend]
      exact (hcovers.within t ht).1
    · intro t ht
      rcases List.mem_cons.mp ht with rfl | ht
      · exact ⟨Nat.le_refl _, by rw [hend]; exact hrest⟩
      · have := hcovers.within t ht
        omega
    · intro t ht
      rcases List.mem_cons.mp ht with rfl | ht
      · simpa [hposition] using hl
      · exact hcovers.longest t ht
    · intro i hstart hi hout
      have hbehind : position + lexeme.length ≤ i := by
        have := hout _ List.mem_cons_self
        rw [hend] at this
        simp only at this
        omega
      exact hcovers.blank i hbehind hi fun t ht => hout t (List.mem_cons_of_mem _ ht)

theorem tokenize_covers {text : String} {list : TokenList} (h : tokenize text = .ok list) :
    Covers text.toList 0 list.tokens text.length := by
  refine (tokenize_eq_ok_iff.mp h).1.covers [] rfl ?_
  rw [List.length_nil, String.length_toList, Nat.add_zero, Nat.zero_add]

theorem tokenize_isLexeme {text : String} {list : TokenList} (h : tokenize text = .ok list) :
    ∀ t ∈ list.tokens, IsLexeme t.kind t.text.toList :=
  fun t ht => ((tokenize_covers h).longest t ht).isLexeme

/-! ## Tokens that stand apart -/

/-- The tokens as kinds and texts, without their places. -/
def Token.lexeme (t : Token) : TokenKind × String := (t.kind, t.text)

/-- A token is cut off whole where white space follows, or nothing. -/
theorem IsLexeme.isLongest {kind : TokenKind} {lexeme rest : List Char} (h : IsLexeme kind lexeme)
    (hrest : ∀ c ∈ rest.head?, isBlank c = true) : IsLongest kind lexeme (lexeme ++ rest) := by
  have halone : IsLongest kind lexeme (lexeme ++ []) := by
    refine ⟨h, List.prefix_append lexeme [], fun other _ hfront => ?_⟩
    simpa using hfront.length_le
  exact halone.respace (List.prefix_refl lexeme) hrest

/-- The texts of tokens with blanks behind them. -/
def spaced (ts : List Token) : List Char := ts.flatMap fun t => t.text.toList ++ [' ']

theorem exists_cuts_spaced {ts : List Token} (h : ∀ t ∈ ts, IsLexeme t.kind t.text.toList)
    (position : Nat) :
    ∃ us, Cuts position (spaced ts) us [] ∧ us.map Token.lexeme = ts.map Token.lexeme := by
  induction ts generalizing position with
  | nil => exact ⟨[], .done, rfl⟩
  | cons t ts ih =>
    obtain ⟨us, hcuts, hus⟩ := ih (fun u hu => h u (List.mem_cons_of_mem t hu))
      (position + t.text.toList.length + 1)
    have hspace : isBlank ' ' = true := by decide
    have hlongest : IsLongest t.kind t.text.toList (t.text.toList ++ (' ' :: spaced ts)) :=
      (h t List.mem_cons_self).isLongest (by simp [hspace])
    refine ⟨⟨t.kind, t.text, position⟩ :: us, ?_, by simp [Token.lexeme, hus]⟩
    have := Cuts.token hlongest (.blank hspace hcuts)
    simpa [spaced] using this

/-! ## White space between tokens -/

/-- The position behind white space of some length that is put in at a place. -/
def movedFrom (place length position : Nat) : Nat :=
  if position < place then position else position + length

/-- A token moved by white space that is put in at a place. -/
def Token.moved (place length : Nat) (t : Token) : Token :=
  { t with position := movedFrom place length t.position }

/-- White space in front moves all tokens. -/
theorem Cuts.shift {position place : Nat} {cs : List Char} {ts : List Token} {rest : List Char}
    (h : Cuts position cs ts rest) (hplace : place ≤ position) (length : Nat) :
    Cuts (position + length) cs (ts.map (Token.moved place length)) rest := by
  induction h with
  | done => exact .done
  | @blank position c cs ts rest hc h ih =>
    have := ih (by omega)
    rw [Nat.add_right_comm] at this
    exact .blank hc this
  | @token position kind lexeme cs ts rest hl h ih =>
    have := ih (by omega)
    rw [Nat.add_right_comm] at this
    have hmoved : Token.moved place length ⟨kind, String.ofList lexeme, position⟩ =
        ⟨kind, String.ofList lexeme, position + length⟩ := by
      simp [Token.moved, movedFrom, Nat.not_lt.mpr hplace]
    rw [List.map_cons, hmoved]
    exact .token hl this

theorem Cuts.blanks {position : Nat} {space cs : List Char} {ts : List Token} {rest : List Char}
    (hspace : ∀ c ∈ space, isBlank c = true) (h : Cuts (position + space.length) cs ts rest) :
    Cuts position (space ++ cs) ts rest := by
  induction space generalizing position with
  | nil => exact h
  | cons c space ih =>
    refine .blank (hspace c List.mem_cons_self) (ih (fun d hd => hspace d ?_) ?_)
    · exact List.mem_cons_of_mem c hd
    · rwa [List.length_cons, Nat.add_comm space.length, ← Nat.add_assoc] at h

/-- White space that is put in where no token is cut through moves the tokens behind it. -/
theorem Cuts.insert {position : Nat} {cs : List Char} {ts : List Token} {rest : List Char}
    (h : Cuts position cs ts rest) {before after space : List Char} (hcs : cs = before ++ after)
    (hrest : rest = [])
    (hapart : ∀ t ∈ ts, t.stop ≤ position + before.length ∨ position + before.length ≤ t.position)
    (hspace : ∀ c ∈ space, isBlank c = true) (hne : space ≠ []) :
    Cuts position (before ++ (space ++ after))
      (ts.map (Token.moved (position + before.length) space.length)) [] := by
  -- where the white space is put in at once, it moves all tokens
  have front {position : Nat} {cs : List Char} {ts : List Token} (h : Cuts position cs ts []) :
      Cuts position (space ++ cs) (ts.map (Token.moved position space.length)) [] :=
    .blanks hspace (h.shift (Nat.le_refl position) space.length)
  induction h generalizing before with
  | done =>
    obtain ⟨rfl, rfl⟩ := List.append_eq_nil_iff.mp (hcs.symm.trans hrest)
    exact front .done
  | @blank position c cs ts rest hc h ih =>
    cases before with
    | nil =>
      subst hcs hrest
      exact front (.blank hc h)
    | cons b before =>
      obtain ⟨rfl, rfl⟩ := List.cons.inj hcs
      have hplace : position + 1 + before.length = position + (c :: before).length := by
        rw [List.length_cons]
        omega
      have := ih rfl hrest (by rwa [hplace])
      rw [hplace] at this
      exact .blank hc this
  | @token position kind lexeme cs ts rest hl h ih =>
    by_cases hbefore : before = []
    · subst hbefore hcs hrest
      exact front (.token hl h)
    · have hpos := List.length_pos_iff.mpr hbefore
      have hfirst := hapart _ List.mem_cons_self
      simp only [Token.stop, String.length_ofList] at hfirst
      obtain ⟨more, rfl⟩ : lexeme <+: before :=
        List.prefix_of_prefix_length_le (List.prefix_append lexeme cs)
          (hcs ▸ List.prefix_append before after) (by omega)
      rw [List.append_assoc, List.append_cancel_left_eq] at hcs
      subst hcs
      have hplace : position + lexeme.length + more.length =
          position + (lexeme ++ more).length := by
        rw [List.length_append]
        omega
      have := ih rfl hrest fun t ht => by
        rw [hplace]
        exact hapart t (List.mem_cons_of_mem _ ht)
      rw [hplace] at this
      -- the token stands as before, and no longer one reaches over the white space
      have hmoved : Token.moved (position + (lexeme ++ more).length) space.length
          ⟨kind, String.ofList lexeme, position⟩ = ⟨kind, String.ofList lexeme, position⟩ := by
        simp only [Token.moved, movedFrom]
        rw [if_pos (by omega)]
      have hlongest : IsLongest kind lexeme ((lexeme ++ more) ++ (space ++ after)) := by
        rw [← List.append_assoc] at hl
        refine hl.respace (List.prefix_append lexeme more) ?_
        cases space with
        | nil => exact absurd rfl hne
        | cons c space => simpa using hspace c List.mem_cons_self
      rw [List.map_cons, hmoved]
      rw [List.append_assoc] at hlongest ⊢
      exact .token hlongest this

end FormulaSearch
