import FormulaSearch.Proofs.Expr.Acceptance
import FormulaSearch.Proofs.Expr.Cutting

/-!
# The place of a fault

The reader fails at the first token that no formula goes on with: what stands in front of it can be
completed, and with it nothing can, whatever follows. Both are said of a level of the grammar, so that a
fault inside a part is a fault of the whole: the part in front is lengthened by what was read before, and a
level that finds nothing makes every level around it find nothing.
-/

namespace FormulaSearch.Grammar

/-! ## Tokens at other places -/

/-- A token is a terminal by its kind and its text. -/
theorem Matches.of_lexeme {t u : Token} {a : Terminal} (h : Matches t a)
    (hu : u.lexeme = t.lexeme) : Matches u a := by
  obtain ⟨hkind, htext⟩ := Prod.mk.inj hu
  cases h with
  | number hk hv => exact .number (hkind.trans hk) (by rwa [htext])
  | var hk hx => exact .var (hkind.trans hk) (htext.trans hx)
  | parameter hk hx hf hl =>
    rw [← htext] at hx hf hl ⊢
    exact .parameter (hkind.trans hk) hx hf hl
  | function hk hf => exact .function (hkind.trans hk) (by rwa [htext])
  | sign hk hc => exact .sign (hkind.trans hk) (htext.trans hc)

namespace Derivation

/-- Tokens of the same kinds and texts at other places are derived alike. -/
theorem exists_alike {l : Level} (d : Derivation l) {us : List Token}
    (h : us.map Token.lexeme = d.tokens.map Token.lexeme) :
    ∃ d' : Derivation l, d'.tokens = us ∧ d'.meaning = d.meaning := by
  induction d generalizing us with
  | expr first rest ihf ihr =>
    simp only [tokens, List.map_append] at h
    obtain ⟨vs, ws, rfl, hv, hw⟩ := List.map_eq_append_iff.mp h
    obtain ⟨f, rfl, hf⟩ := ihf hv
    obtain ⟨r, rfl, hr⟩ := ihr hw
    exact ⟨.expr f r, rfl, by rw [meaning, meaning, hf, hr]⟩
  | noTerm => exact ⟨.noTerm, by simpa using h.symm, rfl⟩
  | nextTerm op hop t ht e rest ihe ihr =>
    simp only [tokens, List.map_cons, List.map_append] at h
    obtain ⟨u, us, rfl, hu, hus⟩ := List.map_eq_cons_iff.mp h
    obtain ⟨vs, ws, rfl, hv, hw⟩ := List.map_eq_append_iff.mp hus
    obtain ⟨e', rfl, he⟩ := ihe hv
    obtain ⟨r, rfl, hr⟩ := ihr hw
    exact ⟨.nextTerm op hop u (ht.of_lexeme hu) e' r, rfl, by rw [meaning, meaning, he, hr]⟩
  | term first rest ihf ihr =>
    simp only [tokens, List.map_append] at h
    obtain ⟨vs, ws, rfl, hv, hw⟩ := List.map_eq_append_iff.mp h
    obtain ⟨f, rfl, hf⟩ := ihf hv
    obtain ⟨r, rfl, hr⟩ := ihr hw
    exact ⟨.term f r, rfl, by rw [meaning, meaning, hf, hr]⟩
  | noFactor => exact ⟨.noFactor, by simpa using h.symm, rfl⟩
  | nextFactor op hop t ht e rest ihe ihr =>
    simp only [tokens, List.map_cons, List.map_append] at h
    obtain ⟨u, us, rfl, hu, hus⟩ := List.map_eq_cons_iff.mp h
    obtain ⟨vs, ws, rfl, hv, hw⟩ := List.map_eq_append_iff.mp hus
    obtain ⟨e', rfl, he⟩ := ihe hv
    obtain ⟨r, rfl, hr⟩ := ihr hw
    exact ⟨.nextFactor op hop u (ht.of_lexeme hu) e' r, rfl, by rw [meaning, meaning, he, hr]⟩
  | minus t ht e ih =>
    simp only [tokens, List.map_cons] at h
    obtain ⟨u, us, rfl, hu, hus⟩ := List.map_eq_cons_iff.mp h
    obtain ⟨e', rfl, he⟩ := ih hus
    exact ⟨.minus u (ht.of_lexeme hu) e', rfl, by rw [negate_meaning, negate_meaning, he]⟩
  | plain e ih =>
    obtain ⟨e', rfl, he⟩ := ih h
    exact ⟨.plain e', rfl, he⟩
  | base e ih =>
    obtain ⟨e', rfl, he⟩ := ih h
    exact ⟨.base e', rfl, he⟩
  | raised b t ht e ihb ihe =>
    simp only [tokens, List.map_append, List.map_cons] at h
    obtain ⟨vs, ws, rfl, hv, hw⟩ := List.map_eq_append_iff.mp h
    obtain ⟨u, us, rfl, hu, hus⟩ := List.map_eq_cons_iff.mp hw
    obtain ⟨b', rfl, hb⟩ := ihb hv
    obtain ⟨e', rfl, he⟩ := ihe hus
    exact ⟨.raised b' u (ht.of_lexeme hu) e', rfl, by rw [meaning, meaning, hb, he]⟩
  | number v t ht =>
    obtain ⟨u, rfl, hu⟩ := List.map_eq_singleton_iff.mp h
    exact ⟨.number v u (ht.of_lexeme hu), rfl, rfl⟩
  | var t ht =>
    obtain ⟨u, rfl, hu⟩ := List.map_eq_singleton_iff.mp h
    exact ⟨.var u (ht.of_lexeme hu), rfl, rfl⟩
  | parameter n t ht =>
    obtain ⟨u, rfl, hu⟩ := List.map_eq_singleton_iff.mp h
    exact ⟨.parameter n u (ht.of_lexeme hu), rfl, rfl⟩
  | call op t ht o ho e c hc ih =>
    simp only [tokens, List.map_cons, List.map_append] at h
    obtain ⟨t', us, rfl, ht', hus⟩ := List.map_eq_cons_iff.mp h
    obtain ⟨o', us, rfl, ho', hus⟩ := List.map_eq_cons_iff.mp hus
    obtain ⟨vs, ws, rfl, hv, hw⟩ := List.map_eq_append_iff.mp hus
    obtain ⟨c', rfl, hc'⟩ := List.map_eq_singleton_iff.mp hw
    obtain ⟨e', rfl, he⟩ := ih hv
    exact ⟨.call op t' (ht.of_lexeme ht') o' (ho.of_lexeme ho') e' c' (hc.of_lexeme hc'), rfl,
      by rw [meaning, meaning, he]⟩
  | group o ho e c hc ih =>
    simp only [tokens, List.map_cons, List.map_append] at h
    obtain ⟨o', us, rfl, ho', hus⟩ := List.map_eq_cons_iff.mp h
    obtain ⟨vs, ws, rfl, hv, hw⟩ := List.map_eq_append_iff.mp hus
    obtain ⟨c', rfl, hc'⟩ := List.map_eq_singleton_iff.mp hw
    obtain ⟨e', rfl, he⟩ := ih hv
    exact ⟨.group o' (ho.of_lexeme ho') e' c' (hc.of_lexeme hc'), rfl, he⟩

end Derivation

/-! ## Beginnings and dead ends -/

/-- Tokens enough to complete any beginning. -/
def fillers : List Token := [⟨.sign, "(", 0⟩, ⟨.name, "x", 0⟩, ⟨.sign, ")", 0⟩]

/-- The derivation of the variable. -/
def variableDerivation : Derivation .expr :=
  .expr (.term (.plain (.base (.var ⟨.name, "x", 0⟩ (.var rfl rfl)))) .noFactor) .noTerm

/-- The tokens begin a derivation of the level, which a few more tokens complete. -/
def Completable (l : Level) (ts : List Token) : Prop :=
  ∃ more, ∃ d : Derivation l, more ⊆ fillers ∧ d.tokens = ts ++ more

/-- No part of the level can be taken off the front of the tokens. -/
def Hopeless (l : Level) (ts : List Token) : Prop :=
  ∀ (d : Derivation l) (rest : List Token), d.tokens ++ rest = ts → ¬ Stops l rest

/-- A fault at the first token with which the level becomes hopeless; the end is the last such token. -/
def Refuses (l : Level) (stop : Nat) (ts : List Token) (f : ParseFault) : Prop :=
  ∃ before rest, before ++ rest = ts ∧ f.position = positionOf stop rest ∧
    Completable l before ∧ ∀ rest', rest'.head? = rest.head? → Hopeless l (before ++ rest')

theorem Completable.of_tokens {l : Level} {ts : List Token} (d : Derivation l) (h : d.tokens = ts) :
    Completable l ts :=
  ⟨[], d, by simp, by simpa using h⟩

/-- A beginning of a part begins the whole, if what the part lacks can be put in. -/
theorem Completable.within {l l' : Level} {ts lead : List Token} (h : Completable l ts)
    (hpart : ∀ d : Derivation l, Completable l' (lead ++ d.tokens)) :
    Completable l' (lead ++ ts) := by
  obtain ⟨more, d, hmore, hd⟩ := h
  obtain ⟨more', d', hmore', hd'⟩ := hpart d
  refine ⟨more ++ more', d', List.append_subset.mpr ⟨hmore, hmore'⟩, ?_⟩
  rw [hd', hd]
  simp only [List.append_assoc]

/-- A fault inside a part is one of the whole. -/
theorem Refuses.within {l l' : Level} {stop : Nat} {ts : List Token} {f : ParseFault}
    (h : Refuses l stop ts f) (lead : List Token)
    (hpart : ∀ d : Derivation l, Completable l' (lead ++ d.tokens))
    (hopeless : ∀ us, us.head? = ts.head? → Hopeless l us → Hopeless l' (lead ++ us)) :
    Refuses l' stop (lead ++ ts) f := by
  obtain ⟨before, rest, rfl, hposition, hbefore, hrest⟩ := h
  refine ⟨lead ++ before, rest, List.append_assoc lead before rest, hposition,
    hbefore.within hpart, fun rest' hhead => ?_⟩
  rw [List.append_assoc]
  refine hopeless _ ?_ (hrest rest' hhead)
  rw [List.head?_append, List.head?_append, hhead]

/-- What the tokens begin with decides whether a level stops in front of them. -/
theorem Stops.of_head? {l : Level} {rest rest' : List Token} (h : Stops l rest)
    (hhead : rest'.head? = rest.head?) : Stops l rest' := by
  rw [Stops, hhead]
  exact h

/-! ## Dead ends of a part are dead ends of the whole -/

theorem Hopeless.expr_of_term {us : List Token} (h : Hopeless .term us) : Hopeless .expr us := by
  intro d rest hd hs
  cases d with
  | expr first more =>
    refine h first (more.tokens ++ rest) ?_ (more.stops_term hs)
    simpa using hd

theorem Hopeless.expr_of_terms {us : List Token} (first : Derivation .term) (hus : Stops .term us)
    (h : Hopeless .terms us) : Hopeless .expr (first.tokens ++ us) := by
  intro d rest hd hs
  cases d with
  | expr first' more =>
    simp only [Derivation.tokens, List.append_assoc] at hd
    obtain ⟨-, hmore⟩ := first'.unique first _ _ hd (more.stops_term hs) hus
    exact h more rest hmore hs

/-- Further terms that begin with a sign of a sum are a term and further terms behind the sign. -/
theorem exists_nextTerm {op : BinaryOp} (hop : op = .add ∨ op = .sub) {t : Token}
    (ht : Matches t (.sign op.sign)) {d : Derivation .terms} {rest us : List Token}
    (hd : d.tokens ++ rest = t :: us) (hs : Stops .terms rest) :
    ∃ (e : Derivation .term) (more : Derivation .terms), e.tokens ++ (more.tokens ++ rest) = us := by
  cases d with
  | noTerm =>
    simp only [Derivation.tokens, List.nil_append] at hd
    subst hd
    exact absurd ht (hs.not_matches (by rcases hop with rfl | rfl <;> decide))
  | nextTerm _ _ _ _ e more =>
    simp only [Derivation.tokens, List.cons_append, List.append_assoc, List.cons.injEq] at hd
    exact ⟨e, more, hd.2⟩

theorem Hopeless.terms_of_term {op : BinaryOp} (hop : op = .add ∨ op = .sub) {t : Token}
    (ht : Matches t (.sign op.sign)) {us : List Token} (h : Hopeless .term us) :
    Hopeless .terms (t :: us) := by
  intro d rest hd hs
  obtain ⟨e, more, hus⟩ := exists_nextTerm hop ht hd hs
  exact h e _ hus (more.stops_term hs)

theorem Hopeless.terms_of_terms {op : BinaryOp} (hop : op = .add ∨ op = .sub) {t : Token}
    (ht : Matches t (.sign op.sign)) (e : Derivation .term) {us : List Token}
    (hus : Stops .term us) (h : Hopeless .terms us) : Hopeless .terms (t :: e.tokens ++ us) := by
  intro d rest hd hs
  obtain ⟨e', more, htokens⟩ := exists_nextTerm hop ht hd hs
  obtain ⟨-, hmore⟩ := e'.unique e _ _ htokens (more.stops_term hs) hus
  exact h more rest hmore hs

theorem Hopeless.term_of_unary {us : List Token} (h : Hopeless .unary us) : Hopeless .term us := by
  intro d rest hd hs
  cases d with
  | term first more =>
    refine h first (more.tokens ++ rest) ?_ (more.stops_unary hs)
    simpa using hd

theorem Hopeless.term_of_factors {us : List Token} (first : Derivation .unary)
    (hus : Stops .unary us) (h : Hopeless .factors us) : Hopeless .term (first.tokens ++ us) := by
  intro d rest hd hs
  cases d with
  | term first' more =>
    simp only [Derivation.tokens, List.append_assoc] at hd
    obtain ⟨-, hmore⟩ := first'.unique first _ _ hd (more.stops_unary hs) hus
    exact h more rest hmore hs

/-- The same for factors and the signs of a product. -/
theorem exists_nextFactor {op : BinaryOp} (hop : op = .mul ∨ op = .div) {t : Token}
    (ht : Matches t (.sign op.sign)) {d : Derivation .factors} {rest us : List Token}
    (hd : d.tokens ++ rest = t :: us) (hs : Stops .factors rest) :
    ∃ (e : Derivation .unary) (more : Derivation .factors),
      e.tokens ++ (more.tokens ++ rest) = us := by
  cases d with
  | noFactor =>
    simp only [Derivation.tokens, List.nil_append] at hd
    subst hd
    exact absurd ht (hs.not_matches (by rcases hop with rfl | rfl <;> decide))
  | nextFactor _ _ _ _ e more =>
    simp only [Derivation.tokens, List.cons_append, List.append_assoc, List.cons.injEq] at hd
    exact ⟨e, more, hd.2⟩

theorem Hopeless.factors_of_unary {op : BinaryOp} (hop : op = .mul ∨ op = .div) {t : Token}
    (ht : Matches t (.sign op.sign)) {us : List Token} (h : Hopeless .unary us) :
    Hopeless .factors (t :: us) := by
  intro d rest hd hs
  obtain ⟨e, more, hus⟩ := exists_nextFactor hop ht hd hs
  exact h e _ hus (more.stops_unary hs)

theorem Hopeless.factors_of_factors {op : BinaryOp} (hop : op = .mul ∨ op = .div) {t : Token}
    (ht : Matches t (.sign op.sign)) (e : Derivation .unary) {us : List Token}
    (hus : Stops .unary us) (h : Hopeless .factors us) :
    Hopeless .factors (t :: e.tokens ++ us) := by
  intro d rest hd hs
  obtain ⟨e', more, htokens⟩ := exists_nextFactor hop ht hd hs
  obtain ⟨-, hmore⟩ := e'.unique e _ _ htokens (more.stops_unary hs) hus
  exact h more rest hmore hs

theorem Hopeless.unary_of_minus {t : Token} (ht : Matches t (.sign '-')) {us : List Token}
    (h : Hopeless .unary us) : Hopeless .unary (t :: us) := by
  intro d rest hd hs
  cases d with
  | minus t' ht' e =>
    simp only [Derivation.tokens, List.cons_append, List.cons.injEq] at hd
    exact h e rest hd.2 hs
  | plain e =>
    obtain ⟨u, more, hu, hno⟩ := e.power_head
    simp only [Derivation.tokens, hu, List.cons_append, List.cons.injEq] at hd
    exact hno (hd.1 ▸ ht)

theorem Hopeless.unary_of_power {us : List Token} (hus : ∀ t ∈ us.head?, ¬ Matches t (.sign '-'))
    (h : Hopeless .power us) : Hopeless .unary us := by
  intro d rest hd hs
  cases d with
  | minus t ht e =>
    subst hd
    exact hus t (by simp) ht
  | plain e => exact h e rest hd hs

theorem Hopeless.power_of_primary {us : List Token} (h : Hopeless .primary us) :
    Hopeless .power us := by
  intro d rest hd hs
  cases d with
  | base e => exact h e rest hd (.primary rest)
  | raised b t ht e => exact h b (t :: (e.tokens ++ rest)) (by simpa using hd) (.primary _)

theorem Hopeless.power_of_exponent (b : Derivation .primary) {t : Token}
    (ht : Matches t (.sign '^')) {us : List Token} (h : Hopeless .unary us) :
    Hopeless .power (b.tokens ++ t :: us) := by
  intro d rest hd hs
  cases d with
  | base e =>
    obtain ⟨-, rfl⟩ := e.unique b _ _ hd (.primary _) (.primary _)
    exact hs.not_matches (by decide) ht
  | raised b' t' ht' e =>
    simp only [Derivation.tokens, List.append_assoc, List.cons_append] at hd
    obtain ⟨-, hmore⟩ := b'.unique b _ _ hd (.primary _) (.primary _)
    exact h e rest (List.cons.inj hmore).2 hs

/-- A primary begins with the terminal that the first token is. -/
theorem Derivation.first_of_matches {d : Derivation .primary} {t : Token} {a : Terminal}
    {rest us : List Token} (hd : d.tokens ++ rest = t :: us) (ht : Matches t a) :
    d.first = (t, a) := by
  rw [d.tokens_eq_first_cons, List.cons_append] at hd
  obtain ⟨rfl, -⟩ := List.cons.inj hd
  exact Prod.ext rfl (d.first_matches.unique ht)

theorem Hopeless.primary_nil : Hopeless .primary [] := by
  intro d rest hd
  rw [d.tokens_eq_first_cons] at hd
  cases hd

/-- A token that is no terminal, or a sign that no primary begins with. -/
theorem Hopeless.primary_cons {t : Token}
    (ht : ∀ a, Matches t a → ∃ c, a = .sign c ∧ c ≠ '(') (us : List Token) :
    Hopeless .primary (t :: us) := by
  intro d rest hd
  rw [d.tokens_eq_first_cons, List.cons_append] at hd
  obtain ⟨rfl, -⟩ := List.cons.inj hd
  obtain ⟨c, hc, hne⟩ := ht _ d.first_matches
  cases d <;> simp only [Derivation.first, reduceCtorEq, Terminal.sign.injEq] at hc
  exact absurd hc.symm hne

theorem Hopeless.primary_of_function {op : UnaryOp} {t : Token} (ht : Matches t (.function op))
    {us : List Token} (h : ∀ o ∈ us.head?, ¬ Matches o (.sign '(')) :
    Hopeless .primary (t :: us) := by
  intro d rest hd _
  have hf := Derivation.first_of_matches hd ht
  cases d with
  | call op' t' ht' o ho e c hc =>
    simp only [Derivation.tokens, List.cons_append, List.cons.injEq] at hd
    obtain ⟨-, rfl⟩ := hd
    exact h o (by simp) ho
  | _ => simp [Derivation.first] at hf

/-- The tokens open a primary, which an expression and a closing parenthesis complete, and every primary
that begins with them is such a one. -/
structure Opens (lead : List Token) : Prop where
  primary : ∀ (e : Derivation .expr) (c : Token), Matches c (.sign ')') →
    ∃ d : Derivation .primary, d.tokens = lead ++ (e.tokens ++ [c])
  only : ∀ (d : Derivation .primary) (rest us : List Token), d.tokens ++ rest = lead ++ us →
    ∃ (e : Derivation .expr) (c : Token), Matches c (.sign ')') ∧ e.tokens ++ c :: rest = us

theorem opens_group {o : Token} (ho : Matches o (.sign '(')) : Opens [o] where
  primary e c hc := ⟨.group o ho e c hc, rfl⟩
  only d rest us hd := by
    have hf := Derivation.first_of_matches hd ho
    cases d with
    | group o' ho' e c hc =>
      simp only [Derivation.tokens, List.cons_append, List.append_assoc, List.nil_append,
        List.cons.injEq] at hd
      exact ⟨e, c, hc, hd.2⟩
    | _ => simp [Derivation.first] at hf

theorem opens_call {op : UnaryOp} {t o : Token} (ht : Matches t (.function op))
    (ho : Matches o (.sign '(')) : Opens [t, o] where
  primary e c hc := ⟨.call op t ht o ho e c hc, rfl⟩
  only d rest us hd := by
    have hf := Derivation.first_of_matches hd ht
    cases d with
    | call op' t' ht' o' ho' e c hc =>
      simp only [Derivation.tokens, List.cons_append, List.append_assoc, List.nil_append,
        List.cons.injEq] at hd
      exact ⟨e, c, hc, hd.2.2⟩
    | _ => simp [Derivation.first] at hf

theorem Opens.hopeless {lead us : List Token} (hlead : Opens lead) (h : Hopeless .expr us) :
    Hopeless .primary (lead ++ us) := by
  intro d rest hd _
  obtain ⟨e, c, hc, hus⟩ := hlead.only d rest us hd
  exact h e (c :: rest) hus (.cons hc (by decide) rest)

theorem Opens.hopeless_closing {lead us : List Token} (hlead : Opens lead) (e : Derivation .expr)
    (hus : Stops .expr us) (h : ∀ c ∈ us.head?, ¬ Matches c (.sign ')')) :
    Hopeless .primary (lead ++ (e.tokens ++ us)) := by
  intro d rest hd _
  obtain ⟨e', c, hc, htokens⟩ := hlead.only d rest (e.tokens ++ us) hd
  obtain ⟨-, rfl⟩ := e'.unique e _ _ htokens (.cons hc (by decide) rest) hus
  exact h c (by simp) hc

theorem Opens.completable {lead : List Token} (hlead : Opens lead) (e : Derivation .expr) :
    Completable .primary (lead ++ e.tokens) := by
  obtain ⟨d, hd⟩ := hlead.primary e ⟨.sign, ")", 0⟩ (.sign rfl rfl)
  exact ⟨[⟨.sign, ")", 0⟩], d, by simp [fillers], by simp [hd]⟩

theorem completable_nil : Completable .primary [] :=
  ⟨[⟨.name, "x", 0⟩], .var ⟨.name, "x", 0⟩ (.var rfl rfl), by simp [fillers], rfl⟩

theorem completable_function {op : UnaryOp} {t : Token} (ht : Matches t (.function op)) :
    Completable .primary [t] := by
  have ho : Matches ⟨.sign, "(", 0⟩ (.sign '(') := .sign rfl rfl
  have hc : Matches ⟨.sign, ")", 0⟩ (.sign ')') := .sign rfl rfl
  exact ⟨fillers, .call op t ht _ ho variableDerivation _ hc, List.Subset.refl fillers, rfl⟩

/-! ## The reader refuses at the first such token -/

/-- What a reader may rely on: a starred part stands behind a part that it goes on with. -/
def Level.Ready : Level → List Token → Prop
  | .terms, ts => Stops .term ts
  | .factors, ts => Stops .unary ts
  | _, _ => True

/-- With depth enough for the tokens a reader of the level either takes a part off the front, and none
that goes on, or refuses them. -/
def Answers (l : Level) (stop fuel : Nat) (read : List Token → Parsed) : Prop :=
  ∀ ts, Readable ts → l.Ready ts → 6 * ts.length + 7 ≤ fuel + l.margin →
    match read ts with
    | .ok (_, rest) => Stops l rest
    | .error f => Refuses l stop ts f

/-- The two answers, with the part that is taken off. -/
theorem Answers.cases {l : Level} {stop fuel : Nat} {read : List Token → Parsed}
    {meaning : Derivation l → Formula} (h : Answers l stop fuel read) (hsound : SoundAt l read meaning)
    {ts : List Token} (hr : Readable ts) (hready : l.Ready ts)
    (hfuel : 6 * ts.length + 7 ≤ fuel + l.margin) :
    (∃ f, read ts = .error f ∧ Refuses l stop ts f) ∨
      ∃ e rest, ∃ d : Derivation l, read ts = .ok (e, rest) ∧ d.tokens ++ rest = ts ∧
        Stops l rest := by
  have hanswer := h ts hr hready hfuel
  cases hread : read ts with
  | error f =>
    rw [hread] at hanswer
    exact .inl ⟨f, rfl, hanswer⟩
  | ok found =>
    rw [hread] at hanswer
    obtain ⟨d, hd, -⟩ := hsound ts found.1 found.2 hr hread
    exact .inr ⟨found.1, found.2, d, rfl, hd, hanswer⟩

/-- Each level of the reader answers. -/
structure Decides (stop fuel : Nat) : Prop where
  expr : Answers .expr stop fuel (parseExpr stop fuel)
  terms : ∀ sum, Answers .terms stop fuel (parseSum stop fuel sum)
  term : Answers .term stop fuel (parseTerm stop fuel)
  factors : ∀ product, Answers .factors stop fuel (parseProduct stop fuel product)
  unary : Answers .unary stop fuel (parseUnary stop fuel)
  power : Answers .power stop fuel (parsePower stop fuel)
  primary : Answers .primary stop fuel (parsePrimary stop fuel)

/-- A part other than a starred one has at least one token. -/
theorem Derivation.tokens_pos {l : Level} (d : Derivation l) (hl : 0 < l.margin) :
    0 < d.tokens.length := by
  have hdepth := d.depth_pos
  have hle := d.depth_le
  cases l <;> simp only [Level.margin] at hle hl <;> omega

section

variable {stop fuel : Nat}

theorem stops_terms {t : Token} {ts : List Token} (hop : sumOp? t = none)
    (h : Stops .term (t :: ts)) : Stops .terms (t :: ts) := by
  intro u hu c hc hm
  obtain rfl : t = u := by simpa using hu
  have hsum (op : BinaryOp) (hsum : op = .add ∨ op = .sub) : ¬ Matches t (.sign op.sign) :=
    fun hm => by simp [sumOp?_eq_some_iff.mpr ⟨hsum, hm⟩] at hop
  simp only [Level.continuing, List.mem_cons, List.not_mem_nil, or_false] at hc
  rcases hc with rfl | rfl | hc
  · exact hsum .add (by simp) hm
  · exact hsum .sub (by simp) hm
  · exact h.not_matches (by simpa [Level.continuing] using hc) hm

theorem stops_factors {t : Token} {ts : List Token} (hop : productOp? t = none)
    (h : Stops .unary (t :: ts)) : Stops .factors (t :: ts) := by
  intro u hu c hc hm
  obtain rfl : t = u := by simpa using hu
  have hproduct (op : BinaryOp) (hproduct : op = .mul ∨ op = .div) : ¬ Matches t (.sign op.sign) :=
    fun hm => by simp [productOp?_eq_some_iff.mpr ⟨hproduct, hm⟩] at hop
  simp only [Level.continuing, List.mem_cons, List.not_mem_nil, or_false] at hc
  rcases hc with rfl | rfl | hc
  · exact hproduct .mul (by simp) hm
  · exact hproduct .div (by simp) hm
  · exact h.not_matches (by simpa [Level.continuing] using hc) hm

theorem Decides.expr_succ (h : Decides stop fuel) :
    Answers .expr stop (fuel + 1) (parseExpr stop (fuel + 1)) := by
  intro ts hr _ hfuel
  simp only [Level.margin] at hfuel
  obtain ⟨f, hread, hf⟩ | ⟨e, us, d, hread, rfl, hus⟩ :=
    h.term.cases (sound stop fuel).term hr trivial (by simp only [Level.margin]; omega)
  · simp only [parseExpr, hread, error_bind]
    refine hf.within [] (fun d => ?_) fun us _ hopeless => hopeless.expr_of_term
    exact .of_tokens (.expr d .noTerm) (by simp [Derivation.tokens])
  · have hpos := d.tokens_pos (by decide)
    rw [List.length_append] at hfuel
    obtain ⟨f, hmore, hf⟩ | ⟨e', rest, d', hmore, rfl, hrest⟩ :=
      (h.terms e).cases ((sound stop fuel).terms e) hr.of_append hus
        (by simp only [Level.margin]; omega)
    · simp only [parseExpr, hread, ok_bind, hmore]
      refine hf.within d.tokens (fun d' => .of_tokens (.expr d d') rfl) fun vs hhead hopeless => ?_
      exact hopeless.expr_of_terms d (hus.of_head? hhead)
    · simp only [parseExpr, hread, ok_bind, hmore]
      exact hrest

theorem Decides.terms_succ (h : Decides stop fuel) (sum : Formula) :
    Answers .terms stop (fuel + 1) (parseSum stop (fuel + 1) sum) := by
  intro ts hr hready hfuel
  simp only [Level.margin] at hfuel
  cases ts with
  | nil =>
    simp only [parseSum]
    exact .nil .terms
  | cons t ts =>
    simp only [List.length_cons] at hfuel
    cases hop : sumOp? t with
    | none =>
      simp only [parseSum, hop]
      exact stops_terms hop hready
    | some op =>
      obtain ⟨hsum, ht⟩ := sumOp?_eq_some_iff.mp hop
      obtain ⟨f, hread, hf⟩ | ⟨e, us, d, hread, rfl, hus⟩ :=
        h.term.cases (sound stop fuel).term hr.tail trivial (by simp only [Level.margin]; omega)
      · simp only [parseSum, hop, hread, error_bind]
        refine hf.within [t] (fun d => ?_) fun us _ hopeless => hopeless.terms_of_term hsum ht
        exact .of_tokens (.nextTerm op hsum t ht d .noTerm) (by simp [Derivation.tokens])
      · rw [List.length_append] at hfuel
        obtain ⟨f, hmore, hf⟩ | ⟨e', rest, d', hmore, rfl, hrest⟩ :=
          (h.terms _).cases ((sound stop fuel).terms (.binary op sum e)) hr.tail.of_append hus
            (by simp only [Level.margin]; omega)
        · simp only [parseSum, hop, hread, ok_bind, hmore]
          refine hf.within (t :: d.tokens) (fun d' => ?_) fun vs hhead hopeless => ?_
          · exact .of_tokens (.nextTerm op hsum t ht d d') rfl
          · exact hopeless.terms_of_terms hsum ht d (hus.of_head? hhead)
        · simp only [parseSum, hop, hread, ok_bind, hmore]
          exact hrest

theorem Decides.term_succ (h : Decides stop fuel) :
    Answers .term stop (fuel + 1) (parseTerm stop (fuel + 1)) := by
  intro ts hr _ hfuel
  simp only [Level.margin] at hfuel
  obtain ⟨f, hread, hf⟩ | ⟨e, us, d, hread, rfl, hus⟩ :=
    h.unary.cases (sound stop fuel).unary hr trivial (by simp only [Level.margin]; omega)
  · simp only [parseTerm, hread, error_bind]
    refine hf.within [] (fun d => ?_) fun us _ hopeless => hopeless.term_of_unary
    exact .of_tokens (.term d .noFactor) (by simp [Derivation.tokens])
  · have hpos := d.tokens_pos (by decide)
    rw [List.length_append] at hfuel
    obtain ⟨f, hmore, hf⟩ | ⟨e', rest, d', hmore, rfl, hrest⟩ :=
      (h.factors e).cases ((sound stop fuel).factors e) hr.of_append hus
        (by simp only [Level.margin]; omega)
    · simp only [parseTerm, hread, ok_bind, hmore]
      refine hf.within d.tokens (fun d' => .of_tokens (.term d d') rfl) fun vs hhead hopeless => ?_
      exact hopeless.term_of_factors d (hus.of_head? hhead)
    · simp only [parseTerm, hread, ok_bind, hmore]
      exact hrest

theorem Decides.factors_succ (h : Decides stop fuel) (product : Formula) :
    Answers .factors stop (fuel + 1) (parseProduct stop (fuel + 1) product) := by
  intro ts hr hready hfuel
  simp only [Level.margin] at hfuel
  cases ts with
  | nil =>
    simp only [parseProduct]
    exact .nil .factors
  | cons t ts =>
    simp only [List.length_cons] at hfuel
    cases hop : productOp? t with
    | none =>
      simp only [parseProduct, hop]
      exact stops_factors hop hready
    | some op =>
      obtain ⟨hproduct, ht⟩ := productOp?_eq_some_iff.mp hop
      obtain ⟨f, hread, hf⟩ | ⟨e, us, d, hread, rfl, hus⟩ :=
        h.unary.cases (sound stop fuel).unary hr.tail trivial (by simp only [Level.margin]; omega)
      · simp only [parseProduct, hop, hread, error_bind]
        refine hf.within [t] (fun d => ?_) fun us _ hopeless => hopeless.factors_of_unary hproduct ht
        exact .of_tokens (.nextFactor op hproduct t ht d .noFactor) (by simp [Derivation.tokens])
      · rw [List.length_append] at hfuel
        obtain ⟨f, hmore, hf⟩ | ⟨e', rest, d', hmore, rfl, hrest⟩ :=
          (h.factors _).cases ((sound stop fuel).factors (.binary op product e)) hr.tail.of_append
            hus (by simp only [Level.margin]; omega)
        · simp only [parseProduct, hop, hread, ok_bind, hmore]
          refine hf.within (t :: d.tokens) (fun d' => ?_) fun vs hhead hopeless => ?_
          · exact .of_tokens (.nextFactor op hproduct t ht d d') rfl
          · exact hopeless.factors_of_factors hproduct ht d (hus.of_head? hhead)
        · simp only [parseProduct, hop, hread, ok_bind, hmore]
          exact hrest

theorem Decides.unary_succ (h : Decides stop fuel) :
    Answers .unary stop (fuel + 1) (parseUnary stop (fuel + 1)) := by
  intro ts hr _ hfuel
  simp only [Level.margin] at hfuel
  have plain (hts : ∀ t ∈ ts.head?, ¬ Matches t (.sign '-'))
      (hread : parseUnary stop (fuel + 1) ts = parsePower stop fuel ts) :
      match parseUnary stop (fuel + 1) ts with
      | .ok (_, rest) => Stops .unary rest
      | .error f => Refuses .unary stop ts f := by
    obtain ⟨f, hpower, hf⟩ | ⟨e, rest, d, hpower, -, hrest⟩ :=
      h.power.cases (sound stop fuel).power hr trivial (by simp only [Level.margin]; omega)
    · rw [hread, hpower]
      refine hf.within [] (fun d => .of_tokens (.plain d) rfl) fun us hhead hopeless => ?_
      exact hopeless.unary_of_power (by rwa [List.nil_append, hhead])
    · rw [hread, hpower]
      exact hrest
  cases ts with
  | nil => exact plain (by simp) rfl
  | cons t ts =>
    simp only [List.length_cons] at hfuel
    by_cases hminus : t.isSign '-' = true
    · have ht := isSign_iff.mp hminus
      obtain ⟨f, hread, hf⟩ | ⟨e, rest, d, hread, -, hrest⟩ :=
        h.unary.cases (sound stop fuel).unary hr.tail trivial (by simp only [Level.margin]; omega)
      · simp only [parseUnary, hminus, if_true, hread, error_bind]
        exact hf.within [t] (fun d => .of_tokens (.minus t ht d) rfl)
          fun us _ hopeless => hopeless.unary_of_minus ht
      · simp only [parseUnary, hminus, if_true, hread, ok_bind]
        exact hrest
    · refine plain ?_ (by simp only [parseUnary, if_neg hminus])
      simpa [isSign_iff] using hminus

theorem Decides.power_succ (h : Decides stop fuel) :
    Answers .power stop (fuel + 1) (parsePower stop (fuel + 1)) := by
  intro ts hr _ hfuel
  simp only [Level.margin] at hfuel
  obtain ⟨f, hread, hf⟩ | ⟨b, us, d, hread, rfl, -⟩ :=
    h.primary.cases (sound stop fuel).primary hr trivial (by simp only [Level.margin]; omega)
  · simp only [parsePower, hread, error_bind]
    exact hf.within [] (fun d => .of_tokens (.base d) rfl)
      fun us _ hopeless => hopeless.power_of_primary
  · cases us with
    | nil =>
      simp only [parsePower, hread, ok_bind]
      exact .nil .power
    | cons t us =>
      simp only [List.length_append, List.length_cons] at hfuel
      by_cases hhat : t.isSign '^' = true
      · have ht := isSign_iff.mp hhat
        obtain ⟨f, hmore, hf⟩ | ⟨e', rest, d', hmore, rfl, hrest⟩ :=
          h.unary.cases (sound stop fuel).unary hr.of_append.tail trivial
            (by simp only [Level.margin]; omega)
        · simp only [parsePower, hread, ok_bind, hhat, if_true, hmore, error_bind]
          rw [List.append_cons]
          refine hf.within (d.tokens ++ [t]) (fun d' => ?_) fun vs _ hopeless => ?_
          · exact .of_tokens (.raised d t ht d') (by simp [Derivation.tokens])
          · rw [← List.append_cons]
            exact hopeless.power_of_exponent d ht
        · simp only [parsePower, hread, ok_bind, hhat, if_true, hmore]
          exact hrest
      · simp only [parsePower, hread, ok_bind, if_neg hhat]
        intro u hu c hc
        obtain rfl : t = u := by simpa using hu
        obtain rfl : c = '^' := by simpa [Level.continuing] using hc
        rwa [← isSign_iff]

/-- A sign is taken off, or something else stands there. -/
theorem expectSign_cases (stop : Nat) (cause : ParseCause) (c : Char) (ts : List Token) :
    (expectSign cause c stop ts = .error ⟨cause, positionOf stop ts⟩ ∧
        ∀ t ∈ ts.head?, ¬ Matches t (.sign c)) ∨
      ∃ t rest, ts = t :: rest ∧ Matches t (.sign c) ∧ expectSign cause c stop ts = .ok rest := by
  cases ts with
  | nil => exact .inl ⟨rfl, by simp⟩
  | cons t rest =>
    by_cases ht : t.isSign c = true
    · exact .inr ⟨t, rest, rfl, isSign_iff.mp ht, by simp only [expectSign, ht, if_true]⟩
    · refine .inl ⟨by simp only [expectSign, if_neg ht, positionOf], ?_⟩
      simpa [isSign_iff] using ht

/-- Behind what opens a primary, an expression and a closing parenthesis are read. -/
theorem Decides.closed (h : Decides stop fuel) {lead ts : List Token} (hlead : Opens lead)
    (hr : Readable ts) (hfuel : 6 * ts.length + 7 ≤ fuel + Level.expr.margin)
    (make : Formula → Formula) :
    match (do
      let (e, rest) ← parseExpr stop fuel ts
      let rest ← expectSign .closingExpected ')' stop rest
      .ok (make e, rest) : Parsed) with
    | .ok (_, rest) => Stops .primary rest
    | .error f => Refuses .primary stop (lead ++ ts) f := by
  obtain ⟨f, hread, hf⟩ | ⟨e, us, d, hread, rfl, hus⟩ :=
    h.expr.cases (sound stop fuel).expr hr trivial hfuel
  · simp only [hread, error_bind]
    exact hf.within lead hlead.completable fun us _ hopeless => hlead.hopeless hopeless
  · obtain ⟨hclosing, hno⟩ | ⟨c, rest, rfl, hc, hclosing⟩ :=
      expectSign_cases stop .closingExpected ')' us
    · simp only [hread, ok_bind, hclosing, error_bind]
      refine ⟨lead ++ d.tokens, us, by simp, rfl, hlead.completable d, fun vs hhead => ?_⟩
      rw [List.append_assoc]
      exact hlead.hopeless_closing d (hus.of_head? hhead) (by rwa [hhead])
    · simp only [hread, ok_bind, hclosing]
      exact .primary rest

theorem Decides.primary_succ (h : Decides stop fuel) :
    Answers .primary stop (fuel + 1) (parsePrimary stop (fuel + 1)) := by
  intro ts hr _ hfuel
  simp only [Level.margin] at hfuel
  cases ts with
  | nil =>
    simp only [parsePrimary]
    refine ⟨[], [], rfl, rfl, completable_nil, fun us hhead => ?_⟩
    obtain rfl : us = [] := by simpa using hhead
    exact .primary_nil
  | cons t ts =>
    simp only [List.length_cons] at hfuel
    -- a token that no primary begins with is refused itself
    have refused (cause : ParseCause) (ht : ∀ a, Matches t a → ∃ c, a = .sign c ∧ c ≠ '(') :
        Refuses .primary stop (t :: ts) ⟨cause, t.position⟩ := by
      refine ⟨[], t :: ts, rfl, rfl, completable_nil, fun us hhead => ?_⟩
      obtain ⟨us, rfl⟩ := List.head?_eq_some_iff.mp hhead
      exact .primary_cons ht us
    cases hk : t.kind with
    | number =>
      simp only [parsePrimary, hk]
      exact .primary ts
    | name =>
      have hm {a} := matches_iff_terminal? hk (a := a)
      cases hw : Word.ofName t.text with
      | «variable» =>
        simp only [parsePrimary, hk, hw]
        exact .primary ts
      | parameter =>
        simp only [parsePrimary, hk, hw]
        exact .primary ts
      | unknown =>
        simp only [parsePrimary, hk, hw]
        refine refused _ fun a ha => ?_
        simp [hm, hw, terminal?] at ha
      | function op =>
        have ht : Matches t (.function op) := hm.mpr (by rw [hw, terminal?])
        obtain ⟨hopen, hno⟩ | ⟨o, us, rfl, ho, hopen⟩ :=
          expectSign_cases stop (.openingExpected t.text) '(' ts
        · simp only [parsePrimary, hk, hw, hopen, error_bind]
          refine ⟨[t], ts, rfl, rfl, completable_function ht, fun us hhead => ?_⟩
          have hus : ∀ o ∈ us.head?, ¬ Matches o (.sign '(') := by rwa [hhead]
          exact .primary_of_function ht hus
        · simp only [parsePrimary, hk, hw, hopen, ok_bind]
          simp only [List.length_cons] at hfuel
          exact h.closed (opens_call ht ho) hr.tail.tail (by simp only [Level.margin]; omega) _
    | sign =>
      by_cases ho : t.isSign '(' = true
      · simp only [parsePrimary, hk, ho, if_true]
        exact h.closed (opens_group (isSign_iff.mp ho)) hr.tail
          (by simp only [Level.margin]; omega) id
      · simp only [parsePrimary, hk, if_neg ho]
        refine refused _ fun a ha => ?_
        cases ha with
        | sign _ hc =>
          refine ⟨_, rfl, ?_⟩
          rintro rfl
          exact ho (isSign_iff.mpr (.sign hk hc))
        | _ => simp_all

theorem decides (stop fuel : Nat) : Decides stop fuel := by
  induction fuel with
  | zero =>
    -- no depth is enough for any tokens
    refine ⟨?_, fun _ => ?_, ?_, fun _ => ?_, ?_, ?_, ?_⟩ <;> intro ts _ _ hfuel <;>
      simp only [Level.margin] at hfuel <;> omega
  | succ fuel ih =>
    exact ⟨ih.expr_succ, ih.terms_succ, ih.term_succ, ih.factors_succ, ih.unary_succ,
      ih.power_succ, ih.primary_succ⟩

end

/-! ## Whole token lists -/

theorem completable_expr_nil : Completable .expr [] :=
  ⟨[⟨.name, "x", 0⟩], variableDerivation, by simp [fillers], rfl⟩

/-- A list that is not read is refused at the first token that no formula goes on with. -/
theorem parseTokens_refuses {list : TokenList} (hr : Readable list.tokens) {f : ParseFault}
    (h : parseTokens list = .error f) :
    ∃ before rest, before ++ rest = list.tokens ∧ f.position = positionOf list.stop rest ∧
      Completable .expr before ∧ ∀ rest', rest'.head? = rest.head? →
        ∀ d : Derivation .expr, d.tokens ≠ before ++ rest' := by
  rw [parseTokens] at h
  split at h
  · rename_i hempty
    cases h
    have hnil : list.tokens = [] := by simpa using hempty
    refine ⟨[], [], hnil.symm, rfl, completable_expr_nil, fun rest' hhead d hd => ?_⟩
    obtain rfl : rest' = [] := by simpa using hhead
    have hpos := d.tokens_pos (by decide)
    simp [hd] at hpos
  · obtain ⟨f', hread, hf⟩ | ⟨e, rest, d, hread, hd, hrest⟩ :=
      (decides list.stop (parseDepth list.tokens.length)).expr.cases (sound _ _).expr hr trivial
        (by simp only [parseDepth, Level.margin]; omega)
    · rw [hread] at h
      cases h
      obtain ⟨before, rest, hsplit, hposition, hbefore, hopeless⟩ := hf
      refine ⟨before, rest, hsplit, hposition, hbefore, fun rest' hhead d hd => ?_⟩
      exact hopeless rest' hhead d [] (by simpa using hd) (.nil .expr)
    · rw [hread, ok_bind] at h
      cases rest with
      | nil => cases h
      | cons t rest =>
        cases h
        refine ⟨d.tokens, t :: rest, hd, rfl, .of_tokens d rfl, fun rest' hhead d' hd' => ?_⟩
        -- a derivation of more tokens would be the one that was read and have no token more
        obtain ⟨-, hrest'⟩ := d'.unique d [] rest' (by simpa using hd') (.nil .expr)
          (hrest.of_head? hhead)
        simp [← hrest'] at hhead

end FormulaSearch.Grammar
