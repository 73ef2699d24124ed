import FormulaSearch.Expr.Parser

/-!
# The grammar of formulas

The grammar is given by its derivations, one constructor per production:

    expr    := term (('+' | '-') term)*
    term    := unary (('*' | '/') unary)*
    unary   := '-' unary | power
    power   := primary ('^' unary)?
    primary := NUMBER | 'x' | PARAMETER | FUNCTION '(' expr ')' | '(' expr ')'

A derivation has the tokens that it derives and the formula that it denotes; the reader is not
mentioned. The main statement of this module is that the grammar is unambiguous: two derivations of a
level with the same tokens, up to what cannot continue the level, are the same derivation.
-/

namespace FormulaSearch.Grammar

open Decimal

/-! ## Terminals -/

/-- The functions by name; `log` is a second name of the natural logarithm. -/
def functions : List (String × UnaryOp) :=
  [ ("exp", .exp), ("ln", .ln), ("log", .ln), ("sqrt", .sqrt), ("sin", .sin), ("cos", .cos),
    ("tan", .tan), ("abs", .abs) ]

/-- One ASCII letter and any number of ASCII digits. -/
def IsLetterWithDigits (name : String) : Prop :=
  ∃ (letter : Char) (digits : List Char), name.toList = letter :: digits ∧
    letter.isAlpha = true ∧ ∀ d ∈ digits, d.isDigit = true

inductive Terminal where
  | number (value : Float)
  | var
  | parameter (name : String)
  | function (op : UnaryOp)
  | sign (c : Char)

/-- The terminal that a token is, if it is one. A name that is neither a function nor the variable nor
a letter with digits is none. -/
inductive Matches : Token → Terminal → Prop where
  | number {t : Token} {value : Float} (hk : t.kind = .number)
      (hv : readFloat? t.text = some value) : Matches t (.number value)
  | var {t : Token} (hk : t.kind = .name) (hx : t.text = "x") : Matches t .var
  | parameter {t : Token} (hk : t.kind = .name) (hx : t.text ≠ "x")
      (hf : t.text ∉ functions.map Prod.fst) (hl : IsLetterWithDigits t.text) :
      Matches t (.parameter t.text)
  | function {t : Token} {op : UnaryOp} (hk : t.kind = .name) (hf : (t.text, op) ∈ functions) :
      Matches t (.function op)
  | sign {t : Token} {c : Char} (hk : t.kind = .sign) (hc : t.text = c.toString) :
      Matches t (.sign c)

/-- The reader's table of functions is the grammar's. -/
theorem mem_functions_iff {name : String} {op : UnaryOp} :
    (name, op) ∈ functions ↔ function? name = some op := by
  constructor
  · intro h
    simp only [functions, List.mem_cons, Prod.mk.injEq, List.not_mem_nil, or_false] at h
    rcases h with ⟨rfl, rfl⟩ | ⟨rfl, rfl⟩ | ⟨rfl, rfl⟩ | ⟨rfl, rfl⟩ | ⟨rfl, rfl⟩ | ⟨rfl, rfl⟩ |
      ⟨rfl, rfl⟩ | ⟨rfl, rfl⟩ <;> decide
  · intro h
    rw [function?] at h
    split at h
    · rename_i hlog
      cases h
      simp [functions, eq_of_beq hlog]
    · obtain ⟨hfind, hneg⟩ := Option.filter_eq_some_iff.mp h
      have hname : op.name = name := by simpa using List.find?_some hfind
      subst hname
      cases op <;> simp_all [functions, UnaryOp.name]

/-- A token is at most one terminal. -/
theorem Matches.unique {t : Token} {a b : Terminal} (ha : Matches t a) (hb : Matches t b) :
    a = b := by
  have hx (op : UnaryOp) : ("x", op) ∉ functions := by cases op <;> decide
  cases ha <;> cases hb <;> simp_all [mem_functions_iff]

/-! ## Derivations -/

/-- The nonterminals; `terms` and `factors` are the starred parts of a sum and of a product. -/
inductive Level where
  | expr | terms | term | factors | unary | power | primary

inductive Derivation : Level → Type where
  | expr (first : Derivation .term) (rest : Derivation .terms) : Derivation .expr
  | noTerm : Derivation .terms
  | nextTerm (op : BinaryOp) (hop : op = .add ∨ op = .sub) (t : Token)
      (h : Matches t (.sign op.sign)) (e : Derivation .term) (rest : Derivation .terms) :
      Derivation .terms
  | term (first : Derivation .unary) (rest : Derivation .factors) : Derivation .term
  | noFactor : Derivation .factors
  | nextFactor (op : BinaryOp) (hop : op = .mul ∨ op = .div) (t : Token)
      (h : Matches t (.sign op.sign)) (e : Derivation .unary) (rest : Derivation .factors) :
      Derivation .factors
  | minus (t : Token) (h : Matches t (.sign '-')) (e : Derivation .unary) : Derivation .unary
  | plain (e : Derivation .power) : Derivation .unary
  | base (e : Derivation .primary) : Derivation .power
  | raised (base : Derivation .primary) (t : Token) (h : Matches t (.sign '^'))
      (exponent : Derivation .unary) : Derivation .power
  | number (value : Float) (t : Token) (h : Matches t (.number value)) : Derivation .primary
  | var (t : Token) (h : Matches t .var) : Derivation .primary
  | parameter (name : String) (t : Token) (h : Matches t (.parameter name)) : Derivation .primary
  | call (op : UnaryOp) (t : Token) (h : Matches t (.function op)) (opening : Token)
      (ho : Matches opening (.sign '(')) (e : Derivation .expr) (closing : Token)
      (hc : Matches closing (.sign ')')) : Derivation .primary
  | group (opening : Token) (ho : Matches opening (.sign '(')) (e : Derivation .expr)
      (closing : Token) (hc : Matches closing (.sign ')')) : Derivation .primary

/-- What a derivation denotes: a formula, and for a starred part what it makes of the formula before
it. -/
abbrev Meaning : Level → Type
  | .terms | .factors => Formula → Formula
  | _ => Formula

namespace Derivation

/-- The derived tokens. -/
@[simp] def tokens {l : Level} : Derivation l → List Token
  | expr first rest | term first rest => first.tokens ++ rest.tokens
  | noTerm | noFactor => []
  | nextTerm _ _ t _ e rest | nextFactor _ _ t _ e rest => t :: (e.tokens ++ rest.tokens)
  | minus t _ e => t :: e.tokens
  | plain e | base e => e.tokens
  | raised b t _ e => b.tokens ++ t :: e.tokens
  | number _ t _ | var t _ | parameter _ t _ => [t]
  | call _ t _ opening _ e closing _ => t :: opening :: (e.tokens ++ [closing])
  | group opening _ e closing _ => opening :: (e.tokens ++ [closing])

/-- The denoted formula. Sums and products associate to the left and powers to the right; a minus
before a constant goes into the constant. -/
@[simp] def meaning {l : Level} : Derivation l → Meaning l
  | expr first rest | term first rest => rest.meaning first.meaning
  | noTerm | noFactor => id
  | nextTerm op _ _ _ e rest | nextFactor op _ _ _ e rest =>
    fun before => rest.meaning (.binary op before e.meaning)
  | minus _ _ e =>
    match e.meaning with
    | .constant v => .constant (-v)
    | f => .unary .neg f
  | plain e | base e => e.meaning
  | raised b _ _ e => .binary .pow b.meaning e.meaning
  | number value _ _ => .constant value
  | var _ _ => .var
  | parameter name _ _ => .parameter name
  | call op _ _ _ _ e _ _ => .unary op e.meaning
  | group _ _ e _ _ => e.meaning

end Derivation

/-! ## What can follow a level -/

/-- The signs that would continue a derivation of the level. -/
def Level.continuing : Level → List Char
  | .expr | .terms => ['+', '-', '*', '/', '^']
  | .term | .factors => ['*', '/', '^']
  | .unary | .power => ['^']
  | .primary => []

/-- No sign at the front of the tokens continues the level. -/
def Stops (l : Level) (rest : List Token) : Prop :=
  ∀ t ∈ rest.head?, ∀ c ∈ l.continuing, ¬ Matches t (.sign c)

theorem Stops.mono {l l' : Level} {rest : List Token} (h : Stops l rest)
    (hsub : l'.continuing ⊆ l.continuing) : Stops l' rest :=
  fun t ht c hc => h t ht c (hsub hc)

theorem Stops.nil (l : Level) : Stops l [] := by
  intro t ht
  simp at ht

/-- Nothing continues a primary. -/
theorem Stops.primary (rest : List Token) : Stops .primary rest := by
  intro t _ c hc
  simp [Level.continuing] at hc

/-- A sign that does not continue a level ends it. -/
theorem Stops.cons {l : Level} {t : Token} {c : Char} (h : Matches t (.sign c))
    (hc : c ∉ l.continuing) (rest : List Token) : Stops l (t :: rest) := by
  intro t' ht c' hc' hm
  simp only [List.head?_cons, Option.mem_some] at ht
  subst ht
  cases h.unique hm
  exact hc hc'

theorem Stops.not_matches {l : Level} {t : Token} {c : Char} {rest : List Token}
    (h : Stops l (t :: rest)) (hc : c ∈ l.continuing) : ¬ Matches t (.sign c) :=
  h t (by simp) c hc

theorem sum_sign_eq {p q : BinaryOp} {t : Token} (hp : p = .add ∨ p = .sub)
    (hq : q = .add ∨ q = .sub) (h : Matches t (.sign p.sign)) (h' : Matches t (.sign q.sign)) :
    p = q := by
  have := h.unique h'
  rcases hp with rfl | rfl <;> rcases hq with rfl | rfl <;> simp_all [BinaryOp.sign]

theorem product_sign_eq {p q : BinaryOp} {t : Token} (hp : p = .mul ∨ p = .div)
    (hq : q = .mul ∨ q = .div) (h : Matches t (.sign p.sign)) (h' : Matches t (.sign q.sign)) :
    p = q := by
  have := h.unique h'
  rcases hp with rfl | rfl <;> rcases hq with rfl | rfl <;> simp_all [BinaryOp.sign]

namespace Derivation

/-- After a first term the further terms, if there are any, begin with a sign of a sum. -/
theorem stops_term (d : Derivation .terms) {rest : List Token} (h : Stops .expr rest) :
    Stops .term (d.tokens ++ rest) := by
  cases d with
  | noTerm => exact h.mono (by simp [Level.continuing])
  | nextTerm op hop t ht e more =>
    exact .cons ht (by rcases hop with rfl | rfl <;> decide) _

theorem stops_unary (d : Derivation .factors) {rest : List Token} (h : Stops .term rest) :
    Stops .unary (d.tokens ++ rest) := by
  cases d with
  | noFactor => exact h.mono (by simp [Level.continuing])
  | nextFactor op hop t ht e more =>
    exact .cons ht (by rcases hop with rfl | rfl <;> decide) _

/-! ## Unambiguity -/

/-- The token that a primary begins with and the terminal that it is. -/
@[simp] def first : Derivation .primary → Token × Terminal
  | number v t _ => (t, .number v)
  | var t _ => (t, .var)
  | parameter n t _ => (t, .parameter n)
  | call op t _ _ _ _ _ _ => (t, .function op)
  | group t _ _ _ _ => (t, .sign '(')

theorem first_matches (d : Derivation .primary) : Matches d.first.1 d.first.2 := by
  cases d <;> assumption

theorem tokens_eq_first_cons (d : Derivation .primary) :
    d.tokens = d.first.1 :: d.tokens.tail := by
  cases d <;> rfl

/-- The first token decides which terminal a primary begins with. -/
theorem first_eq {d d' : Derivation .primary} {rest rest' : List Token}
    (h : d.tokens ++ rest = d'.tokens ++ rest') : d.first = d'.first := by
  rw [d.tokens_eq_first_cons, d'.tokens_eq_first_cons, List.cons_append, List.cons_append] at h
  have ht : d.first.1 = d'.first.1 := (List.cons.inj h).1
  exact Prod.ext ht ((ht ▸ d.first_matches).unique d'.first_matches)

/-- A primary does not begin with a minus. -/
theorem primary_head (d : Derivation .primary) :
    ∃ t more, d.tokens = t :: more ∧ ¬ Matches t (.sign '-') := by
  refine ⟨_, _, d.tokens_eq_first_cons, fun hm => ?_⟩
  have := d.first_matches.unique hm
  cases d <;> simp_all [first]

theorem power_head (d : Derivation .power) :
    ∃ t more, d.tokens = t :: more ∧ ¬ Matches t (.sign '-') := by
  cases d with
  | base e => exact e.primary_head
  | raised b t h e =>
    obtain ⟨u, more, hu, hm⟩ := b.primary_head
    exact ⟨u, more ++ t :: e.tokens, by simp [tokens, hu], hm⟩

/-- The only derivation of its level with its tokens, whatever follows that cannot continue it. -/
def Unique {l : Level} (d : Derivation l) : Prop :=
  ∀ (d' : Derivation l) (rest rest' : List Token), d.tokens ++ rest = d'.tokens ++ rest' →
    Stops l rest → Stops l rest' → d = d' ∧ rest = rest'

theorem unique_expr {first : Derivation .term} {more : Derivation .terms} (hf : first.Unique)
    (hm : more.Unique) : (expr first more).Unique := by
  intro d' rest rest' h hs hs'
  cases d' with
  | expr first' more' =>
    simp only [tokens, List.append_assoc] at h
    obtain ⟨rfl, h'⟩ := hf first' _ _ h (more.stops_term hs) (more'.stops_term hs')
    obtain ⟨rfl, hr⟩ := hm more' _ _ h' hs hs'
    exact ⟨rfl, hr⟩

theorem unique_noTerm : (noTerm).Unique := by
  intro d' rest rest' h hs hs'
  cases d' with
  | noTerm => exact ⟨rfl, h⟩
  | nextTerm op hop t ht e more =>
    simp only [tokens, List.nil_append, List.cons_append] at h
    subst h
    exact absurd ht (hs.not_matches (by rcases hop with rfl | rfl <;> decide))

theorem unique_nextTerm {op : BinaryOp} {hop : op = .add ∨ op = .sub} {t : Token}
    {ht : Matches t (.sign op.sign)} {e : Derivation .term} {more : Derivation .terms}
    (he : e.Unique) (hm : more.Unique) : (nextTerm op hop t ht e more).Unique := by
  intro d' rest rest' h hs hs'
  cases d' with
  | noTerm =>
    simp only [tokens, List.nil_append, List.cons_append] at h
    subst h
    exact absurd ht (hs'.not_matches (by rcases hop with rfl | rfl <;> decide))
  | nextTerm op' hop' t' ht' e' more' =>
    simp only [tokens, List.cons_append, List.append_assoc, List.cons.injEq] at h
    obtain ⟨rfl, h⟩ := h
    obtain ⟨rfl, h'⟩ := he e' _ _ h (more.stops_term hs) (more'.stops_term hs')
    obtain ⟨rfl, hr⟩ := hm more' _ _ h' hs hs'
    cases sum_sign_eq hop hop' ht ht'
    exact ⟨rfl, hr⟩

theorem unique_term {first : Derivation .unary} {more : Derivation .factors} (hf : first.Unique)
    (hm : more.Unique) : (term first more).Unique := by
  intro d' rest rest' h hs hs'
  cases d' with
  | term first' more' =>
    simp only [tokens, List.append_assoc] at h
    obtain ⟨rfl, h'⟩ := hf first' _ _ h (more.stops_unary hs) (more'.stops_unary hs')
    obtain ⟨rfl, hr⟩ := hm more' _ _ h' hs hs'
    exact ⟨rfl, hr⟩

theorem unique_noFactor : (noFactor).Unique := by
  intro d' rest rest' h hs hs'
  cases d' with
  | noFactor => exact ⟨rfl, h⟩
  | nextFactor op hop t ht e more =>
    simp only [tokens, List.nil_append, List.cons_append] at h
    subst h
    exact absurd ht (hs.not_matches (by rcases hop with rfl | rfl <;> decide))

theorem unique_nextFactor {op : BinaryOp} {hop : op = .mul ∨ op = .div} {t : Token}
    {ht : Matches t (.sign op.sign)} {e : Derivation .unary} {more : Derivation .factors}
    (he : e.Unique) (hm : more.Unique) : (nextFactor op hop t ht e more).Unique := by
  intro d' rest rest' h hs hs'
  cases d' with
  | noFactor =>
    simp only [tokens, List.nil_append, List.cons_append] at h
    subst h
    exact absurd ht (hs'.not_matches (by rcases hop with rfl | rfl <;> decide))
  | nextFactor op' hop' t' ht' e' more' =>
    simp only [tokens, List.cons_append, List.append_assoc, List.cons.injEq] at h
    obtain ⟨rfl, h⟩ := h
    obtain ⟨rfl, h'⟩ := he e' _ _ h (more.stops_unary hs) (more'.stops_unary hs')
    obtain ⟨rfl, hr⟩ := hm more' _ _ h' hs hs'
    cases product_sign_eq hop hop' ht ht'
    exact ⟨rfl, hr⟩

theorem unique_minus {t : Token} {ht : Matches t (.sign '-')} {e : Derivation .unary}
    (he : e.Unique) : (minus t ht e).Unique := by
  intro d' rest rest' h hs hs'
  cases d' with
  | minus t' ht' e' =>
    simp only [tokens, List.cons_append, List.cons.injEq] at h
    obtain ⟨rfl, h⟩ := h
    obtain ⟨rfl, hr⟩ := he e' _ _ h hs hs'
    exact ⟨rfl, hr⟩
  | plain e' =>
    obtain ⟨u, more, hu, hm⟩ := e'.power_head
    simp only [tokens, hu, List.cons_append, List.cons.injEq] at h
    exact absurd (h.1 ▸ ht) hm

theorem unique_plain {e : Derivation .power} (he : e.Unique) : (plain e).Unique := by
  intro d' rest rest' h hs hs'
  cases d' with
  | minus t' ht' e' =>
    obtain ⟨u, more, hu, hm⟩ := e.power_head
    simp only [tokens, hu, List.cons_append, List.cons.injEq] at h
    exact absurd (h.1 ▸ ht') hm
  | plain e' =>
    obtain ⟨rfl, hr⟩ := he e' _ _ h hs hs'
    exact ⟨rfl, hr⟩

theorem unique_base {e : Derivation .primary} (he : e.Unique) : (base e).Unique := by
  intro d' rest rest' h hs hs'
  cases d' with
  | base e' =>
    obtain ⟨rfl, hr⟩ := he e' _ _ h (.primary _) (.primary _)
    exact ⟨rfl, hr⟩
  | raised b' t' ht' e' =>
    simp only [tokens, List.append_assoc, List.cons_append] at h
    obtain ⟨-, rfl⟩ := he b' _ _ h (.primary _) (.primary _)
    exact absurd ht' (hs.not_matches (by decide))

theorem unique_raised {b : Derivation .primary} {t : Token} {ht : Matches t (.sign '^')}
    {e : Derivation .unary} (hb : b.Unique) (he : e.Unique) : (raised b t ht e).Unique := by
  intro d' rest rest' h hs hs'
  cases d' with
  | base e' =>
    simp only [tokens, List.append_assoc, List.cons_append] at h
    obtain ⟨-, rfl⟩ := hb e' _ _ h (.primary _) (.primary _)
    exact absurd ht (hs'.not_matches (by decide))
  | raised b' t' ht' e' =>
    simp only [tokens, List.append_assoc, List.cons_append] at h
    obtain ⟨rfl, h'⟩ := hb b' _ _ h (.primary _) (.primary _)
    obtain ⟨rfl, h''⟩ := List.cons.inj h'
    obtain ⟨rfl, hr⟩ := he e' _ _ h'' hs hs'
    exact ⟨rfl, hr⟩

theorem unique_number {v : Float} {t : Token} {ht : Matches t (.number v)} :
    (number v t ht).Unique := by
  intro d' rest rest' h _ _
  have hf := first_eq h
  cases d' <;> simp_all [first, tokens]

theorem unique_var {t : Token} {ht : Matches t .var} : (var t ht).Unique := by
  intro d' rest rest' h _ _
  have hf := first_eq h
  cases d' <;> simp_all [first, tokens]

theorem unique_parameter {n : String} {t : Token} {ht : Matches t (.parameter n)} :
    (parameter n t ht).Unique := by
  intro d' rest rest' h _ _
  have hf := first_eq h
  cases d' <;> simp_all [first, tokens]

theorem unique_call {op : UnaryOp} {t : Token} {ht : Matches t (.function op)} {o : Token}
    {ho : Matches o (.sign '(')} {e : Derivation .expr} {c : Token} {hc : Matches c (.sign ')')}
    (he : e.Unique) : (call op t ht o ho e c hc).Unique := by
  intro d' rest rest' h _ _
  have hf := first_eq h
  cases d' with
  | call op' t' ht' o' ho' e' c' hc' =>
    simp only [tokens, List.cons_append, List.append_assoc, List.cons.injEq] at h
    obtain ⟨rfl, rfl, h⟩ := h
    obtain ⟨rfl, h'⟩ := he e' _ _ h (.cons hc (by decide) _) (.cons hc' (by decide) _)
    simp_all [first]
  | _ => simp [first] at hf

theorem unique_group {o : Token} {ho : Matches o (.sign '(')} {e : Derivation .expr} {c : Token}
    {hc : Matches c (.sign ')')} (he : e.Unique) : (group o ho e c hc).Unique := by
  intro d' rest rest' h _ _
  have hf := first_eq h
  cases d' with
  | group o' ho' e' c' hc' =>
    simp only [tokens, List.cons_append, List.append_assoc, List.cons.injEq] at h
    obtain ⟨rfl, h⟩ := h
    obtain ⟨rfl, h'⟩ := he e' _ _ h (.cons hc (by decide) _) (.cons hc' (by decide) _)
    simp_all
  | _ => simp [first] at hf

/-- Every derivation is the only one of its level with its tokens. -/
theorem unique {l : Level} (d : Derivation l) : d.Unique := by
  -- the tokens that follow are part of the statement, so the parts can be told apart one by one
  induction d with
  | expr _ _ ihf ihm => exact unique_expr ihf ihm
  | noTerm => exact unique_noTerm
  | nextTerm _ _ _ _ _ _ ihe ihm => exact unique_nextTerm ihe ihm
  | term _ _ ihf ihm => exact unique_term ihf ihm
  | noFactor => exact unique_noFactor
  | nextFactor _ _ _ _ _ _ ihe ihm => exact unique_nextFactor ihe ihm
  | minus _ _ _ ih => exact unique_minus ih
  | plain _ ih => exact unique_plain ih
  | base _ ih => exact unique_base ih
  | raised _ _ _ _ ihb ihe => exact unique_raised ihb ihe
  | number => exact unique_number
  | var => exact unique_var
  | parameter => exact unique_parameter
  | call _ _ _ _ _ _ _ _ ih => exact unique_call ih
  | group _ _ _ _ _ ih => exact unique_group ih

/-- The grammar is unambiguous. -/
theorem eq_of_tokens_eq {d d' : Derivation .expr} (h : d.tokens = d'.tokens) : d = d' :=
  (d.unique d' [] [] (by simp [h]) (.nil _) (.nil _)).1

end Derivation

end FormulaSearch.Grammar
