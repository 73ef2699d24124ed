import FormulaSearch.Proofs.Expr.Grammar
import FormulaSearch.Proofs.Failure

/-!
# The reader accepts the grammar

The reader succeeds on exactly the token lists that the grammar derives, and returns the formula that
the derivation denotes. Both directions go level by level. What a level reads is derived by the
grammar: by induction on the depth that the reader is given. What is derived is read: by induction on
the derivation, in front of tokens that cannot continue its level, for any depth that is at least the
derivation's own. A derivation of so many tokens is never deeper than the reader's depth for them.
-/

namespace FormulaSearch.Grammar

open Decimal

/-! ## Tokens as the reader sees them -/

theorem isSign_iff {t : Token} {c : Char} : t.isSign c = true ↔ Matches t (.sign c) := by
  constructor
  · intro h
    simp only [Token.isSign, Bool.and_eq_true, beq_iff_eq] at h
    exact .sign h.1 h.2
  · intro h
    cases h with
    | sign hk hc => simp [Token.isSign, hk, hc]

/-- Choosing between two operators by their signs. -/
theorem choice_eq_some_iff {p q : BinaryOp} (hpq : p.sign ≠ q.sign) {t : Token} {op : BinaryOp} :
    (if t.isSign p.sign then some p else if t.isSign q.sign then some q else none) = some op ↔
      (op = p ∨ op = q) ∧ Matches t (.sign op.sign) := by
  constructor
  · intro h
    split at h
    · rename_i hp
      cases h
      exact ⟨.inl rfl, isSign_iff.mp hp⟩
    · split at h
      · rename_i hq
        cases h
        exact ⟨.inr rfl, isSign_iff.mp hq⟩
      · cases h
  · rintro ⟨rfl | rfl, h⟩
    · rw [if_pos (isSign_iff.mpr h)]
    · have hp : ¬ t.isSign p.sign = true := by
        intro hp
        have := (isSign_iff.mp hp).unique h
        simp_all
      rw [if_neg hp, if_pos (isSign_iff.mpr h)]

theorem sumOp?_eq_some_iff {t : Token} {op : BinaryOp} :
    sumOp? t = some op ↔ (op = .add ∨ op = .sub) ∧ Matches t (.sign op.sign) :=
  @choice_eq_some_iff .add .sub (by decide) t op

theorem productOp?_eq_some_iff {t : Token} {op : BinaryOp} :
    productOp? t = some op ↔ (op = .mul ∨ op = .div) ∧ Matches t (.sign op.sign) :=
  @choice_eq_some_iff .mul .div (by decide) t op

theorem isParameterName_iff {name : String} :
    isParameterName name = true ↔ IsLetterWithDigits name := by
  rw [isParameterName, IsLetterWithDigits]
  cases name.toList <;> grind

/-- The terminal of a word. -/
def terminal? (name : String) : Word → Option Terminal
  | .function op => some (.function op)
  | .variable => some .var
  | .parameter => some (.parameter name)
  | .unknown => none

/-- A name is the terminal that the reader takes it for. -/
theorem matches_iff_terminal? {t : Token} (hk : t.kind = .name) {a : Terminal} :
    Matches t a ↔ terminal? t.text (Word.ofName t.text) = some a := by
  rw [Word.ofName]
  cases hf : function? t.text with
  | some op =>
    have hm : Matches t (.function op) := .function hk (mem_functions_iff.mpr hf)
    exact ⟨fun h => congrArg some (hm.unique h), fun h => Option.some.inj h ▸ hm⟩
  | none =>
    have hno : t.text ∉ functions.map Prod.fst := by
      intro hmem
      obtain ⟨⟨n, op⟩, hmem, rfl⟩ := List.mem_map.mp hmem
      simp [mem_functions_iff.mp hmem] at hf
    by_cases hx : t.text = "x"
    · have hm : Matches t .var := .var hk hx
      rw [if_pos (by simp [variableName, hx])]
      exact ⟨fun h => congrArg some (hm.unique h), fun h => Option.some.inj h ▸ hm⟩
    · rw [if_neg (by simp [variableName, hx])]
      by_cases hl : IsLetterWithDigits t.text
      · have hm : Matches t (.parameter t.text) := .parameter hk hx hno hl
        rw [if_pos (isParameterName_iff.mpr hl)]
        exact ⟨fun h => congrArg some (hm.unique h), fun h => Option.some.inj h ▸ hm⟩
      · rw [if_neg (mt isParameterName_iff.mp hl)]
        constructor
        · intro h
          cases h with
          | number hk' => simp_all
          | var _ hx' => exact absurd hx' hx
          | parameter _ _ _ hl' => exact absurd hl' hl
          | function _ hmem => exact absurd (List.mem_map_of_mem hmem) hno
          | sign hk' => simp_all
        · intro h
          cases h

theorem negate_meaning {t : Token} (h : Matches t (.sign '-')) (d : Derivation .unary) :
    (Derivation.minus t h d).meaning = negate d.meaning := by
  rw [Derivation.meaning]
  generalize (d.meaning : Formula) = f
  cases f <;> rfl

/-! ## What is read is derived -/

/-- Every number token can be read as a number. -/
def Readable (ts : List Token) : Prop :=
  ∀ t ∈ ts, t.kind = .number → ∃ v, readFloat? t.text = some v

theorem Readable.of_append {ts us : List Token} (h : Readable (ts ++ us)) : Readable us :=
  fun t ht => h t (List.mem_append_right ts ht)

theorem Readable.tail {t : Token} {ts : List Token} (h : Readable (t :: ts)) : Readable ts :=
  @Readable.of_append [t] ts h

/-- What a reader takes off readable tokens is derived at a level. -/
def SoundAt (l : Level) (read : List Token → Parsed) (meaning : Derivation l → Formula) : Prop :=
  ∀ ts e rest, Readable ts → read ts = .ok (e, rest) →
    ∃ d : Derivation l, d.tokens ++ rest = ts ∧ meaning d = e

/-- Each level of the reader, given some depth, takes off what the grammar derives there. -/
structure Sound (stop fuel : Nat) : Prop where
  expr : SoundAt .expr (parseExpr stop fuel) fun d => d.meaning
  terms : ∀ sum, SoundAt .terms (parseSum stop fuel sum) fun d => d.meaning sum
  term : SoundAt .term (parseTerm stop fuel) fun d => d.meaning
  factors : ∀ product, SoundAt .factors (parseProduct stop fuel product) fun d => d.meaning product
  unary : SoundAt .unary (parseUnary stop fuel) fun d => d.meaning
  power : SoundAt .power (parsePower stop fuel) fun d => d.meaning
  primary : SoundAt .primary (parsePrimary stop fuel) fun d => d.meaning

section

variable {stop fuel : Nat}

theorem Sound.expr_succ (h : Sound stop fuel) :
    SoundAt .expr (parseExpr stop (fuel + 1)) fun d => d.meaning := by
  intro ts e rest hr hok
  rw [parseExpr, bind_eq_ok_iff] at hok
  obtain ⟨⟨first, more⟩, hf, hm⟩ := hok
  obtain ⟨df, rfl, rfl⟩ := h.term _ _ _ hr hf
  obtain ⟨dm, rfl, rfl⟩ := h.terms _ _ _ _ hr.of_append hm
  exact ⟨.expr df dm, by simp [Derivation.tokens], rfl⟩

theorem Sound.terms_succ (h : Sound stop fuel) (sum : Formula) :
    SoundAt .terms (parseSum stop (fuel + 1) sum) fun d => d.meaning sum := by
  intro ts e rest hr hok
  cases ts with
  | nil =>
    cases hok
    exact ⟨.noTerm, rfl, rfl⟩
  | cons t ts =>
    rw [parseSum] at hok
    cases hop : sumOp? t with
    | none =>
      rw [hop] at hok
      cases hok
      exact ⟨.noTerm, rfl, rfl⟩
    | some op =>
      rw [hop] at hok
      obtain ⟨⟨e', more⟩, he, hm⟩ := bind_eq_ok_iff.mp hok
      obtain ⟨hsum, ht⟩ := sumOp?_eq_some_iff.mp hop
      obtain ⟨de, rfl, rfl⟩ := h.term _ _ _ hr.tail he
      obtain ⟨dm, rfl, rfl⟩ := h.terms _ _ _ _ hr.tail.of_append hm
      exact ⟨.nextTerm op hsum t ht de dm, by simp [Derivation.tokens], rfl⟩

theorem Sound.term_succ (h : Sound stop fuel) :
    SoundAt .term (parseTerm stop (fuel + 1)) fun d => d.meaning := by
  intro ts e rest hr hok
  rw [parseTerm, bind_eq_ok_iff] at hok
  obtain ⟨⟨first, more⟩, hf, hm⟩ := hok
  obtain ⟨df, rfl, rfl⟩ := h.unary _ _ _ hr hf
  obtain ⟨dm, rfl, rfl⟩ := h.factors _ _ _ _ hr.of_append hm
  exact ⟨.term df dm, by simp [Derivation.tokens], rfl⟩

theorem Sound.factors_succ (h : Sound stop fuel) (product : Formula) :
    SoundAt .factors (parseProduct stop (fuel + 1) product) fun d => d.meaning product := by
  intro ts e rest hr hok
  cases ts with
  | nil =>
    cases hok
    exact ⟨.noFactor, rfl, rfl⟩
  | cons t ts =>
    rw [parseProduct] at hok
    cases hop : productOp? t with
    | none =>
      rw [hop] at hok
      cases hok
      exact ⟨.noFactor, rfl, rfl⟩
    | some op =>
      rw [hop] at hok
      obtain ⟨⟨e', more⟩, he, hm⟩ := bind_eq_ok_iff.mp hok
      obtain ⟨hproduct, ht⟩ := productOp?_eq_some_iff.mp hop
      obtain ⟨de, rfl, rfl⟩ := h.unary _ _ _ hr.tail he
      obtain ⟨dm, rfl, rfl⟩ := h.factors _ _ _ _ hr.tail.of_append hm
      exact ⟨.nextFactor op hproduct t ht de dm, by simp [Derivation.tokens], rfl⟩

theorem Sound.unary_succ (h : Sound stop fuel) :
    SoundAt .unary (parseUnary stop (fuel + 1)) fun d => d.meaning := by
  intro ts e rest hr hok
  cases ts with
  | nil =>
    obtain ⟨d, hd, rfl⟩ := h.power _ _ _ hr hok
    exact ⟨.plain d, hd, rfl⟩
  | cons t ts =>
    rw [parseUnary] at hok
    split at hok
    · rename_i ht
      obtain ⟨⟨e', more⟩, he, hm⟩ := bind_eq_ok_iff.mp hok
      obtain ⟨d, rfl, rfl⟩ := h.unary _ _ _ hr.tail he
      cases hm
      exact ⟨.minus t (isSign_iff.mp ht) d, rfl, negate_meaning _ d⟩
    · obtain ⟨d, hd, rfl⟩ := h.power _ _ _ hr hok
      exact ⟨.plain d, hd, rfl⟩

theorem Sound.power_succ (h : Sound stop fuel) :
    SoundAt .power (parsePower stop (fuel + 1)) fun d => d.meaning := by
  intro ts e rest hr hok
  rw [parsePower, bind_eq_ok_iff] at hok
  obtain ⟨⟨b, more⟩, hb, hm⟩ := hok
  obtain ⟨db, rfl, rfl⟩ := h.primary _ _ _ hr hb
  cases more with
  | nil =>
    cases hm
    exact ⟨.base db, rfl, rfl⟩
  | cons t more =>
    dsimp only at hm
    split at hm
    · rename_i ht
      obtain ⟨⟨e', rest'⟩, he, hm⟩ := bind_eq_ok_iff.mp hm
      obtain ⟨de, rfl, rfl⟩ := h.unary _ _ _ hr.of_append.tail he
      cases hm
      exact ⟨.raised db t (isSign_iff.mp ht) de, by simp [Derivation.tokens], rfl⟩
    · cases hm
      exact ⟨.base db, rfl, rfl⟩

theorem expectSign_eq_ok_iff {cause : ParseCause} {c : Char} {ts rest : List Token} :
    expectSign cause c stop ts = .ok rest ↔ ∃ t, Matches t (.sign c) ∧ ts = t :: rest := by
  cases ts with
  | nil => simp [expectSign]
  | cons t ts =>
    rw [expectSign]
    split
    · rename_i ht
      constructor
      · rintro ⟨⟩
        exact ⟨t, isSign_iff.mp ht, rfl⟩
      · rintro ⟨u, -, hu⟩
        cases hu
        rfl
    · rename_i ht
      constructor
      · rintro ⟨⟩
      · rintro ⟨u, hm, hu⟩
        cases hu
        exact absurd (isSign_iff.mpr hm) ht

theorem Sound.primary_succ (h : Sound stop fuel) :
    SoundAt .primary (parsePrimary stop (fuel + 1)) fun d => d.meaning := by
  intro ts e rest hr hok
  cases ts with
  | nil => cases hok
  | cons t ts =>
    rw [parsePrimary] at hok
    cases hk : t.kind with
    | number =>
      rw [hk] at hok
      obtain ⟨v, hv⟩ := hr t (by simp) hk
      cases hok
      exact ⟨.number v t (.number hk hv), rfl, by simp [Derivation.meaning, hv]⟩
    | name =>
      have hm {a} := matches_iff_terminal? hk (a := a)
      rw [hk] at hok
      dsimp only at hok
      cases hw : Word.ofName t.text with
      | «variable» =>
        rw [hw] at hok hm
        cases hok
        exact ⟨.var t (hm.mpr rfl), rfl, rfl⟩
      | parameter =>
        rw [hw] at hok hm
        cases hok
        exact ⟨.parameter t.text t (hm.mpr rfl), rfl, rfl⟩
      | unknown =>
        rw [hw] at hok
        cases hok
      | function op =>
        rw [hw] at hok hm
        obtain ⟨us, hopen, hinner⟩ := bind_eq_ok_iff.mp hok
        obtain ⟨o, ho, rfl⟩ := expectSign_eq_ok_iff.mp hopen
        obtain ⟨⟨e', more⟩, he, hrest⟩ := bind_eq_ok_iff.mp hinner
        obtain ⟨de, rfl, rfl⟩ := h.expr _ _ _ hr.tail.tail he
        obtain ⟨ws, hclose, hend⟩ := bind_eq_ok_iff.mp hrest
        obtain ⟨c, hc, rfl⟩ := expectSign_eq_ok_iff.mp hclose
        cases hend
        exact ⟨.call op t (hm.mpr rfl) o ho de c hc, by simp [Derivation.tokens], rfl⟩
    | sign =>
      rw [hk] at hok
      dsimp only at hok
      split at hok
      · rename_i ho
        obtain ⟨⟨e', more⟩, he, hrest⟩ := bind_eq_ok_iff.mp hok
        obtain ⟨de, rfl, rfl⟩ := h.expr _ _ _ hr.tail he
        obtain ⟨ws, hclose, hend⟩ := bind_eq_ok_iff.mp hrest
        obtain ⟨c, hc, rfl⟩ := expectSign_eq_ok_iff.mp hclose
        cases hend
        exact ⟨.group t (isSign_iff.mp ho) de c hc, by simp [Derivation.tokens], rfl⟩
      · cases hok

theorem sound (stop fuel : Nat) : Sound stop fuel := by
  induction fuel with
  | zero =>
    -- without depth only the starred parts succeed, on no tokens
    refine ⟨?_, ?_, ?_, ?_, ?_, ?_, ?_⟩
    · rintro ts e rest - ⟨⟩
    · rintro sum (_ | ⟨t, ts⟩) e rest - ⟨⟩
      exact ⟨.noTerm, rfl, rfl⟩
    · rintro ts e rest - ⟨⟩
    · rintro product (_ | ⟨t, ts⟩) e rest - ⟨⟩
      exact ⟨.noFactor, rfl, rfl⟩
    · rintro ts e rest - ⟨⟩
    · rintro ts e rest - ⟨⟩
    · rintro ts e rest - ⟨⟩
  | succ fuel ih =>
    exact ⟨ih.expr_succ, ih.terms_succ, ih.term_succ, ih.factors_succ, ih.unary_succ,
      ih.power_succ, ih.primary_succ⟩

end

/-! ## What is derived is read -/

/-- The depth at which a derivation is read: one more than that of its deepest part. -/
@[simp] def Derivation.depth {l : Level} : Derivation l → Nat
  | expr first rest | term first rest => max first.depth rest.depth + 1
  | nextTerm _ _ _ _ e rest | nextFactor _ _ _ _ e rest => max e.depth rest.depth + 1
  | minus _ _ e | plain e | base e | call _ _ _ _ _ e _ _ | group _ _ e _ _ => e.depth + 1
  | raised b _ _ e => max b.depth e.depth + 1
  | noTerm | noFactor | number _ _ _ | var _ _ | parameter _ _ _ => 1

/-- The reader of a level takes a part with a meaning off the tokens. -/
def Reads (stop fuel : Nat) : (l : Level) → Meaning l → List Token → List Token → Prop
  | .expr, e, ts, rest => parseExpr stop fuel ts = .ok (e, rest)
  | .terms, f, ts, rest => ∀ sum, parseSum stop fuel sum ts = .ok (f sum, rest)
  | .term, e, ts, rest => parseTerm stop fuel ts = .ok (e, rest)
  | .factors, f, ts, rest => ∀ product, parseProduct stop fuel product ts = .ok (f product, rest)
  | .unary, e, ts, rest => parseUnary stop fuel ts = .ok (e, rest)
  | .power, e, ts, rest => parsePower stop fuel ts = .ok (e, rest)
  | .primary, e, ts, rest => parsePrimary stop fuel ts = .ok (e, rest)

/-- The tokens of a derivation are read at its depth, whatever follows that cannot continue it. -/
def Derivation.Complete (stop : Nat) {l : Level} (d : Derivation l) : Prop :=
  ∀ fuel rest, d.depth ≤ fuel + 1 → Stops l rest →
    Reads stop (fuel + 1) l d.meaning (d.tokens ++ rest) rest

namespace Derivation

theorem depth_pos {l : Level} (d : Derivation l) : 0 < d.depth := by
  cases d <;> simp [depth]

variable {stop : Nat}

/-- At any depth that is at least the derivation's. -/
theorem Complete.at_depth {l : Level} {d : Derivation l} (h : d.Complete stop) {fuel : Nat}
    {rest : List Token} (hd : d.depth ≤ fuel) (hs : Stops l rest) :
    Reads stop fuel l d.meaning (d.tokens ++ rest) rest := by
  obtain ⟨n, rfl⟩ := Nat.exists_eq_add_of_lt (Nat.lt_of_lt_of_le d.depth_pos hd)
  rw [Nat.zero_add] at *
  exact h n rest hd hs

theorem complete_expr {first : Derivation .term} {more : Derivation .terms}
    (hf : first.Complete stop) (hm : more.Complete stop) : (expr first more).Complete stop := by
  intro fuel rest hd hs
  simp only [depth, Nat.add_le_add_iff_right, Nat.max_le] at hd
  have h₁ : parseTerm stop fuel (first.tokens ++ (more.tokens ++ rest)) = _ :=
    hf.at_depth hd.1 (more.stops_term hs)
  have h₂ : ∀ sum, parseSum stop fuel sum (more.tokens ++ rest) = _ := hm.at_depth hd.2 hs
  simp only [Reads, tokens, List.append_assoc, parseExpr, h₁, ok_bind, h₂, meaning]

theorem complete_noTerm : (noTerm).Complete stop := by
  intro fuel rest _ hs sum
  cases rest with
  | nil => rfl
  | cons t rest =>
    have hno : sumOp? t = none := by
      refine Option.eq_none_iff_forall_ne_some.mpr fun op hop => ?_
      obtain ⟨hsum, ht⟩ := sumOp?_eq_some_iff.mp hop
      exact hs.not_matches (by rcases hsum with rfl | rfl <;> decide) ht
    simp only [tokens, List.nil_append, parseSum, hno, meaning, id]

theorem complete_nextTerm {op : BinaryOp} {hop : op = .add ∨ op = .sub} {t : Token}
    {ht : Matches t (.sign op.sign)} {e : Derivation .term} {more : Derivation .terms}
    (he : e.Complete stop) (hm : more.Complete stop) :
    (nextTerm op hop t ht e more).Complete stop := by
  intro fuel rest hd hs sum
  simp only [depth, Nat.add_le_add_iff_right, Nat.max_le] at hd
  have hsign : sumOp? t = some op := sumOp?_eq_some_iff.mpr ⟨hop, ht⟩
  have h₁ : parseTerm stop fuel (e.tokens ++ (more.tokens ++ rest)) = _ :=
    he.at_depth hd.1 (more.stops_term hs)
  have h₂ : ∀ sum, parseSum stop fuel sum (more.tokens ++ rest) = _ := hm.at_depth hd.2 hs
  simp only [tokens, List.cons_append, List.append_assoc, parseSum, hsign, h₁, ok_bind, h₂,
    meaning]

theorem complete_term {first : Derivation .unary} {more : Derivation .factors}
    (hf : first.Complete stop) (hm : more.Complete stop) : (term first more).Complete stop := by
  intro fuel rest hd hs
  simp only [depth, Nat.add_le_add_iff_right, Nat.max_le] at hd
  have h₁ : parseUnary stop fuel (first.tokens ++ (more.tokens ++ rest)) = _ :=
    hf.at_depth hd.1 (more.stops_unary hs)
  have h₂ : ∀ product, parseProduct stop fuel product (more.tokens ++ rest) = _ :=
    hm.at_depth hd.2 hs
  simp only [Reads, tokens, List.append_assoc, parseTerm, h₁, ok_bind, h₂, meaning]

theorem complete_noFactor : (noFactor).Complete stop := by
  intro fuel rest _ hs product
  cases rest with
  | nil => rfl
  | cons t rest =>
    have hno : productOp? t = none := by
      refine Option.eq_none_iff_forall_ne_some.mpr fun op hop => ?_
      obtain ⟨hproduct, ht⟩ := productOp?_eq_some_iff.mp hop
      exact hs.not_matches (by rcases hproduct with rfl | rfl <;> decide) ht
    simp only [tokens, List.nil_append, parseProduct, hno, meaning, id]

theorem complete_nextFactor {op : BinaryOp} {hop : op = .mul ∨ op = .div} {t : Token}
    {ht : Matches t (.sign op.sign)} {e : Derivation .unary} {more : Derivation .factors}
    (he : e.Complete stop) (hm : more.Complete stop) :
    (nextFactor op hop t ht e more).Complete stop := by
  intro fuel rest hd hs product
  simp only [depth, Nat.add_le_add_iff_right, Nat.max_le] at hd
  have hsign : productOp? t = some op := productOp?_eq_some_iff.mpr ⟨hop, ht⟩
  have h₁ : parseUnary stop fuel (e.tokens ++ (more.tokens ++ rest)) = _ :=
    he.at_depth hd.1 (more.stops_unary hs)
  have h₂ : ∀ product, parseProduct stop fuel product (more.tokens ++ rest) = _ :=
    hm.at_depth hd.2 hs
  simp only [tokens, List.cons_append, List.append_assoc, parseProduct, hsign, h₁, ok_bind, h₂,
    meaning]

theorem complete_minus {t : Token} {ht : Matches t (.sign '-')} {e : Derivation .unary}
    (he : e.Complete stop) : (minus t ht e).Complete stop := by
  intro fuel rest hd hs
  have h₁ : parseUnary stop fuel (e.tokens ++ rest) = _ :=
    he.at_depth (Nat.le_of_succ_le_succ hd) hs
  simp only [Reads, tokens, List.cons_append, parseUnary, isSign_iff.mpr ht, if_true, h₁, ok_bind,
    negate_meaning]

theorem complete_plain {e : Derivation .power} (he : e.Complete stop) :
    (plain e).Complete stop := by
  intro fuel rest hd hs
  have h₁ : parsePower stop fuel (e.tokens ++ rest) = _ :=
    he.at_depth (Nat.le_of_succ_le_succ hd) hs
  -- a power does not begin with a minus, so the reader goes on to the level of powers
  obtain ⟨t, more, hhead, hno⟩ := e.power_head
  have hsign : ¬ t.isSign '-' = true := mt isSign_iff.mp hno
  simp only [hhead, List.cons_append] at h₁
  simp only [Reads, tokens, hhead, List.cons_append, parseUnary, if_neg hsign, h₁, meaning]

theorem complete_base {e : Derivation .primary} (he : e.Complete stop) :
    (base e).Complete stop := by
  intro fuel rest hd hs
  have h₁ : parsePrimary stop fuel (e.tokens ++ rest) = _ :=
    he.at_depth (Nat.le_of_succ_le_succ hd) (.primary rest)
  cases rest with
  | nil => simp only [Reads, tokens, parsePower, h₁, ok_bind, meaning]
  | cons t rest =>
    have hsign : ¬ t.isSign '^' = true :=
      mt isSign_iff.mp (hs.not_matches (by decide))
    simp only [Reads, tokens, parsePower, h₁, ok_bind, if_neg hsign, meaning]

theorem complete_raised {b : Derivation .primary} {t : Token} {ht : Matches t (.sign '^')}
    {e : Derivation .unary} (hb : b.Complete stop) (he : e.Complete stop) :
    (raised b t ht e).Complete stop := by
  intro fuel rest hd hs
  simp only [depth, Nat.add_le_add_iff_right, Nat.max_le] at hd
  have h₁ : parsePrimary stop fuel (b.tokens ++ t :: (e.tokens ++ rest)) = _ :=
    hb.at_depth hd.1 (.primary _)
  have h₂ : parseUnary stop fuel (e.tokens ++ rest) = _ := he.at_depth hd.2 hs
  simp only [Reads, tokens, List.append_assoc, List.cons_append, parsePower, h₁, ok_bind,
    isSign_iff.mpr ht, if_true, h₂, meaning]

theorem complete_number {v : Float} {t : Token} {ht : Matches t (.number v)} :
    (number v t ht).Complete stop := by
  intro fuel rest _ _
  cases ht with
  | number hk hv =>
    simp only [Reads, tokens, List.cons_append, List.nil_append, parsePrimary, hk, hv,
      Option.getD_some, meaning]

theorem complete_var {t : Token} {ht : Matches t .var} : (var t ht).Complete stop := by
  intro fuel rest _ _
  have hk : t.kind = .name := by cases ht; assumption
  have hw : Word.ofName t.text = .variable := by
    have := (matches_iff_terminal? hk).mp ht
    cases hw : Word.ofName t.text <;> simp_all [terminal?]
  simp only [Reads, tokens, List.cons_append, List.nil_append, parsePrimary, hk, hw, meaning]

theorem complete_parameter {n : String} {t : Token} {ht : Matches t (.parameter n)} :
    (parameter n t ht).Complete stop := by
  intro fuel rest _ _
  have hk : t.kind = .name := by cases ht; assumption
  obtain ⟨hw, rfl⟩ : Word.ofName t.text = .parameter ∧ t.text = n := by
    have := (matches_iff_terminal? hk).mp ht
    cases hw : Word.ofName t.text <;> simp_all [terminal?]
  simp only [Reads, tokens, List.cons_append, List.nil_append, parsePrimary, hk, hw, meaning]

theorem expectSign_cons {cause : ParseCause} {t : Token} {c : Char} (h : Matches t (.sign c))
    (rest : List Token) : expectSign cause c stop (t :: rest) = .ok rest :=
  expectSign_eq_ok_iff.mpr ⟨t, h, rfl⟩

theorem complete_call {op : UnaryOp} {t : Token} {ht : Matches t (.function op)} {o : Token}
    {ho : Matches o (.sign '(')} {e : Derivation .expr} {c : Token} {hc : Matches c (.sign ')')}
    (he : e.Complete stop) : (call op t ht o ho e c hc).Complete stop := by
  intro fuel rest hd _
  have hk : t.kind = .name := by cases ht; assumption
  have hw : Word.ofName t.text = .function op := by
    have := (matches_iff_terminal? hk).mp ht
    cases hw : Word.ofName t.text <;> simp_all [terminal?]
  have h₁ : parseExpr stop fuel (e.tokens ++ c :: rest) = _ :=
    he.at_depth (Nat.le_of_succ_le_succ hd) (.cons hc (by decide) rest)
  simp only [Reads, tokens, List.cons_append, List.append_assoc, List.nil_append, parsePrimary, hk,
    hw, expectSign_cons ho, ok_bind, h₁, expectSign_cons hc, meaning]

theorem complete_group {o : Token} {ho : Matches o (.sign '(')} {e : Derivation .expr} {c : Token}
    {hc : Matches c (.sign ')')} (he : e.Complete stop) : (group o ho e c hc).Complete stop := by
  intro fuel rest hd _
  have hk : o.kind = .sign := by cases ho; assumption
  have h₁ : parseExpr stop fuel (e.tokens ++ c :: rest) = _ :=
    he.at_depth (Nat.le_of_succ_le_succ hd) (.cons hc (by decide) rest)
  simp only [Reads, tokens, List.cons_append, List.append_assoc, List.nil_append, parsePrimary, hk,
    isSign_iff.mpr ho, if_true, h₁, ok_bind, expectSign_cons hc, meaning]

theorem complete {l : Level} (d : Derivation l) : d.Complete stop := by
  induction d with
  | expr _ _ ihf ihm => exact complete_expr ihf ihm
  | noTerm => exact complete_noTerm
  | nextTerm _ _ _ _ _ _ ihe ihm => exact complete_nextTerm ihe ihm
  | term _ _ ihf ihm => exact complete_term ihf ihm
  | noFactor => exact complete_noFactor
  | nextFactor _ _ _ _ _ _ ihe ihm => exact complete_nextFactor ihe ihm
  | minus _ _ _ ih => exact complete_minus ih
  | plain _ ih => exact complete_plain ih
  | base _ ih => exact complete_base ih
  | raised _ _ _ _ ihb ihe => exact complete_raised ihb ihe
  | number => exact complete_number
  | var => exact complete_var
  | parameter => exact complete_parameter
  | call _ _ _ _ _ _ _ _ ih => exact complete_call ih
  | group _ _ _ _ _ ih => exact complete_group ih

end Derivation

/-! ## The reader's depth is enough -/

/-- How far a level is above the primaries: each level in between takes one from six. -/
def Level.margin : Level → Nat
  | .expr => 2
  | .term => 3
  | .unary => 4
  | .power => 5
  | .primary => 6
  | .terms | .factors => 0

theorem Derivation.depth_le {l : Level} (d : Derivation l) :
    d.depth + l.margin ≤ 6 * d.tokens.length + 1 := by
  induction d <;> simp_all [depth, tokens, Level.margin] <;> omega

/-! ## Whole token lists -/

/-- The reader succeeds on the token lists that the grammar derives and returns what they denote. -/
theorem parseTokens_eq_ok_iff {list : TokenList} (hr : Readable list.tokens) {e : Formula} :
    parseTokens list = .ok e ↔
      ∃ d : Derivation .expr, d.tokens = list.tokens ∧ d.meaning = e := by
  rw [parseTokens]
  constructor
  · intro h
    split at h
    · cases h
    · obtain ⟨⟨f, rest⟩, hf, hrest⟩ := bind_eq_ok_iff.mp h
      obtain ⟨d, hd, rfl⟩ := (sound _ _).expr _ _ _ hr hf
      cases rest with
      | nil =>
        cases hrest
        exact ⟨d, by simpa using hd, rfl⟩
      | cons t rest => cases hrest
  · rintro ⟨d, hd, rfl⟩
    -- the reader's depth for so many tokens is enough for the derivation
    have hlen : d.depth ≤ parseDepth list.tokens.length := by
      have := d.depth_le
      rw [hd] at this
      simp only [parseDepth]
      omega
    have hread : parseExpr list.stop _ (d.tokens ++ []) = _ :=
      d.complete.at_depth hlen (.nil .expr)
    rw [List.append_nil, hd] at hread
    have hne : ¬ list.tokens.isEmpty = true := by
      intro hempty
      have := d.depth_le
      rw [hd, List.isEmpty_iff.mp hempty] at this
      simp [Level.margin] at this
    rw [if_neg hne, hread, ok_bind]

end FormulaSearch.Grammar
