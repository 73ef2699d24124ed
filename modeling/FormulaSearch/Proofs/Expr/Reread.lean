import FormulaSearch.Proofs.Expr.Leaves
import FormulaSearch.Proofs.Expr.RoundTrip
import FormulaSearch.Residual

/-!
# Which read formulas are read again

A formula that was read has every minus before a constant carried out, and the grammar allows the names of
its parameters. So it is read again from its text if its constants are finite, which they are if no number
of the text overflows. Otherwise the printed constant is the name of infinity. That is no number to the
scanner but a name without a meaning, which no derivation has among its tokens, wherever it stands.
-/

namespace FormulaSearch

open Text Decimal Grammar

/-! ## What the productions keep -/

namespace Grammar

/-- A property of tokens and the formula that they denote, at a level: a starred part carries it over from
what stands before. -/
def Holds (P : List Token → Formula → Prop) : (l : Level) → List Token → Meaning l → Prop
  | .terms, ts, m | .factors, ts, m => ∀ us e, P us e → P (us ++ ts) (m e)
  | .expr, ts, e | .term, ts, e | .unary, ts, e | .power, ts, e | .primary, ts, e => P ts e

/-- A property that leaves have and that every production keeps. -/
structure Kept (P : List Token → Formula → Prop) : Prop where
  number : ∀ {t v}, Matches t (.number v) → P [t] (.constant v)
  var : ∀ {t}, Matches t .var → P [t] .var
  parameter : ∀ {t n}, Matches t (.parameter n) → P [t] (.parameter n)
  negate : ∀ {t ts e}, Matches t (.sign '-') → P ts e → P (t :: ts) (negate e)
  binary : ∀ {op t ts us a b}, Matches t (.sign op.sign) → P ts a → P us b →
    P (ts ++ t :: us) (.binary op a b)
  call : ∀ {op t opening closing ts e}, Matches t (.function op) → Matches opening (.sign '(') →
    Matches closing (.sign ')') → P ts e → P (t :: opening :: (ts ++ [closing])) (.unary op e)
  group : ∀ {opening closing ts e}, Matches opening (.sign '(') → Matches closing (.sign ')') →
    P ts e → P (opening :: (ts ++ [closing])) e

theorem Kept.holds {P : List Token → Formula → Prop} (h : Kept P) {l : Level} (d : Derivation l) :
    Holds P l d.tokens d.meaning := by
  induction d with
  | expr first rest ihf ihr | term first rest ihf ihr => exact ihr _ _ ihf
  | noTerm | noFactor =>
    intro us e he
    rwa [Derivation.tokens, List.append_nil]
  | nextTerm op hop t ht e rest ihe ihr | nextFactor op hop t ht e rest ihe ihr =>
    intro us before hbefore
    have hall := ihr _ _ (h.binary ht hbefore ihe)
    rwa [List.append_assoc, List.cons_append] at hall
  | minus t ht e ih =>
    show P _ _
    rw [negate_meaning ht]
    exact h.negate ht ih
  | plain e ih | base e ih => exact ih
  | raised b t ht e ihb ihe => exact h.binary ht ihb ihe
  | number v t ht => exact h.number ht
  | var t ht => exact h.var ht
  | parameter n t ht => exact h.parameter ht
  | call op t ht opening ho e closing hc ih => exact h.call ht ho hc ih
  | group opening ho e closing hc ih => exact h.group ho hc ih

/-- Every derived token is a terminal. -/
theorem Derivation.exists_matches {l : Level} (d : Derivation l) :
    ∀ t ∈ d.tokens, ∃ a, Matches t a := by
  induction d with
  | noTerm | noFactor => simp
  | _ => grind [Derivation.tokens]

end Grammar

/-! ## Formulas that were read -/

/-- A formula whose signs are folded and whose parameters have names of the grammar. -/
structure Folded (e : Formula) : Prop where
  folded : ∀ v, .unary .neg (.constant v) ∉ e.preorder
  named : ∀ n, .parameter n ∈ e.preorder → IsLetterWithDigits n ∧ n ≠ "x"

theorem Folded.unary {op : UnaryOp} {e : Formula} (h : Folded e)
    (hop : op ≠ .neg ∨ ∀ v, e ≠ .constant v) : Folded (.unary op e) where
  folded v hv := by
    rcases List.mem_cons.mp hv with heq | hv
    · cases heq
      rcases hop with hop | hconstant
      · exact hop rfl
      · exact hconstant v rfl
    · exact h.folded v hv
  named n hn := by
    rcases List.mem_cons.mp hn with heq | hn
    · cases heq
    · exact h.named n hn

theorem Folded.binary {op : BinaryOp} {a b : Formula} (ha : Folded a) (hb : Folded b) :
    Folded (.binary op a b) where
  folded v hv := by
    rcases List.mem_cons.mp hv with heq | hv
    · cases heq
    · rcases List.mem_append.mp hv with hv | hv
      · exact ha.folded v hv
      · exact hb.folded v hv
  named n hn := by
    rcases List.mem_cons.mp hn with heq | hn
    · cases heq
    · rcases List.mem_append.mp hn with hn | hn
      · exact ha.named n hn
      · exact hb.named n hn

theorem folded_constant (v : Float) : Folded (.constant v) where
  folded w hw := by simp [Expr.preorder] at hw
  named n hn := by simp [Expr.preorder] at hn

/-- No function of the grammar is the change of sign. -/
theorem ne_neg_of_matches {t : Token} {op : UnaryOp} (h : Matches t (.function op)) : op ≠ .neg := by
  cases h with
  | function hk hf =>
    rintro rfl
    simp [functions] at hf

theorem kept_folded : Kept fun _ e => Folded e where
  number _ := folded_constant _
  var _ := ⟨fun v hv => by simp [Expr.preorder] at hv, fun n hn => by simp [Expr.preorder] at hn⟩
  parameter {t name} h := by
    refine ⟨fun v hv => by simp [Expr.preorder] at hv, fun n hn => ?_⟩
    obtain rfl : n = name := by simpa [Expr.preorder] using hn
    cases h with
    | parameter hk hx hf hl => exact ⟨hl, hx⟩
  negate {_ _ e} _ h := by
    cases e with
    | constant v => exact folded_constant (-v)
    | _ => exact h.unary (.inr fun v hv => by cases hv)
  binary _ ha hb := ha.binary hb
  call ht _ _ h := h.unary (.inl (ne_neg_of_matches ht))
  group _ _ h := h

/-! ## Numbers of a text -/

/-- The values of the number tokens, in their order. -/
def numbers (ts : List Token) : List Float :=
  ts.filterMap fun t => if t.kind = .number then readFloat? t.text else none

theorem numbers_append (ts us : List Token) : numbers (ts ++ us) = numbers ts ++ numbers us :=
  List.filterMap_append

theorem numbers_cons_number {t : Token} {v : Float} (h : Matches t (.number v)) (ts : List Token) :
    numbers (t :: ts) = v :: numbers ts := by
  cases h with
  | number hk hv => simp [numbers, hk, hv]

/-- A token that is another terminal adds no number. -/
theorem numbers_cons {t : Token} {a : Terminal} (h : Matches t a) (ha : ∀ v, a ≠ .number v)
    (ts : List Token) : numbers (t :: ts) = numbers ts := by
  cases h with
  | number hk hv => exact absurd rfl (ha _)
  | var hk | parameter hk | function hk | sign hk => simp [numbers, hk]

theorem numbers_cons_sign {t : Token} {c : Char} (h : Matches t (.sign c)) (ts : List Token) :
    numbers (t :: ts) = numbers ts :=
  numbers_cons h (fun v hv => by cases hv) ts

theorem constants_negate (e : Formula) :
    (negate e).constants.map Float.isFinite = e.constants.map Float.isFinite := by
  cases e with
  | constant v => simp [negate, Expr.constants, isFinite_neg]
  | _ => rfl

/-- The constants of a formula are the numbers that it was read from, up to their signs. -/
theorem kept_numbers :
    Kept fun ts e => e.constants.map Float.isFinite = (numbers ts).map Float.isFinite where
  number h := by
    rw [numbers_cons_number h]
    rfl
  var h := by
    rw [numbers_cons h fun v hv => by cases hv]
    rfl
  parameter h := by
    rw [numbers_cons h fun v hv => by cases hv]
    rfl
  negate ht h := by rw [constants_negate, h, numbers_cons_sign ht]
  binary ht ha hb := by
    rw [Expr.constants, List.map_append, ha, hb, numbers_append, numbers_cons_sign ht,
      List.map_append]
  call ht ho hc h := by
    rw [Expr.constants, h, numbers_cons ht (fun v hv => by cases hv), numbers_cons_sign ho,
      numbers_append, numbers_cons_sign hc]
    simp [numbers]
  group ho hc h := by
    rw [h, numbers_cons_sign ho, numbers_append, numbers_cons_sign hc]
    simp [numbers]

/-- A number of a text is finite or so large that it is read as infinity. -/
theorem numbers_cases {text : String} {list : TokenList} (h : tokenize text = .ok list) :
    ∀ v ∈ numbers list.tokens, v.isFinite = true ∨ v = infinity := by
  intro v hv
  obtain ⟨t, ht, hread⟩ := List.mem_filterMap.mp hv
  rw [Option.ite_none_right_eq_some] at hread
  obtain ⟨n, hn⟩ := tokenize_numeral h t ht hread.1
  have hnonneg : (0 : ℚ) ≤ n.value := by
    rw [Numeral.value, Literal.value]
    positivity
  rw [hn, n.readFloat?_eq n.value.den_nz (natAbs_num_div_den hnonneg).symm] at hread
  obtain rfl := Option.some.inj hread.2
  by_cases hinfinity : nearestBits n.value.num.natAbs n.value.den = infinityBits
  · right
    rw [nearest, hinfinity]
    rfl
  · exact .inl (nearest_isFinite hinfinity)

/-! ## Constants that are not finite -/

/-- One of the tokens is no terminal of the grammar. -/
def HasForeign (ts : List Token) : Prop := ∃ t ∈ ts, ∀ a, ¬ Matches t a

theorem HasForeign.not_derived {ts : List Token} (h : HasForeign ts) (d : Derivation .expr) :
    d.tokens ≠ ts := by
  rintro rfl
  obtain ⟨t, ht, hforeign⟩ := h
  obtain ⟨a, ha⟩ := d.exists_matches t ht
  exact hforeign a ha

theorem HasForeign.enclose {ts : List Token} (h : HasForeign ts) (opening closing : Token) :
    HasForeign (opening :: (ts ++ [closing])) := by
  obtain ⟨t, ht, hforeign⟩ := h
  exact ⟨t, List.mem_cons_of_mem _ (List.mem_append_left _ ht), hforeign⟩

theorem HasForeign.cons {ts : List Token} (h : HasForeign ts) (t : Token) : HasForeign (t :: ts) := by
  obtain ⟨u, hu, hforeign⟩ := h
  exact ⟨u, List.mem_cons_of_mem _ hu, hforeign⟩

/-- What stands for a number that is not finite. -/
def nonFiniteNames : List String := ["nan", "inf"]

theorem cutInto_nonFinite {name : String} (h : name ∈ nonFiniteNames) :
    CutInto name.toList HasForeign := by
  intro position rest hrest
  have hunknown : Word.ofName name = .unknown := by
    revert name
    decide
  refine ⟨[⟨.name, name, position⟩], ⟨_, List.mem_singleton_self _, fun a ha => ?_⟩, ?_⟩
  · rw [matches_iff_terminal? rfl] at ha
    rw [show Word.ofName name = _ from hunknown] at ha
    cases ha
  · have hletters : ∃ c cs, name.toList = c :: cs ∧ c.isAlpha = true ∧
        cs.all continuesName = true := by
      simp only [nonFiniteNames, List.mem_cons, List.not_mem_nil, or_false] at h
      rcases h with rfl | rfl <;> exact ⟨_, _, rfl, rfl, rfl⟩
    obtain ⟨c, cs, htext, hc, hcs⟩ := hletters
    exact tokensFrom_name htext hc hcs hrest.endsName position

/-- The text of a number that is not finite. -/
theorem signedText_nonFinite (write : Decimal.Dyadic → String) {v : Float} (hv : v.isFinite = false) :
    signedText write v = "nan" ∨ signedText write v = "inf" ∨ signedText write v = "-inf" := by
  rw [signedText]
  rcases ofFloat_of_not_isFinite hv with h | ⟨negative, h⟩
  · rw [h]
    exact .inl rfl
  · rw [h]
    cases negative with
    | false => exact .inr (.inl rfl)
    | true => exact .inr (.inr rfl)

theorem constantText_foreign {v : Float} (hv : v.isFinite = false) :
    CutInto (constantText false v).toList HasForeign := by
  have htext : readableText v = "nan" ∨ readableText v = "inf" ∨ readableText v = "-inf" := by
    rw [readableText]
    split
    · split
      · exact signedText_nonFinite _ hv
      · exact signedText_nonFinite _ hv
    · exact signedText_nonFinite _ hv
  have hname (name : String) (hname : name ∈ nonFiniteNames) :
      CutInto (guardSign v name).toList HasForeign := by
    have hcut := cutInto_nonFinite hname
    rw [guardSign]
    split
    · rw [String.toList_append, String.toList_append, List.append_assoc]
      exact hcut.enclose fun opening closing ts _ _ hts => hts.enclose opening closing
    · exact hcut
  have hinf : CutInto "inf".toList HasForeign := cutInto_nonFinite (by decide)
  rw [constantText]
  rcases htext with h | h | h
  · rw [if_neg (by decide), h]
    exact hname "nan" (by decide)
  · rw [if_neg (by decide), h]
    exact hname "inf" (by decide)
  · rw [if_neg (by decide), h]
    have hminus := hinf.prepend fun t ts _ hts => hts.cons t
    rw [guardSign, if_pos (by simp [dropPoint])]
    exact hminus.enclose fun opening closing ts _ _ hts => hts.enclose opening closing

/-- A kind of tokens that is kept in parentheses is that of a text with or without them. -/
theorem CutInto.wrap {text : String} {kind : List Token → Prop} (h : CutInto text.toList kind)
    (hgroup : ∀ opening closing ts, kind ts → kind (opening :: (ts ++ [closing]))) (alone : Bool) :
    CutInto (Expr.wrap alone text).toList kind := by
  cases alone with
  | true => exact h
  | false =>
    rw [toList_wrap]
    exact h.enclose fun opening closing ts _ _ hts => hgroup opening closing ts hts

/-- The tokens hold a name without a meaning if the formula has a constant that is not finite. -/
def Betrays (e : Formula) (ts : List Token) : Prop :=
  (∃ v ∈ e.constants, v.isFinite = false) → HasForeign ts

theorem Betrays.enclose {e : Formula} {ts : List Token} (h : Betrays e ts)
    (opening closing : Token) : Betrays e (opening :: (ts ++ [closing])) :=
  fun hv => (h hv).enclose opening closing

theorem Betrays.join {a b : Formula} {ts us : List Token} (ha : Betrays a ts) (hb : Betrays b us)
    (op : BinaryOp) (t : Token) : Betrays (.binary op a b) (ts ++ t :: us) := by
  rintro ⟨v, hv, hinfinite⟩
  rcases List.mem_append.mp hv with hv | hv
  · obtain ⟨u, hu, hforeign⟩ := ha ⟨v, hv, hinfinite⟩
    exact ⟨u, List.mem_append_left _ hu, hforeign⟩
  · obtain ⟨u, hu, hforeign⟩ := hb ⟨v, hv, hinfinite⟩
    exact ⟨u, List.mem_append_right _ (List.mem_cons_of_mem _ hu), hforeign⟩

/-- Wherever a constant is not finite, its name gets among the tokens of the text. -/
theorem cutInto_betrays {e : Formula} (hnamed : ∀ n, .parameter n ∈ e.preorder →
      IsLetterWithDigits n ∧ n ≠ "x") (alone : Bool) :
    CutInto (e.render (constantText false) alone).toList (Betrays e) := by
  induction e generalizing alone with
  | constant v =>
    cases hv : v.isFinite with
    | true =>
      refine (cutInto_constant (constantText_readsAs false hv)).imp fun ts _ => ?_
      rintro ⟨w, hw, hinfinite⟩
      rw [List.mem_singleton.mp hw, hv] at hinfinite
      cases hinfinite
    | false => exact (constantText_foreign hv).imp fun ts hts _ => hts
  | var => exact cutInto_var.imp fun ts _ ⟨v, hv, _⟩ => nomatch hv
  | parameter n =>
    obtain ⟨hl, hx⟩ := hnamed n (List.mem_singleton_self _)
    exact (cutInto_parameter hl hx).imp fun ts _ ⟨v, hv, _⟩ => nomatch hv
  | unary op e ih =>
    have hchild := ih fun n hn => hnamed n (List.mem_cons_of_mem _ hn)
    by_cases hop : op = .neg
    · subst hop
      refine CutInto.wrap ?_ (fun opening closing ts hts => hts.enclose opening closing) alone
      rw [String.toList_append]
      exact (hchild false).prepend fun t ts _ hts hv => (hts hv).cons t
    · have hlist : ((Expr.unary op e).render (constantText false) alone).toList =
          op.name.toList ++ '(' :: ((e.render (constantText false) true).toList ++ [')']) := by
        rw [render_unary hop]
        simp
      rw [hlist]
      exact (hchild true).apply hop fun t opening closing ts _ _ _ hts hv =>
        ((hts.enclose opening closing) hv).cons t
  | binary op l r ihl ihr =>
    have hl := ihl (fun n hn => hnamed n (List.mem_cons_of_mem _ (List.mem_append_left _ hn))) false
    have hr := ihr (fun n hn => hnamed n (List.mem_cons_of_mem _ (List.mem_append_right _ hn))) false
    refine CutInto.wrap ?_ (fun opening closing ts hts => hts.enclose opening closing) alone
    simpa using hl.join op hr fun ts t us _ hts hus => hts.join hus op t

/-! ## Reading again -/

/-- A formula that was read is derived from tokens with its numbers. -/
theorem exists_derivation {text : String} {e : Formula} (h : parse text = .ok e) :
    ∃ list, tokenize text = .ok list ∧ Folded e ∧
      e.constants.map Float.isFinite = (numbers list.tokens).map Float.isFinite := by
  cases hcut : tokenize text with
  | error fault =>
    rw [parse, hcut] at h
    cases h
  | ok list =>
    rw [parse_eq_ok_iff hcut, parseTokens_eq_ok_iff (tokenize_readable hcut)] at h
    obtain ⟨d, hd, rfl⟩ := h
    refine ⟨list, rfl, kept_folded.holds d, ?_⟩
    rw [← hd]
    exact kept_numbers.holds d

/-- The text of a formula with a constant that is not finite is not read. -/
theorem exists_error_of_not_finite {e : Formula} (he : Folded e) {v : Float} (hv : v ∈ e.constants)
    (hinfinite : v.isFinite = false) : ∃ fault, parse e.text = .error fault := by
  obtain ⟨ts, hts, hcut⟩ := cutInto_betrays he.named true 0 [] closes_nil
  have htokens : tokenize e.text = .ok ⟨ts, e.text.length⟩ := tokenize_of_tokensFrom hcut
  cases h : parse e.text with
  | error fault => exact ⟨fault, rfl⟩
  | ok e' =>
    rw [parse_eq_ok_iff htokens, parseTokens_eq_ok_iff (tokenize_readable htokens)] at h
    obtain ⟨d, hd, -⟩ := h
    exact absurd hd ((hts ⟨v, hv, hinfinite⟩).not_derived d)

/-- A formula that was read is read again from its text, as the same formula, if and only if none of the
numbers that it was read from overflows. If one does, its text is not that of any formula. -/
theorem parse_text_iff {text : String} {e : Formula} (h : parse text = .ok e) :
    ∃ list, tokenize text = .ok list ∧
      (parse e.text = .ok e ↔ ∀ v ∈ numbers list.tokens, v ≠ infinity) ∧
      ((∃ v ∈ numbers list.tokens, v = infinity) → ∃ fault, parse e.text = .error fault) := by
  obtain ⟨list, hcut, hfolded, hnumbers⟩ := exists_derivation h
  have hfails : (∃ v ∈ numbers list.tokens, v = infinity) → ∃ fault, parse e.text = .error fault := by
    rintro ⟨v, hv, rfl⟩
    have hmem : infinity.isFinite ∈ e.constants.map Float.isFinite := by
      rw [hnumbers]
      exact List.mem_map_of_mem hv
    obtain ⟨w, hw, heq⟩ := List.mem_map.mp hmem
    exact exists_error_of_not_finite hfolded hw (heq.trans (by decide))
  refine ⟨list, hcut, ⟨fun hagain v hv heq => ?_, fun hall => ?_⟩, hfails⟩
  · obtain ⟨fault, hfault⟩ := hfails ⟨v, hv, heq⟩
    rw [hagain] at hfault
    cases hfault
  · have hfinite : ∀ v, .constant v ∈ e.preorder → v.isFinite = true := by
      intro v hv
      have hmem : v.isFinite ∈ (numbers list.tokens).map Float.isFinite := by
        rw [← hnumbers]
        exact List.mem_map_of_mem (Expr.mem_constants.mpr hv)
      obtain ⟨w, hw, heq⟩ := List.mem_map.mp hmem
      rw [← heq]
      exact (numbers_cases hcut w hw).resolve_right (hall w hw)
    have hread := parse_render (fun v hv => constantText_readsAs false hv) ⟨hfinite, hfolded.named⟩
    rwa [Expr.foldSigns_eq_self hfolded.folded] at hread

/-- The least positive number survives, and so does its negation. -/
theorem parse_text_iff_least :
    let e : Formula := .constant (-5e-324)
    parse "-5e-324" = .ok e ∧ parse e.text = .ok e := by
  intro e
  let minus : Token := ⟨.sign, "-", 0⟩
  let least : Token := ⟨.number, "5e-324", 1⟩
  have hleast : Matches least (.number 5e-324) := .number rfl (by decide +kernel)
  let d : Derivation .expr :=
    .expr (.term (.minus minus (.sign rfl rfl) (.plain (.base (.number _ least hleast)))) .noFactor)
      .noTerm
  have hcut : tokenize "-5e-324" = .ok ⟨[minus, least], 7⟩ := by rfl
  have hread : parse "-5e-324" = .ok e := ((parse_accepts_grammar hcut).2 d rfl).1
  obtain ⟨list, hlist, hiff, -⟩ := parse_text_iff hread
  obtain rfl : ⟨[minus, least], 7⟩ = list := Except.ok.inj (hcut.symm.trans hlist)
  refine ⟨hread, hiff.mpr ?_⟩
  decide +kernel

/-- A number that is read as infinity is printed as a name, and the name is not read. -/
theorem parse_text_overflow :
    parse "1e999" = .ok (.constant infinity) ∧ Expr.text (.constant infinity) = "inf" ∧
      parse "inf" = .error ⟨.unknownIdentifier "inf", "inf", 0⟩ := by
  let number : Token := ⟨.number, "1e999", 0⟩
  have hnumber : Matches number (.number infinity) := .number rfl (by decide +kernel)
  let d : Derivation .expr :=
    .expr (.term (.plain (.base (.number _ number hnumber))) .noFactor) .noTerm
  have hcut : tokenize "1e999" = .ok ⟨[number], 5⟩ := by rfl
  refine ⟨((parse_accepts_grammar hcut).2 d rfl).1, ?_, by rfl⟩
  show constantText false infinity = "inf"
  decide +kernel

end FormulaSearch
