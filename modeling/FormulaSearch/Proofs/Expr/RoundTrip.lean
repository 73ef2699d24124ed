import FormulaSearch.Proofs.Expr.Constants
import FormulaSearch.Proofs.Expr.Reading

/-!
# Printed formulas are read back

The text of a formula is cut into tokens that the grammar derives, and the derivation denotes the formula
with every change of a constant's sign carried out. A part that does not stand alone is derived as a
primary, so that whatever stands around it cannot change how it is read.
-/

namespace FormulaSearch

open Text Decimal Grammar

/-! ## Folded signs -/

namespace Expr

/-- The formula with every change of sign of a constant carried out, from the leaves up. -/
def foldSigns : Formula → Formula
  | constant v => constant v
  | var => var
  | parameter n => parameter n
  | unary .neg e => negate e.foldSigns
  | unary op e => unary op e.foldSigns
  | binary op l r => binary op l.foldSigns r.foldSigns

theorem foldSigns_unary {op : UnaryOp} (h : op ≠ .neg) (e : Formula) :
    (unary op e).foldSigns = unary op e.foldSigns := by
  cases op <;> first | rfl | exact absurd rfl h

theorem column_negate (p : Assignment) (x : Column) (e : Formula) :
    (negate e).column p x = (e.column p x).map (.map (- ·)) := by
  cases e <;> rfl

/-- Folding signs does not change any value. -/
theorem column_foldSigns (p : Assignment) (x : Column) (e : Formula) :
    e.foldSigns.column p x = e.column p x := by
  induction e with
  | constant v => rfl
  | var => rfl
  | parameter n => rfl
  | unary op e ih =>
    by_cases hop : op = .neg
    · subst hop
      rw [foldSigns, column_negate, ih]
      rfl
    · rw [foldSigns_unary hop, column, column, ih]
  | binary op l r ihl ihr => rw [foldSigns, column, column, ihl, ihr]

/-- A formula without a change of sign of a constant stays as it is. -/
theorem foldSigns_eq_self {e : Formula} (h : ∀ v, unary .neg (constant v) ∉ e.preorder) :
    e.foldSigns = e := by
  induction e with
  | constant v => rfl
  | var => rfl
  | parameter n => rfl
  | unary op e ih =>
    have hchild := ih fun v hv => h v (List.mem_cons_of_mem _ hv)
    by_cases hop : op = .neg
    · subst hop
      rw [foldSigns, hchild]
      cases e with
      | constant v => exact absurd (List.mem_cons_self ..) (h v)
      | _ => rfl
    · rw [foldSigns_unary hop, hchild]
  | binary op l r ihl ihr =>
    rw [foldSigns, ihl fun v hv => h v (List.mem_cons_of_mem _ (List.mem_append_left _ hv)),
      ihr fun v hv => h v (List.mem_cons_of_mem _ (List.mem_append_right _ hv))]

end Expr

/-! ## Texts that are cut into derivable tokens -/

/-- What may follow the text of a part of a formula: nothing, a blank or a closing parenthesis. -/
def Closes (rest : List Char) : Prop := ∀ c ∈ rest.head?, c = ' ' ∨ c = ')'

theorem Closes.endsNumber {rest : List Char} (h : Closes rest) : EndsNumber rest := by
  intro c hc
  rcases h c hc with rfl | rfl <;> decide

theorem Closes.endsName {rest : List Char} (h : Closes rest) :
    ∀ c ∈ rest.head?, continuesName c = false := by
  intro c hc
  rcases h c hc with rfl | rfl <;> decide

theorem closes_nil : Closes [] := by
  intro c hc
  cases hc

theorem closes_cons {c : Char} (h : c = ' ' ∨ c = ')') (rest : List Char) : Closes (c :: rest) := by
  intro c' hc'
  cases hc'
  exact h

/-- Wherever the text stands, it is cut into tokens of the given kind. -/
def CutInto (text : List Char) (kind : List Token → Prop) : Prop :=
  ∀ position rest, Closes rest → ∃ ts, kind ts ∧
    tokensFrom position 0 (text ++ rest) =
      (tokensFrom (position + text.length) 0 rest).map (ts ++ ·)

/-- The tokens of a primary that denotes the formula. -/
def IsPrimary (e : Formula) (ts : List Token) : Prop :=
  ∃ d : Derivation .primary, d.tokens = ts ∧ d.meaning = e

/-- The tokens of an expression that denotes the formula. -/
def IsExpr (e : Formula) (ts : List Token) : Prop :=
  ∃ d : Derivation .expr, d.tokens = ts ∧ d.meaning = e

theorem IsPrimary.isExpr {e : Formula} {ts : List Token} (h : IsPrimary e ts) : IsExpr e ts := by
  obtain ⟨d, rfl, rfl⟩ := h
  exact ⟨.expr (.term (.plain (.base d)) .noFactor) .noTerm, by simp [Derivation.tokens], rfl⟩

theorem CutInto.imp {text : List Char} {kind kind' : List Token → Prop} (h : CutInto text kind)
    (himp : ∀ ts, kind ts → kind' ts) : CutInto text kind' := by
  intro position rest hrest
  obtain ⟨ts, hts, hcut⟩ := h position rest hrest
  exact ⟨ts, himp ts hts, hcut⟩

theorem tokensFrom_sign {c : Char} (h : isSign c = true) (position : ℕ) (rest : List Char) :
    tokensFrom position 0 (c :: rest) =
      (tokensFrom (position + 1) 0 rest).map (⟨.sign, c.toString, position⟩ :: ·) := by
  have hblank : isBlank c = false := by
    rcases isSign_cases h with rfl | rfl | rfl | rfl | rfl | rfl | rfl <;> decide
  exact @tokensFrom_token .sign c [] rest hblank (scanToken?_sign h rest) position

/-- Parentheses around a text are put around its tokens. -/
theorem CutInto.enclose {text : List Char} {kind kind' : List Token → Prop} (h : CutInto text kind)
    (himp : ∀ opening closing ts, Matches opening (.sign '(') → Matches closing (.sign ')') →
      kind ts → kind' (opening :: (ts ++ [closing]))) :
    CutInto ('(' :: (text ++ [')'])) kind' := by
  intro position rest hrest
  obtain ⟨ts, hts, hcut⟩ := h (position + 1) (')' :: rest) (closes_cons (.inr rfl) rest)
  refine ⟨_, himp ⟨.sign, "(", position⟩ ⟨.sign, ")", position + 1 + text.length⟩ ts (.sign rfl rfl)
    (.sign rfl rfl) hts, ?_⟩
  rw [List.cons_append, List.append_assoc, tokensFrom_sign rfl, List.singleton_append, hcut,
    tokensFrom_sign rfl, List.length_cons, List.length_append, List.length_singleton,
    show position + (text.length + 1 + 1) = position + 1 + text.length + 1 by omega]
  simp [map_map, Function.comp_def]

/-- A minus before a text is put before its tokens. -/
theorem CutInto.prepend {text : List Char} {kind kind' : List Token → Prop} (h : CutInto text kind)
    (himp : ∀ t ts, Matches t (.sign '-') → kind ts → kind' (t :: ts)) :
    CutInto ('-' :: text) kind' := by
  intro position rest hrest
  obtain ⟨ts, hts, hcut⟩ := h (position + 1) rest hrest
  refine ⟨_, himp ⟨.sign, "-", position⟩ ts (.sign rfl rfl) hts, ?_⟩
  rw [List.cons_append, tokensFrom_sign rfl, hcut, List.length_cons,
    show position + (text.length + 1) = position + 1 + text.length by omega]
  simp [map_map, Function.comp_def]

/-- An operator between two texts is put between their tokens. -/
theorem CutInto.join {left right : List Char} {kind kind' joined : List Token → Prop} (op : BinaryOp)
    (hl : CutInto left kind) (hr : CutInto right kind')
    (himp : ∀ ts t us, Matches t (.sign op.sign) → kind ts → kind' us → joined (ts ++ t :: us)) :
    CutInto (left ++ ' ' :: op.sign :: ' ' :: right) joined := by
  intro position rest hrest
  obtain ⟨ts, hts, hcutl⟩ := hl position (' ' :: op.sign :: ' ' :: (right ++ rest))
    (closes_cons (.inl rfl) _)
  obtain ⟨us, hus, hcutr⟩ := hr (position + left.length + 3) rest hrest
  have hop : isSign op.sign = true := by cases op <;> decide
  have hspace : isBlank ' ' = true := by decide
  refine ⟨_, himp ts ⟨.sign, op.sign.toString, position + left.length + 1⟩ us (.sign rfl rfl) hts hus,
    ?_⟩
  rw [List.append_assoc, List.cons_append, List.cons_append, List.cons_append, hcutl,
    tokensFrom_blank hspace, tokensFrom_sign hop, tokensFrom_blank hspace, hcutr]
  simp only [List.length_append, List.length_cons]
  rw [show position + (left.length + (right.length + 1 + 1 + 1)) =
    position + left.length + 3 + right.length by omega]
  simp [map_map, Function.comp_def]

/-- An expression in parentheses is a primary. -/
theorem CutInto.group {text : List Char} {e : Formula} (h : CutInto text (IsExpr e)) :
    CutInto ('(' :: (text ++ [')'])) (IsPrimary e) := by
  refine h.enclose fun opening closing ts ho hc hts => ?_
  obtain ⟨d, rfl, rfl⟩ := hts
  exact ⟨.group opening ho d closing hc, rfl, rfl⟩

/-- A minus and a primary make an expression. -/
theorem CutInto.minus {text : List Char} {e : Formula} (h : CutInto text (IsPrimary e)) :
    CutInto ('-' :: text) (IsExpr (negate e)) := by
  refine h.prepend fun t ts ht hts => ?_
  obtain ⟨d, rfl, rfl⟩ := hts
  refine ⟨.expr (.term (.minus t ht (.plain (.base d))) .noFactor) .noTerm, ?_, ?_⟩
  · simp [Derivation.tokens]
  · simp only [Derivation.meaning, id]
    cases d.meaning <;> rfl

/-- Two primaries with the sign of an operator between them are an expression. -/
theorem isExpr_binary (op : BinaryOp) {a b : Formula} {ts us : List Token} {sign : Token}
    (hsign : Matches sign (.sign op.sign)) (hl : IsPrimary a ts) (hr : IsPrimary b us) :
    IsExpr (.binary op a b) (ts ++ sign :: us) := by
  obtain ⟨l, rfl, rfl⟩ := hl
  obtain ⟨r, rfl, rfl⟩ := hr
  let first : Derivation .unary := .plain (.base l)
  let second : Derivation .unary := .plain (.base r)
  have sum (hop : op = .add ∨ op = .sub) : ∃ d : Derivation .expr,
      d.tokens = l.tokens ++ sign :: r.tokens ∧ d.meaning = .binary op l.meaning r.meaning :=
    ⟨.expr (.term first .noFactor) (.nextTerm op hop sign hsign (.term second .noFactor) .noTerm),
      by simp [Derivation.tokens, first, second], rfl⟩
  have product (hop : op = .mul ∨ op = .div) : ∃ d : Derivation .expr,
      d.tokens = l.tokens ++ sign :: r.tokens ∧ d.meaning = .binary op l.meaning r.meaning :=
    ⟨.expr (.term first (.nextFactor op hop sign hsign second .noFactor)) .noTerm,
      by simp [Derivation.tokens, first, second], rfl⟩
  -- only a power is derived below the level of products
  cases op with
  | add => exact sum (.inl rfl)
  | sub => exact sum (.inr rfl)
  | mul => exact product (.inl rfl)
  | div => exact product (.inr rfl)
  | pow =>
    exact ⟨.expr (.term (.plain (.raised l sign hsign second)) .noFactor) .noTerm,
      by simp [Derivation.tokens, second], rfl⟩

theorem CutInto.binary {left right : List Char} {a b : Formula} (op : BinaryOp)
    (hl : CutInto left (IsPrimary a)) (hr : CutInto right (IsPrimary b)) :
    CutInto (left ++ ' ' :: op.sign :: ' ' :: right) (IsExpr (.binary op a b)) :=
  hl.join op hr fun _ _ _ hsign hts hus => isExpr_binary op hsign hts hus

theorem name_functions {op : UnaryOp} (h : op ≠ .neg) : (op.name, op) ∈ functions := by
  cases op <;> first | decide | exact absurd rfl h

theorem name_begins (op : UnaryOp) : ∃ c name, op.name.toList = c :: name ∧ c.isAlpha = true ∧
    name.all continuesName = true := by
  cases op <;> exact ⟨_, _, rfl, rfl, rfl⟩

/-- A name is cut off as one token. -/
theorem tokensFrom_name {text : String} {c : Char} {name rest : List Char}
    (htext : text.toList = c :: name) (hc : c.isAlpha = true)
    (hname : name.all continuesName = true) (hr : ∀ d ∈ rest.head?, continuesName d = false) (position : ℕ) :
    tokensFrom position 0 (text.toList ++ rest) =
      (tokensFrom (position + text.toList.length) 0 rest).map (⟨.name, text, position⟩ :: ·) := by
  have hcut := tokensFrom_token (not_isBlank_of_isAlpha hc)
    (scanToken?_name hc (List.all_eq_true.mp hname) hr) position
  rw [← htext, String.ofList_toList] at hcut
  rw [htext]
  exact hcut

/-- The name of a function and parentheses around a text are put around its tokens. -/
theorem CutInto.apply {text : List Char} {kind kind' : List Token → Prop} {op : UnaryOp}
    (hop : op ≠ .neg) (h : CutInto text kind)
    (himp : ∀ t opening closing ts, Matches t (.function op) → Matches opening (.sign '(') →
      Matches closing (.sign ')') → kind ts → kind' (t :: opening :: (ts ++ [closing]))) :
    CutInto (op.name.toList ++ '(' :: (text ++ [')'])) kind' := by
  intro position rest hrest
  obtain ⟨c, name, htext, hc, hname⟩ := name_begins op
  have hends : ∀ d ∈ ('(' :: (text ++ ')' :: rest)).head?, continuesName d = false := by
    intro d hd
    cases hd
    decide
  obtain ⟨ts, hts, hcut⟩ := h (position + op.name.toList.length + 1) (')' :: rest)
    (closes_cons (.inr rfl) rest)
  refine ⟨_, himp ⟨.name, op.name, position⟩ ⟨.sign, "(", position + op.name.toList.length⟩
    ⟨.sign, ")", position + op.name.toList.length + 1 + text.length⟩ ts
    (.function rfl (name_functions hop)) (.sign rfl rfl) (.sign rfl rfl) hts, ?_⟩
  rw [List.append_assoc, List.cons_append, List.append_assoc, List.singleton_append,
    tokensFrom_name htext hc hname hends, tokensFrom_sign rfl, hcut, tokensFrom_sign rfl]
  simp only [List.length_append, List.length_cons, List.length_nil]
  rw [show position + (op.name.toList.length + (text.length + (0 + 1) + 1)) =
    position + op.name.toList.length + 1 + text.length + 1 by omega]
  simp [map_map, Function.comp_def]

/-- The name of a function before an expression in parentheses makes a primary. -/
theorem CutInto.call {text : List Char} {e : Formula} {op : UnaryOp} (hop : op ≠ .neg)
    (h : CutInto text (IsExpr e)) :
    CutInto (op.name.toList ++ '(' :: (text ++ [')'])) (IsPrimary (.unary op e)) := by
  refine h.apply hop fun t opening closing ts ht ho hc hts => ?_
  obtain ⟨d, rfl, rfl⟩ := hts
  exact ⟨.call op t ht opening ho d closing hc, rfl, rfl⟩

/-! ## Leaves -/

theorem cutInto_numeral {n : Numeral} {v : Float} (h : readFloat? (String.ofList n.text) = some v) :
    CutInto n.text (IsPrimary (.constant v)) := by
  intro position rest hrest
  refine ⟨_, ⟨.number v ⟨.number, String.ofList n.text, position⟩ (.number rfl h), rfl, rfl⟩, ?_⟩
  have hscan := scanToken?_numeral n hrest.endsNumber
  have hblank := fun c hc => @Numeral.not_isBlank_of_mem n c hc
  have hne : n.text ≠ [] := List.append_ne_nil_of_left_ne_nil n.mantissaText_ne_nil _
  generalize n.text = text at *
  cases text with
  | nil => exact absurd rfl hne
  | cons c text => exact tokensFrom_token (hblank c List.mem_cons_self) hscan position

/-- What is printed of a constant is a primary that denotes it. -/
theorem cutInto_constant {v : Float} {text : List Char} (h : ReadsAs v text) :
    CutInto text (IsPrimary (.constant v)) := by
  cases h with
  | plain n h => exact cutInto_numeral h
  | guarded n h => exact ((cutInto_numeral h).imp fun _ => IsPrimary.isExpr).group
  | minus n w h hv =>
    subst hv
    exact (cutInto_numeral h).minus.group

theorem cutInto_var : CutInto variableName.toList (IsPrimary .var) := by
  intro position rest hrest
  refine ⟨_, ⟨.var ⟨.name, variableName, position⟩ (.var rfl rfl), rfl, rfl⟩, ?_⟩
  exact tokensFrom_name rfl rfl rfl hrest.endsName position

theorem cutInto_parameter {name : String} (hl : IsLetterWithDigits name) (hx : name ≠ "x") :
    CutInto name.toList (IsPrimary (.parameter name)) := by
  intro position rest hrest
  -- the name of a function has a letter behind its first one
  have hfunction : name ∉ functions.map Prod.fst := by
    intro hmem
    have hall : ∀ f ∈ functions.map Prod.fst, f.toList.tail.any (!·.isDigit) = true := by decide
    obtain ⟨letter, digits, htext, -, hdigits⟩ := hl
    have hany := hall name hmem
    rw [htext, List.tail_cons, List.any_eq_true] at hany
    obtain ⟨d, hd, hnot⟩ := hany
    simp [hdigits d hd] at hnot
  refine ⟨_, ⟨.parameter name ⟨.name, name, position⟩ (.parameter rfl hx hfunction hl), rfl, rfl⟩,
    ?_⟩
  obtain ⟨letter, digits, htext, hletter, hdigits⟩ := hl
  have hname : digits.all continuesName = true := by
    rw [List.all_eq_true]
    intro d hd
    simp [continuesName, Char.isAlphanum, hdigits d hd]
  exact tokensFrom_name htext hletter hname hrest.endsName position

/-! ## Whole formulas -/

/-- A formula that can be printed and read back: its constants are finite, and its parameters have names
that the grammar allows. -/
structure Printable (e : Formula) : Prop where
  finite : ∀ v, .constant v ∈ e.preorder → v.isFinite = true
  named : ∀ n, .parameter n ∈ e.preorder → IsLetterWithDigits n ∧ n ≠ "x"

theorem Printable.child {op : UnaryOp} {e : Formula} (h : Printable (.unary op e)) :
    Printable e where
  finite v hv := h.finite v (List.mem_cons_of_mem _ hv)
  named n hn := h.named n (List.mem_cons_of_mem _ hn)

theorem Printable.left {op : BinaryOp} {l r : Formula} (h : Printable (.binary op l r)) :
    Printable l where
  finite v hv := h.finite v (List.mem_cons_of_mem _ (List.mem_append_left _ hv))
  named n hn := h.named n (List.mem_cons_of_mem _ (List.mem_append_left _ hn))

theorem Printable.right {op : BinaryOp} {l r : Formula} (h : Printable (.binary op l r)) :
    Printable r where
  finite v hv := h.finite v (List.mem_cons_of_mem _ (List.mem_append_right _ hv))
  named n hn := h.named n (List.mem_cons_of_mem _ (List.mem_append_right _ hn))

/-- A text that stands alone if it may, and otherwise is a primary. -/
theorem toList_wrap (text : String) :
    (Expr.wrap false text).toList = '(' :: (text.toList ++ [')']) := by
  simp [Expr.wrap]

theorem cutInto_wrap {text : String} {e : Formula} (h : CutInto text.toList (IsExpr e)) :
    CutInto (Expr.wrap false text).toList (IsPrimary e) ∧
      CutInto (Expr.wrap true text).toList (IsExpr e) := by
  refine ⟨?_, h⟩
  rw [toList_wrap]
  exact h.group

theorem cutInto_both {text : List Char} {e : Formula} (h : CutInto text (IsPrimary e)) :
    CutInto text (IsPrimary e) ∧ CutInto text (IsExpr e) :=
  ⟨h, h.imp fun _ => IsPrimary.isExpr⟩

theorem render_unary {op : UnaryOp} (h : op ≠ .neg) (write : Float → String) (alone : Bool)
    (e : Formula) :
    (Expr.unary op e).render write alone = op.name ++ "(" ++ e.render write true ++ ")" := by
  cases op <;> first | rfl | exact absurd rfl h

/-- The text of a formula is cut into the tokens of a primary, or of an expression if it stands alone,
that denotes the formula with its signs folded. -/
theorem cutInto_render {write : Float → String}
    (hwrite : ∀ v, v.isFinite = true → ReadsAs v (write v).toList) {e : Formula}
    (he : Printable e) :
    CutInto (e.render write false).toList (IsPrimary e.foldSigns) ∧
      CutInto (e.render write true).toList (IsExpr e.foldSigns) := by
  -- both at once: an operand is printed as a primary, the argument of a function as an expression
  induction e with
  | constant v =>
    have hv := he.finite v (List.mem_singleton_self _)
    exact cutInto_both (cutInto_constant (hwrite v hv))
  | var => exact cutInto_both cutInto_var
  | parameter n =>
    obtain ⟨hl, hx⟩ := he.named n (List.mem_singleton_self _)
    exact cutInto_both (cutInto_parameter hl hx)
  | unary op e ih =>
    obtain ⟨hprimary, hexpr⟩ := ih he.child
    by_cases hop : op = .neg
    · subst hop
      refine cutInto_wrap ?_
      simpa [Expr.foldSigns] using hprimary.minus
    · have hlist (alone : Bool) : ((Expr.unary op e).render write alone).toList =
          op.name.toList ++ '(' :: ((e.render write true).toList ++ [')']) := by
        rw [render_unary hop]
        simp
      rw [hlist, hlist, Expr.foldSigns_unary hop]
      exact cutInto_both (hexpr.call hop)
  | binary op l r ihl ihr =>
    obtain ⟨hl, -⟩ := ihl he.left
    obtain ⟨hr, -⟩ := ihr he.right
    refine cutInto_wrap ?_
    simpa [Expr.foldSigns] using hl.binary op hr

/-- A text that is cut up to its end has these tokens. -/
theorem tokenize_of_tokensFrom {text : String} {ts : List Token}
    (h : tokensFrom 0 0 (text.toList ++ []) =
      (tokensFrom (0 + text.toList.length) 0 []).map (ts ++ ·)) :
    tokenize text = .ok ⟨ts, text.length⟩ := by
  rw [List.append_nil] at h
  rw [tokenize, h]
  simp [tokensFrom, Except.map]

/-- A formula is read back from its text with its signs folded. -/
theorem parse_render {write : Float → String}
    (hwrite : ∀ v, v.isFinite = true → ReadsAs v (write v).toList) {e : Formula}
    (he : Printable e) :
    parse (e.render write true) = .ok e.foldSigns := by
  obtain ⟨ts, ⟨d, hd, hmeaning⟩, hcut⟩ := (cutInto_render hwrite he).2 0 [] closes_nil
  have htokens := tokenize_of_tokensFrom hcut
  rw [parse_eq_ok_iff htokens, parseTokens_eq_ok_iff (tokenize_readable htokens)]
  exact ⟨d, hd, hmeaning⟩

/-- The text of a formula is read back as the formula with every change of a constant's sign carried out,
which is the formula itself if there is none, and has the same values everywhere. -/
theorem parse_text {e : Formula} (hfinite : ∀ v, .constant v ∈ e.preorder → v.isFinite = true)
    (hnames : ∀ n, .parameter n ∈ e.preorder → IsLetterWithDigits n ∧ n ≠ "x") :
    parse e.text = .ok e.foldSigns ∧
      ((∀ v, .unary .neg (.constant v) ∉ e.preorder) → e.foldSigns = e) ∧
      (∀ p x, e.foldSigns.evaluate p x = e.evaluate p x) ∧
      ∀ p xs, e.foldSigns.evaluateAll p xs = e.evaluateAll p xs := by
  refine ⟨parse_render (fun v hv => constantText_readsAs false hv) ⟨hfinite, hnames⟩,
    Expr.foldSigns_eq_self, fun p x => ?_, fun p xs => ?_⟩
  · rw [Expr.evaluate, Expr.evaluate, Expr.column_foldSigns]
  · rw [Expr.evaluateAll, Expr.evaluateAll, Expr.column_foldSigns]

/-- A change of a constant's sign is carried out, and a power of it keeps its parentheses. -/
theorem parse_text_power :
    parse (Expr.text (.binary .pow (.unary .neg (.constant 0.1)) (.parameter "a1"))) =
      .ok (.binary .pow (.constant (-0.1)) (.parameter "a1")) := by
  refine (parse_text (fun v hv => ?_) fun n hn => ?_).1
  · have hv : v = 0.1 := by simpa [Expr.preorder] using hv
    rw [hv]
    decide
  · have hn : n = "a1" := by simpa [Expr.preorder] using hn
    rw [hn]
    exact ⟨⟨'a', ['1'], rfl, rfl, by simp⟩, by decide⟩

end FormulaSearch
