import FormulaSearch.Expr.Simplify

/-!
# Passes of the simplifier

Each rule takes nodes away, so a pass changes nothing or makes the expression smaller, and simplification
ends with an expression that a further pass leaves as it is. What holds between an expression and its
simplified form is shown rule by rule: a relation that every rule respects is respected by a pass, and by
any number of passes.
-/

namespace FormulaSearch

open FoldingDomain

namespace Expr

variable {α : Type}

/-! ## Relations that the rules respect -/

section

variable [FoldingDomain α]

/-- A relation from each expression to what the rules make of it, at the root and below. -/
structure Respected (R : Expr α → Expr α → Prop) : Prop where
  refl : ∀ e, R e e
  trans : ∀ {e e' e''}, R e e' → R e' e'' → R e e''
  unary : ∀ op {e e'}, R e e' → R (.unary op e) (.unary op e')
  binary : ∀ op {l l' r r'}, R l l' → R r r' → R (.binary op l r) (.binary op l' r')
  reduceUnary : ∀ op e, R (.unary op e) (Expr.reduceUnary op e)
  reduceBinary : ∀ op l r, R (.binary op l r) (Expr.reduceBinary op l r)

namespace Respected

variable {R : Expr α → Expr α → Prop}

theorem simplifyPass (h : Respected R) (e : Expr α) : R e e.simplifyPass := by
  induction e with
  | unary op e ih => exact h.trans (h.unary op ih) (h.reduceUnary op _)
  | binary op l r ihl ihr => exact h.trans (h.binary op ihl ihr) (h.reduceBinary op _ _)
  | _ => exact h.refl _

theorem simplifyFrom (h : Respected R) (n : Nat) (e : Expr α) : R e (simplifyFrom n e) := by
  induction n generalizing e with
  | zero => exact h.refl e
  | succ n ih =>
    rw [Expr.simplifyFrom]
    split
    · exact h.simplifyPass e
    · exact h.trans (h.simplifyPass e) (ih _)

theorem simplify (h : Respected R) (e : Expr α) : R e e.simplify := h.simplifyFrom e.count e

end Respected

/-! ## The rules at a node -/

/-- A rule for one operand folds a constant or takes a double change of sign away. -/
theorem reduceUnary_cases (op : UnaryOp) (e : Expr α) :
    reduceUnary op e = unary op e ∨
      (∃ v w, e = constant v ∧ unary? op v = some w ∧ reduceUnary op e = constant w) ∨
      (op = .neg ∧ e = unary .neg (reduceUnary op e)) := by
  generalize hr : reduceUnary op e = reduced
  unfold reduceUnary at hr
  split at hr
  · rename_i v
    split at hr
    · rename_i w hw
      exact .inr (.inl ⟨v, w, rfl, hw, hr.symm⟩)
    · exact .inl hr.symm
  · split at hr
    · rename_i hop
      exact .inr (.inr ⟨hop, by rw [hr]⟩)
    · exact .inl hr.symm
  · exact .inl hr.symm

/-- The rules for zero and one: what an operator and its operands become. -/
inductive Identity (l r : Expr α) : BinaryOp → Expr α → Prop where
  | addZero (h : r.isZero = true) : Identity l r .add l
  | zeroAdd (h : l.isZero = true) : Identity l r .add r
  | subZero (h : r.isZero = true) : Identity l r .sub l
  | zeroSub (h : l.isZero = true) : Identity l r .sub (unary .neg r)
  | zeroMul (h : l.isZero = true) : Identity l r .mul (constant zero)
  | mulZero (h : r.isZero = true) : Identity l r .mul (constant zero)
  | mulOne (h : r.isOne = true) : Identity l r .mul l
  | oneMul (h : l.isOne = true) : Identity l r .mul r
  | divOne (h : r.isOne = true) : Identity l r .div l
  | powOne (h : r.isOne = true) : Identity l r .pow l
  | powZero (h : r.isZero = true) : Identity l r .pow (constant one)

theorem identity_of_eq_some {op : BinaryOp} {l r e : Expr α} (h : identity? op l r = some e) :
    Identity l r op e := by
  cases op <;> grind [identity?, Identity]

/-- A rule for zero or one leaves an operand, the right one perhaps with its sign changed, or a constant. -/
theorem identity?_cases {op : BinaryOp} {l r e : Expr α} (h : identity? op l r = some e) :
    e = l ∨ e = r ∨ e = unary .neg r ∨ e = constant zero ∨ e = constant one := by
  cases identity_of_eq_some h <;> simp

/-- The constants of a chain, at least two, are folded into one. -/
theorem mergeChain?_eq_some {op : BinaryOp} {e e' : Expr α} (h : mergeChain? op e = some e') :
    ∃ first second others merged,
      (e.operands op).filterMap constant? = first :: second :: others ∧
      (second :: others).foldlM (binary? op) first = some merged ∧
      chain? op (replaceConstants merged (e.operands op)) = some e' := by
  unfold mergeChain? at h
  dsimp only at h
  split at h
  · rename_i first second others hconstants
    obtain ⟨merged, hmerged, hchain⟩ := Option.bind_eq_some_iff.mp h
    exact ⟨first, second, others, merged, hconstants, hmerged, hchain⟩
  · cases h

/-- A rule for two operands folds constants, is one for zero or one, or merges a chain. -/
theorem reduceBinary_cases (op : BinaryOp) (l r : Expr α) :
    reduceBinary op l r = binary op l r ∨
      (∃ a b w, l = constant a ∧ r = constant b ∧ binary? op a b = some w ∧
        reduceBinary op l r = constant w) ∨
      identity? op l r = some (reduceBinary op l r) ∨
      mergeChain? op (binary op l r) = some (reduceBinary op l r) := by
  generalize hr : reduceBinary op l r = reduced
  unfold reduceBinary at hr
  split at hr
  · rename_i e hfold
    unfold fold? at hfold
    split at hfold
    · rename_i a b
      obtain ⟨w, hw, rfl⟩ := Option.map_eq_some_iff.mp hfold
      exact .inr (.inl ⟨a, b, w, rfl, rfl, hw, hr.symm⟩)
    · cases hfold
  · split at hr
    · rename_i e hidentity
      exact .inr (.inr (.inl (hidentity.trans (congrArg some hr))))
    · split at hr
      · cases hm : mergeChain? op (binary op l r) with
        | none => exact .inl (by rw [← hr, hm, Option.getD_none])
        | some e => exact .inr (.inr (.inr (by rw [← hr, hm, Option.getD_some])))
      · exact .inl hr.symm

end

theorem chain?_eq_some {op : BinaryOp} {es : List (Expr α)} {e : Expr α}
    (h : chain? op es = some e) : ∃ d ds, es = d :: ds ∧ e = ds.foldl (binary op) d := by
  cases es with
  | nil => cases h
  | cons d ds => exact ⟨d, ds, rfl, (Option.some.inj h).symm⟩

/-! ## Size -/

/-- The nodes of some operands, with one more node for each. -/
def chainSize : List (Expr α) → Nat
  | [] => 0
  | e :: es => e.count + 1 + chainSize es

theorem chainSize_cons (e : Expr α) (es : List (Expr α)) :
    chainSize (e :: es) = e.count + 1 + chainSize es := rfl

theorem chainSize_append (ds es : List (Expr α)) :
    chainSize (ds ++ es) = chainSize ds + chainSize es := by
  induction ds with
  | nil => exact (Nat.zero_add _).symm
  | cons d ds ih =>
    rw [List.cons_append, chainSize_cons, chainSize_cons, ih]
    omega

theorem chainSize_operands (op : BinaryOp) (e : Expr α) :
    chainSize (e.operands op) = e.count + 1 := by
  induction e with
  | binary op' l r ihl ihr =>
    rw [operands]
    split
    · rw [chainSize_append, ihl, ihr, count]
      omega
    · rfl
  | _ => rfl

theorem count_foldl (op : BinaryOp) (d : Expr α) (ds : List (Expr α)) :
    (ds.foldl (binary op) d).count + 1 = chainSize (d :: ds) := by
  induction ds generalizing d with
  | nil => rfl
  | cons d' ds ih =>
    rw [List.foldl_cons, ih, chainSize_cons, chainSize_cons, chainSize_cons, count]
    omega

theorem filterMap_constant?_cons (v : α) (es : List (Expr α)) :
    (constant v :: es).filterMap constant? = v :: es.filterMap constant? := rfl

theorem chainSize_filter (es : List (Expr α)) :
    chainSize (es.filter (·.constant?.isNone)) + 2 * (es.filterMap constant?).length =
      chainSize es := by
  induction es with
  | nil => rfl
  | cons e es ih =>
    cases e with
    | constant v =>
      rw [List.filter_cons_of_neg Bool.false_ne_true, filterMap_constant?_cons, chainSize_cons,
        List.length_cons, count]
      omega
    | _ =>
      rw [List.filter_cons_of_pos rfl, List.filterMap_cons_none rfl, chainSize_cons, chainSize_cons]
      omega

/-- Each constant but the first is dropped with the operator that joined it. -/
theorem chainSize_replaceConstants (merged : α) {es : List (Expr α)}
    (h : es.filterMap constant? ≠ []) :
    chainSize (replaceConstants merged es) + 2 * (es.filterMap constant?).length =
      chainSize es + 2 := by
  induction es with
  | nil => exact absurd rfl h
  | cons e es ih =>
    cases e with
    | constant v =>
      have := chainSize_filter es
      rw [replaceConstants, filterMap_constant?_cons, chainSize_cons, chainSize_cons,
        List.length_cons, count, count]
      omega
    | _ =>
      have := ih h
      rw [replaceConstants, List.filterMap_cons_none rfl, chainSize_cons, chainSize_cons]
      · omega
      · rintro v ⟨⟩

/-- The same expression or one with fewer nodes. -/
def Shrinks (e e' : Expr α) : Prop := e' = e ∨ e'.count < e.count

theorem Shrinks.count_le {e e' : Expr α} (h : Shrinks e e') : e'.count ≤ e.count := by
  rcases h with rfl | h
  · exact Nat.le_refl _
  · exact Nat.le_of_lt h

section

variable [FoldingDomain α]

theorem count_mergeChain? {op : BinaryOp} {e e' : Expr α} (h : mergeChain? op e = some e') :
    e'.count < e.count := by
  obtain ⟨first, second, others, merged, hconstants, -, hchain⟩ := mergeChain?_eq_some h
  obtain ⟨d, ds, hds, rfl⟩ := chain?_eq_some hchain
  have hne : (e.operands op).filterMap constant? ≠ [] := by simp [hconstants]
  have hsize := chainSize_replaceConstants merged hne
  rw [hds, ← count_foldl op, chainSize_operands, hconstants] at hsize
  simp only [List.length_cons] at hsize
  omega

theorem count_identity? {op : BinaryOp} {l r e : Expr α} (h : identity? op l r = some e) :
    e.count < (binary op l r).count := by
  have hl := l.count_pos
  have hr := r.count_pos
  rcases identity?_cases h with rfl | rfl | rfl | rfl | rfl <;> simp only [count] <;> omega

theorem shrinks_respected : Respected (Shrinks (α := α)) where
  refl _ := .inl rfl
  trans h h' := by
    rcases h with rfl | h
    · exact h'
    · rcases h' with rfl | h'
      · exact .inr h
      · exact .inr (Nat.lt_trans h' h)
  unary op e e' h := h.imp (congrArg _) (Nat.add_lt_add_right · 1)
  binary op l l' r r' hl hr := by
    rcases hl with rfl | hl
    · exact hr.imp (congrArg _) fun hr => by simp only [count]; omega
    · have := hr.count_le
      exact .inr (by simp only [count]; omega)
  reduceUnary op e := by
    rcases reduceUnary_cases op e with h | ⟨v, w, rfl, -, h⟩ | ⟨-, h⟩
    · exact .inl h
    · exact .inr (by simp [h, count])
    · have hcount := congrArg count h
      rw [count] at hcount
      exact .inr (by rw [count, hcount]; omega)
  reduceBinary op l r := by
    rcases reduceBinary_cases op l r with h | ⟨a, b, w, rfl, rfl, -, h⟩ | h | h
    · exact .inl h
    · exact .inr (by simp [h, count])
    · exact .inr (count_identity? h)
    · exact .inr (count_mergeChain? h)

/-- A pass leaves an expression as it is or makes it smaller. -/
theorem simplifyPass_shrinks (e : Expr α) : Shrinks e e.simplifyPass :=
  shrinks_respected.simplifyPass e

/-! ## The end of simplification -/

omit [FoldingDomain α] in
theorem count_of_agrees {same : α → α → Bool} {e e' : Expr α} (h : agrees same e e' = true) :
    e.count = e'.count := by
  induction e generalizing e' with
  | constant v | var | parameter n => cases e' <;> first | rfl | cases h
  | unary op e ih =>
    cases e' with
    | unary op' e' =>
      rw [agrees, Bool.and_eq_true] at h
      rw [count, count, ih h.2]
    | _ => cases h
  | binary op l r ihl ihr =>
    cases e' with
    | binary op' l' r' =>
      rw [agrees, Bool.and_eq_true, Bool.and_eq_true] at h
      rw [count, count, ihl h.1.2, ihr h.2]
    | _ => cases h

/-- A pass counts as changing nothing exactly if it changes nothing. -/
theorem simplifyPass_agrees_iff {e : Expr α} :
    e.simplifyPass.agrees same e = true ↔ e.simplifyPass = e := by
  constructor
  · intro h
    have := count_of_agrees h
    rcases simplifyPass_shrinks e with hsame | hless
    · exact hsame
    · omega
  · intro h
    rw [h]
    exact agrees_self same_self e

/-- With as many passes as nodes, simplification ends with an expression that a pass leaves as it is. -/
theorem simplifyPass_simplifyFrom {n : Nat} {e : Expr α} (h : e.count ≤ n) :
    (simplifyFrom n e).simplifyPass = simplifyFrom n e := by
  induction n generalizing e with
  | zero =>
    have := e.count_pos
    omega
  | succ n ih =>
    rw [simplifyFrom]
    split
    · rename_i hagrees
      have hsame := simplifyPass_agrees_iff.mp hagrees
      rw [hsame, hsame]
    · rename_i hagrees
      rcases simplifyPass_shrinks e with hsame | hless
      · exact absurd (simplifyPass_agrees_iff.mpr hsame) hagrees
      · exact ih (by omega)

theorem simplifyPass_simplify (e : Expr α) : e.simplify.simplifyPass = e.simplify :=
  simplifyPass_simplifyFrom (Nat.le_refl _)

/-- An expression that a pass leaves as it is, is simplified. -/
theorem simplify_of_simplifyPass {e : Expr α} (h : e.simplifyPass = e) : e.simplify = e := by
  obtain ⟨n, hn⟩ := Nat.exists_eq_add_of_lt e.count_pos
  rw [simplify, hn, Nat.zero_add, simplifyFrom, if_pos (simplifyPass_agrees_iff.mpr h), h]

theorem simplify_simplify (e : Expr α) : e.simplify.simplify = e.simplify :=
  simplify_of_simplifyPass (simplifyPass_simplify e)

theorem count_simplify (e : Expr α) : e.simplify.count ≤ e.count :=
  (shrinks_respected.simplify e).count_le

end

end Expr

end FormulaSearch
