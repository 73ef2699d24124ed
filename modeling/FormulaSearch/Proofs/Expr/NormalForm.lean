import Mathlib.Logic.Function.Iterate
import FormulaSearch.Proofs.Expr.Passes

/-!
# Normal forms of the simplifier

A formula is normal if no rule applies at any of its nodes. That is said here in terms of the arithmetic
of doubles and without the rules: which operands would be folded, which constants would disappear and
which chains would be merged. The operands of a chain are those that make the formula when they are grouped
and of which none is a chain itself. A pass leaves exactly the normal formulas as they are, so the loop over
passes, which ends with the first one that changes nothing, ends with a normal formula.
-/

namespace FormulaSearch

open FoldingDomain

namespace Expr

/-! ## The loop over passes -/

section

variable {α : Type} [FoldingDomain α]

/-- Of the passes that start with the expression, the one after `k` others is the first whose result
agrees with what it was given. -/
structure SettlesAfter (e : Expr α) (k : Nat) : Prop where
  settled : agrees same (simplifyPass^[k + 1] e) (simplifyPass^[k] e) = true
  before : ∀ j < k, agrees same (simplifyPass^[j + 1] e) (simplifyPass^[j] e) = false

/-- The loop is one pass longer than that over the result of a pass that changes something. -/
theorem SettlesAfter.succ {e : Expr α} {k : Nat} (h : SettlesAfter e.simplifyPass k)
    (hchange : agrees same e.simplifyPass e = false) : SettlesAfter e (k + 1) := by
  refine ⟨h.settled, fun j hj => ?_⟩
  cases j with
  | zero => exact hchange
  | succ j => exact h.before j (Nat.lt_of_succ_lt_succ hj)

/-- As many passes as there are nodes are enough for one that changes nothing. -/
theorem simplifyFrom_eq_iterate {n : Nat} {e : Expr α} (h : e.count ≤ n) :
    ∃ k < n, SettlesAfter e k ∧ simplifyFrom n e = simplifyPass^[k + 1] e := by
  induction n generalizing e with
  | zero =>
    have := e.count_pos
    omega
  | succ n ih =>
    rw [simplifyFrom]
    split
    · rename_i hagrees
      exact ⟨0, n.succ_pos, ⟨hagrees, fun _ hj => absurd hj (Nat.not_lt_zero _)⟩, rfl⟩
    · rename_i hagrees
      -- the result of a pass that changes something has fewer nodes, so the remaining passes suffice
      have hless : e.simplifyPass.count < e.count :=
        (simplifyPass_shrinks e).resolve_left (mt simplifyPass_agrees_iff.mpr hagrees)
      obtain ⟨k, hk, hsettles, hloop⟩ := ih (e := e.simplifyPass) (by omega)
      exact ⟨k + 1, Nat.succ_lt_succ hk, hsettles.succ (Bool.not_eq_true _ ▸ hagrees), hloop⟩

theorem simplify_eq_iterate (e : Expr α) :
    ∃ k < e.count, SettlesAfter e k ∧ e.simplify = simplifyPass^[k + 1] e :=
  simplifyFrom_eq_iterate (Nat.le_refl _)

/-! ## Rules that do not apply -/

/-- No rule applies to an operator and its operand exactly if the operand is not folded and no double sign
is taken away. -/
theorem reduceUnary_eq_self_iff {op : UnaryOp} {e : Expr α} :
    reduceUnary op e = unary op e ↔
      (∀ v, e = constant v → unary? op v = none) ∧ (op = .neg → ∀ inner, e ≠ unary .neg inner) := by
  constructor
  · intro h
    constructor
    · rintro v rfl
      cases hfold : unary? op v with
      | none => rfl
      | some w => simp [reduceUnary, hfold] at h
    · rintro rfl inner rfl
      have := congrArg count h
      simp only [reduceUnary, if_true, count] at this
      omega
  · rintro ⟨hfold, hsign⟩
    rcases reduceUnary_cases op e with h | ⟨v, w, he, hw, -⟩ | ⟨hop, he⟩
    · exact h
    · rw [hfold v he] at hw
      cases hw
    · exact absurd he (hsign hop _)

theorem fold?_eq_none_iff {op : BinaryOp} {l r : Expr α} :
    fold? op l r = none ↔ ∀ a b, l = constant a → r = constant b → binary? op a b = none := by
  constructor
  · rintro h a b rfl rfl
    exact Option.map_eq_none_iff.mp h
  · intro h
    unfold fold?
    split
    · exact Option.map_eq_none_iff.mpr (h _ _ rfl rfl)
    · rfl

/-- No rule applies to an operator and its operands exactly if each kind of rule does not. -/
theorem reduceBinary_eq_self_iff {op : BinaryOp} {l r : Expr α} :
    reduceBinary op l r = binary op l r ↔
      fold? op l r = none ∧ identity? op l r = none ∧
        (isAssociative op = true → mergeChain? op (binary op l r) = none) := by
  constructor
  · intro h
    unfold reduceBinary at h
    split at h
    · rename_i e hfold
      unfold fold? at hfold
      split at hfold
      · obtain ⟨w, -, rfl⟩ := Option.map_eq_some_iff.mp hfold
        cases h
      · cases hfold
    · rename_i hfold
      refine ⟨hfold, ?_⟩
      split at h
      · rename_i e hidentity
        exact absurd (congrArg count h) (Nat.ne_of_lt (count_identity? hidentity))
      · rename_i hidentity
        refine ⟨hidentity, fun hop => ?_⟩
        rw [if_pos hop] at h
        cases hmerge : mergeChain? op (binary op l r) with
        | none => rfl
        | some e =>
          rw [hmerge, Option.getD_some] at h
          exact absurd (congrArg count h) (Nat.ne_of_lt (count_mergeChain? hmerge))
  · rintro ⟨hfold, hidentity, hmerge⟩
    simp only [reduceBinary, hfold, hidentity]
    split
    · rename_i hop
      rw [hmerge hop, Option.getD_none]
    · rfl

omit [FoldingDomain α] in
theorem exists_chain?_replaceConstants (op : BinaryOp) (merged : α) {es : List (Expr α)}
    (h : es ≠ []) : ∃ e, chain? op (replaceConstants merged es) = some e := by
  cases es with
  | nil => exact absurd rfl h
  | cons e es => cases e <;> exact ⟨_, rfl⟩

/-- A chain is not merged exactly if it has no two constants or folding them fails on the way. -/
theorem mergeChain?_eq_none_iff {op : BinaryOp} {e : Expr α} :
    mergeChain? op e = none ↔
      ((e.operands op).filterMap constant?).length ≤ 1 ∨
        ∃ first others, (e.operands op).filterMap constant? = first :: others ∧
          others.foldlM (binary? op) first = none := by
  unfold mergeChain?
  dsimp only
  split
  · rename_i first second others hconstants
    rw [Option.bind_eq_bind, Option.bind_eq_none_iff]
    constructor
    · intro h
      refine .inr ⟨first, second :: others, hconstants, ?_⟩
      cases hmerged : (second :: others).foldlM (binary? op) first with
      | none => rfl
      | some merged =>
        have hne : e.operands op ≠ [] := by
          rintro hnil
          simp [hnil] at hconstants
        obtain ⟨e', he'⟩ := exists_chain?_replaceConstants op merged hne
        rw [h merged hmerged] at he'
        cases he'
    · rintro (hlength | ⟨first', others', hconstants', hfold⟩) merged hmerged
      · simp [hconstants] at hlength
      · rw [hconstants, List.cons.injEq] at hconstants'
        obtain ⟨rfl, rfl⟩ := hconstants'
        rw [hfold] at hmerged
        cases hmerged
  · rename_i hconstants
    refine ⟨fun _ => .inl ?_, fun _ => rfl⟩
    match h : (e.operands op).filterMap constant? with
    | [] | [_] => simp
    | first :: second :: others => exact absurd h (hconstants first second others)

/-! ## A pass that changes nothing -/

/-- A pass that leaves an operator as it is leaves its operand as it is too: no rule gives back the nodes
that another has taken away. -/
theorem simplifyPass_unary_eq_self_iff {op : UnaryOp} {e : Expr α} :
    (unary op e).simplifyPass = unary op e ↔
      e.simplifyPass = e ∧ reduceUnary op e = unary op e := by
  rw [simplifyPass]
  constructor
  · intro h
    rcases simplifyPass_shrinks e with hsame | hless
    · exact ⟨hsame, by rwa [hsame] at h⟩
    · have := (shrinks_respected.reduceUnary op e.simplifyPass).count_le
      rw [h, count, count] at this
      omega
  · rintro ⟨hsame, h⟩
    rw [hsame, h]

theorem simplifyPass_binary_eq_self_iff {op : BinaryOp} {l r : Expr α} :
    (binary op l r).simplifyPass = binary op l r ↔
      l.simplifyPass = l ∧ r.simplifyPass = r ∧ reduceBinary op l r = binary op l r := by
  rw [simplifyPass]
  constructor
  · intro h
    -- the rules at the root add no node, so neither operand can have lost one
    have hcount := (shrinks_respected.reduceBinary op l.simplifyPass r.simplifyPass).count_le
    rw [h, count, count] at hcount
    have hl := (simplifyPass_shrinks l).count_le
    have hr := (simplifyPass_shrinks r).count_le
    have hlsame := (simplifyPass_shrinks l).resolve_right (by omega)
    have hrsame := (simplifyPass_shrinks r).resolve_right (by omega)
    exact ⟨hlsame, hrsame, by rwa [hlsame, hrsame] at h⟩
  · rintro ⟨hl, hr, h⟩
    rw [hl, hr, h]

end

/-! ## Flattened chains -/

/-- Operands that an operator joins, two groups at a time, make an expression. -/
inductive Grouped {α : Type} (op : BinaryOp) : List (Expr α) → Expr α → Prop where
  | single (e : Expr α) : Grouped op [e] e
  | join {ls rs : List (Expr α)} {l r : Expr α} (hl : Grouped op ls l) (hr : Grouped op rs r) :
    Grouped op (ls ++ rs) (binary op l r)

/-- The flattened operands of an expression: grouped they make it, and none of them is an application of
the operator. -/
structure Flattened {α : Type} (op : BinaryOp) (e : Expr α) (es : List (Expr α)) : Prop where
  grouped : Grouped op es e
  flat : ∀ e' ∈ es, ∀ l r, e' ≠ binary op l r

section

variable {α : Type} {op : BinaryOp}

theorem operands_binary (l r : Expr α) :
    (binary op l r).operands op = l.operands op ++ r.operands op := by
  rw [operands, if_pos rfl]

theorem operands_eq_singleton {e : Expr α} (h : ∀ l r, e ≠ binary op l r) : e.operands op = [e] := by
  unfold operands
  split
  · rename_i op' l r
    rw [if_neg]
    rintro rfl
    exact h l r rfl
  · rfl

theorem flattened_operands (e : Expr α) : Flattened op e (e.operands op) := by
  by_cases h : ∃ l r, e = binary op l r
  · obtain ⟨l, r, rfl⟩ := h
    have hl := flattened_operands l
    have hr := flattened_operands r
    rw [operands_binary]
    exact ⟨.join hl.grouped hr.grouped, List.forall_mem_append.mpr ⟨hl.flat, hr.flat⟩⟩
  · have h : ∀ l r, e ≠ binary op l r := fun l r he => h ⟨l, r, he⟩
    rw [operands_eq_singleton h]
    exact ⟨.single e, List.forall_mem_singleton.mpr h⟩

/-- There is one flattened list of operands, the one that is merged. -/
theorem flattened_iff {e : Expr α} {es : List (Expr α)} :
    Flattened op e es ↔ e.operands op = es := by
  constructor
  · rintro ⟨hgrouped, hflat⟩
    induction hgrouped with
    | single e => exact operands_eq_singleton (hflat e (List.mem_singleton_self e))
    | join hl hr ihl ihr =>
      obtain ⟨hflatl, hflatr⟩ := List.forall_mem_append.mp hflat
      rw [operands_binary, ihl hflatl, ihr hflatr]
  · rintro rfl
    exact flattened_operands e

end

/-! ## Normal formulas -/

/-- The values of the constants among some operands, in order. -/
def constantOperands : List Formula → List Float
  | [] => []
  | constant v :: es => v :: constantOperands es
  | _ :: es => constantOperands es

theorem filterMap_constant?_eq (es : List Formula) : es.filterMap constant? = constantOperands es := by
  induction es with
  | nil => rfl
  | cons e es ih =>
    cases e with
    | constant v => exact congrArg (v :: ·) ih
    | var | parameter n | unary op e | binary op l r => exact ih

/-- Whether the running value of an operator over constants, from left to right, stops being finite. -/
def Overflows (op : BinaryOp) (running : Float) : List Float → Prop
  | [] => False
  | v :: vs =>
    (op.apply true running v).isFinite = false ∨ Overflows op (op.apply true running v) vs

/-- The formula is a constant that equals a value. -/
def IsValue (e : Formula) (value : Float) : Prop := ∃ v, e = constant v ∧ (v == value) = true

/-- Whether an operand is a zero or a one that makes the operator superfluous. -/
def HasNeutral (l r : Formula) : BinaryOp → Prop
  | .add | .sub => l.IsValue 0.0 ∨ r.IsValue 0.0
  | .mul => l.IsValue 0.0 ∨ r.IsValue 0.0 ∨ l.IsValue 1.0 ∨ r.IsValue 1.0
  | .div => r.IsValue 1.0
  | .pow => r.IsValue 0.0 ∨ r.IsValue 1.0

/-- No rule applies to the operator and its operand. -/
structure UnaryNormal (op : UnaryOp) (e : Formula) : Prop where
  folding : ∀ v, e = constant v → (op.apply v).isFinite = false
  sign : op = .neg → ∀ inner, e ≠ unary .neg inner

/-- No rule applies to the operator and its operands. -/
structure BinaryNormal (op : BinaryOp) (l r : Formula) : Prop where
  folding : ∀ a b, l = constant a → r = constant b → (op.apply true a b).isFinite = false
  neutral : ¬ HasNeutral l r op
  chain : op = .add ∨ op = .mul → ∃ es, Flattened op (binary op l r) es ∧
    ((constantOperands es).length ≤ 1 ∨
      ∃ first others, constantOperands es = first :: others ∧ Overflows op first others)

/-- No rule applies at the root. -/
def NormalAtRoot : Formula → Prop
  | constant _ | var | parameter _ => True
  | unary op e => UnaryNormal op e
  | binary op l r => BinaryNormal op l r

/-- No rule applies at any node. -/
def Normal (e : Formula) : Prop := ∀ e' ∈ e.preorder, e'.NormalAtRoot

theorem normal_unary_iff {op : UnaryOp} {e : Formula} :
    (unary op e).Normal ↔ e.Normal ∧ UnaryNormal op e := by
  simp only [Normal, preorder, List.forall_mem_cons]
  exact and_comm

theorem normal_binary_iff {op : BinaryOp} {l r : Formula} :
    (binary op l r).Normal ↔ l.Normal ∧ r.Normal ∧ BinaryNormal op l r := by
  simp only [Normal, preorder, List.forall_mem_cons, List.forall_mem_append]
  exact and_rotate

/-! ### The rules for doubles -/

theorem finite?_eq_none_iff {v : Float} : finite? v = none ↔ v.isFinite = false := by
  simp [finite?]

theorem foldlM_eq_none_iff {op : BinaryOp} {running : Float} {vs : List Float} :
    vs.foldlM (binary? op) running = none ↔ Overflows op running vs := by
  induction vs generalizing running with
  | nil => simp [Overflows]
  | cons v vs ih =>
    rw [List.foldlM_cons, Option.bind_eq_bind, Option.bind_eq_none_iff, Overflows]
    constructor
    · intro h
      cases hfinite : (op.apply true running v).isFinite with
      | false => exact .inl rfl
      | true => exact .inr (ih.mp (h _ (by simp [binary?, finite?, hfinite])))
    · intro h total htotal
      have htotal : (op.apply true running v).isFinite = true ∧ op.apply true running v = total := by
        simpa [binary?, finite?] using htotal
      obtain ⟨hfinite, rfl⟩ := htotal
      exact ih.mpr (h.resolve_left (by simp [hfinite]))

theorem isZero_iff {e : Formula} : e.isZero = true ↔ e.IsValue 0.0 := by
  cases e <;> simp [isZero, IsValue, FoldingDomain.isZero]

theorem isOne_iff {e : Formula} : e.isOne = true ↔ e.IsValue 1.0 := by
  cases e <;> simp [isOne, IsValue, FoldingDomain.isOne]

theorem identity?_eq_none_iff {op : BinaryOp} {l r : Formula} :
    identity? op l r = none ↔ ¬ HasNeutral l r op := by
  unfold identity?
  cases op <;> simp only [HasNeutral, ← isZero_iff, ← isOne_iff] <;> grind

theorem reduceUnary_eq_self_iff_normal {op : UnaryOp} {e : Formula} :
    reduceUnary op e = unary op e ↔ UnaryNormal op e := by
  rw [reduceUnary_eq_self_iff]
  constructor
  · rintro ⟨hfold, hsign⟩
    exact ⟨fun v hv => finite?_eq_none_iff.mp (hfold v hv), hsign⟩
  · rintro ⟨hfold, hsign⟩
    exact ⟨fun v hv => finite?_eq_none_iff.mpr (hfold v hv), hsign⟩

theorem isAssociative_iff {op : BinaryOp} : isAssociative op = true ↔ op = .add ∨ op = .mul := by
  cases op <;> decide

theorem reduceBinary_eq_self_iff_normal {op : BinaryOp} {l r : Formula} :
    reduceBinary op l r = binary op l r ↔ BinaryNormal op l r := by
  rw [reduceBinary_eq_self_iff, fold?_eq_none_iff, identity?_eq_none_iff, isAssociative_iff,
    mergeChain?_eq_none_iff]
  simp only [foldlM_eq_none_iff, filterMap_constant?_eq]
  constructor
  · rintro ⟨hfold, hneutral, hchain⟩
    exact ⟨fun a b ha hb => finite?_eq_none_iff.mp (hfold a b ha hb), hneutral,
      fun hop => ⟨_, flattened_operands _, hchain hop⟩⟩
  · rintro ⟨hfold, hneutral, hchain⟩
    refine ⟨fun a b ha hb => finite?_eq_none_iff.mpr (hfold a b ha hb), hneutral, fun hop => ?_⟩
    obtain ⟨es, hes, hconstants⟩ := hchain hop
    rwa [flattened_iff.mp hes]

/-- A pass leaves exactly the normal formulas as they are. -/
theorem simplifyPass_eq_self_iff {e : Formula} : e.simplifyPass = e ↔ e.Normal := by
  induction e with
  | constant v | var | parameter n => simp [simplifyPass, Normal, preorder, NormalAtRoot]
  | unary op e ih =>
    rw [simplifyPass_unary_eq_self_iff, normal_unary_iff, ih, reduceUnary_eq_self_iff_normal]
  | binary op l r ihl ihr =>
    rw [simplifyPass_binary_eq_self_iff, normal_binary_iff, ihl, ihr,
      reduceBinary_eq_self_iff_normal]

/-- A pass gives back its formula or one with fewer nodes. The loop over passes ends with the first one
that changes nothing, which is reached within as many passes as there are nodes. Its result has no more
nodes than the formula, no rule applies at any of its nodes, and it is its own simplification. -/
theorem simplify_normal (e : Formula) :
    (e.simplifyPass = e ∨ e.simplifyPass.count < e.count) ∧
      (∃ k < e.count, SettlesAfter e k ∧ e.simplify = simplifyPass^[k + 1] e) ∧
      e.simplify.count ≤ e.count ∧ e.simplify.Normal ∧ e.simplify.simplify = e.simplify :=
  ⟨simplifyPass_shrinks e, simplify_eq_iterate e, count_simplify e,
    simplifyPass_eq_self_iff.mp (simplifyPass_simplify e), simplify_simplify e⟩

/-- The first two constants have no finite product, so none of the three is merged. -/
example :
    (binary .mul (binary .mul (binary .mul (constant 1e200) var) (constant 1e200)) (constant 2.0) :
      Formula).simplify.count = 7 := by
  decide +kernel

end Expr

end FormulaSearch
