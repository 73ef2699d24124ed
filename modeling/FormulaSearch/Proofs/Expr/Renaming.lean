import FormulaSearch.Proofs.Expr.Names
import FormulaSearch.Proofs.Expr.Passes

/-!
# Simplification under other names

The rules do not look at the names of parameters, so an expression may be renamed before it is simplified
or afterwards. This holds even if parameters fall together, because only the number of nodes tells whether
a pass has changed anything.
-/

namespace FormulaSearch

open FoldingDomain

namespace Expr

variable {α : Type}

/-! ## Chains -/

section

variable (f : String → String)

theorem constant?_rename (e : Expr α) : (e.rename f).constant? = e.constant? := by
  cases e <;> rfl

theorem operands_rename (op : BinaryOp) (e : Expr α) :
    (e.rename f).operands op = (e.operands op).map (rename f) := by
  induction e with
  | binary op' l r ihl ihr =>
    rw [rename, operands, operands]
    split
    · rw [ihl, ihr, List.map_append]
    · rfl
  | _ => rfl

theorem filter_constant?_rename (es : List (Expr α)) :
    (es.map (rename f)).filter (·.constant?.isNone) =
      (es.filter (·.constant?.isNone)).map (rename f) := by
  rw [List.filter_map]
  exact congrArg (List.map _) (List.filter_congr fun e _ => by simp [constant?_rename])

theorem replaceConstants_rename (merged : α) (es : List (Expr α)) :
    replaceConstants merged (es.map (rename f)) = (replaceConstants merged es).map (rename f) := by
  induction es with
  | nil => rfl
  | cons e es ih =>
    cases e with
    | constant v => exact congrArg (constant merged :: ·) (filter_constant?_rename f es)
    | _ => exact congrArg (_ :: ·) ih

theorem chain?_rename (op : BinaryOp) (es : List (Expr α)) :
    chain? op (es.map (rename f)) = (chain? op es).map (rename f) := by
  cases es with
  | nil => rfl
  | cons d ds =>
    rw [List.map_cons, chain?, chain?, Option.map_some, Option.some.injEq]
    induction ds generalizing d with
    | nil => rfl
    | cons d' ds ih => exact ih (binary op d d')

end

/-! ## Rules and passes -/

section

variable [FoldingDomain α] (f : String → String)

theorem mergeChain?_rename (op : BinaryOp) (e : Expr α) :
    mergeChain? op (e.rename f) = (mergeChain? op e).map (rename f) := by
  have hconstants : (constant? ∘ rename f : Expr α → Option α) = constant? :=
    funext (constant?_rename f)
  unfold mergeChain?
  dsimp only
  rw [operands_rename, List.filterMap_map, hconstants]
  split
  · simp only [Option.bind_eq_bind, Option.map_bind, replaceConstants_rename, chain?_rename]
    rfl
  · rfl

theorem fold?_rename (op : BinaryOp) (l r : Expr α) :
    fold? op (l.rename f) (r.rename f) = (fold? op l r).map (rename f) := by
  cases l with
  | constant a =>
    cases r with
    | constant b =>
      simp only [rename, fold?, Option.map_map]
      rfl
    | _ => rfl
  | _ => rfl

theorem isZero_rename (e : Expr α) : (e.rename f).isZero = e.isZero := by
  cases e <;> rfl

theorem isOne_rename (e : Expr α) : (e.rename f).isOne = e.isOne := by
  cases e <;> rfl

theorem identity?_rename (op : BinaryOp) (l r : Expr α) :
    identity? op (l.rename f) (r.rename f) = (identity? op l r).map (rename f) := by
  cases op <;> simp only [identity?, isZero_rename, isOne_rename] <;> grind [rename]

theorem reduceUnary_rename (op : UnaryOp) (e : Expr α) :
    reduceUnary op (e.rename f) = (reduceUnary op e).rename f := by
  cases e with
  | constant v =>
    simp only [rename, reduceUnary]
    split <;> rfl
  | unary op' inner =>
    cases op' with
    | neg =>
      simp only [rename, reduceUnary]
      split <;> rfl
    | _ => rfl
  | _ => rfl

theorem reduceBinary_rename (op : BinaryOp) (l r : Expr α) :
    reduceBinary op (l.rename f) (r.rename f) = (reduceBinary op l r).rename f := by
  have hmerge : mergeChain? op (binary op (l.rename f) (r.rename f)) =
      (mergeChain? op (binary op l r)).map (rename f) := mergeChain?_rename f op (binary op l r)
  unfold reduceBinary
  rw [fold?_rename, identity?_rename, hmerge]
  cases fold? op l r with
  | some e => rfl
  | none =>
    cases identity? op l r with
    | some e => rfl
    | none =>
      dsimp only [Option.map_none]
      split
      · cases mergeChain? op (binary op l r) <;> rfl
      · rfl

/-- A pass does the same under other names. -/
theorem simplifyPass_rename (e : Expr α) : (e.rename f).simplifyPass = e.simplifyPass.rename f := by
  induction e with
  | unary op e ih => rw [rename, simplifyPass, ih, reduceUnary_rename, simplifyPass]
  | binary op l r ihl ihr =>
    rw [rename, simplifyPass, ihl, ihr, reduceBinary_rename, simplifyPass]
  | _ => rfl

/-- Names do not decide whether a pass changes anything. -/
theorem simplifyPass_rename_eq_iff {e : Expr α} :
    (e.rename f).simplifyPass = e.rename f ↔ e.simplifyPass = e := by
  rw [simplifyPass_rename]
  constructor
  · intro h
    have hcount := congrArg count h
    rw [count_rename, count_rename] at hcount
    rcases simplifyPass_shrinks e with hsame | hless
    · exact hsame
    · omega
  · exact congrArg (rename f)

theorem simplifyFrom_rename (n : Nat) (e : Expr α) :
    simplifyFrom n (e.rename f) = (simplifyFrom n e).rename f := by
  induction n generalizing e with
  | zero => rfl
  | succ n ih =>
    rw [simplifyFrom, simplifyFrom]
    by_cases h : e.simplifyPass = e
    · rw [if_pos (simplifyPass_agrees_iff.mpr ((simplifyPass_rename_eq_iff f).mpr h)),
        if_pos (simplifyPass_agrees_iff.mpr h), simplifyPass_rename]
    · rw [if_neg (mt simplifyPass_agrees_iff.mp (mt (simplifyPass_rename_eq_iff f).mp h)),
        if_neg (mt simplifyPass_agrees_iff.mp h), simplifyPass_rename, ih]

/-- Simplification does the same under other names. -/
theorem simplify_rename (e : Expr α) : (e.rename f).simplify = e.simplify.rename f := by
  rw [simplify, simplify, count_rename, simplifyFrom_rename]

end

end Expr

end FormulaSearch
