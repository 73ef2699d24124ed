import FormulaSearch.Expr.Basic

/-!
# Simplification

A pass treats every node once, children first: constants are folded, neutral and absorbing constants
and double signs disappear, and the constants of a chain of sums or products merge into one. Passes are
repeated until one changes nothing. Every change takes away at least one node, so there are at most as
many passes as nodes. The rules see numbers only through the class `FoldingDomain`.
-/

namespace FormulaSearch

/-! ## What the rules know of numbers -/

/-- An arithmetic as far as simplification sees it. An operator that is not folded has no value. -/
class FoldingDomain (α : Type) where
  zero : α
  one : α
  isZero : α → Bool
  isOne : α → Bool
  same : α → α → Bool
  same_self : ∀ a, same a a = true
  unary? : UnaryOp → α → Option α
  binary? : BinaryOp → α → α → Option α

/-- A folded double is kept only if it is finite. -/
def finite? (v : Float) : Option Float := if v.isFinite then some v else none

instance : FoldingDomain Float where
  zero := 0.0
  one := 1.0
  isZero v := v == 0.0
  isOne v := v == 1.0
  same := sameConstant
  same_self := sameConstant_self
  unary? op v := finite? (op.apply v)
  binary? op a b := finite? (op.apply true a b)

namespace Expr

open FoldingDomain

variable {α : Type}

/-! ## Chains of sums and products -/

/-- The value of a constant leaf. -/
def constant? : Expr α → Option α
  | constant v => some v
  | _ => none

/-- The operands of nested applications of an operator, from left to right. -/
def operands (op : BinaryOp) : Expr α → List (Expr α)
  | binary op' l r =>
    if op' = op then l.operands op ++ r.operands op else [binary op' l r]
  | e => [e]

/-- Puts a constant in the place of the first constant and drops the others. -/
def replaceConstants (merged : α) : List (Expr α) → List (Expr α)
  | [] => []
  | e :: es =>
    match e with
    | constant _ => constant merged :: es.filter (·.constant?.isNone)
    | _ => e :: replaceConstants merged es

/-- Operands joined by an operator, associating to the left. -/
def chain? (op : BinaryOp) : List (Expr α) → Option (Expr α)
  | [] => none
  | e :: es => some (es.foldl (binary op) e)

variable [FoldingDomain α]

/-- The chain with its constants, if there are several, folded into one from left to right. -/
def mergeChain? (op : BinaryOp) (e : Expr α) : Option (Expr α) :=
  let parts := e.operands op
  match parts.filterMap constant? with
  | first :: second :: others => do
    let merged ← (second :: others).foldlM (binary? op) first
    chain? op (replaceConstants merged parts)
  | _ => none

/-! ## The rules -/

/-- Whether the expression is the constant zero. -/
def isZero : Expr α → Bool
  | constant v => FoldingDomain.isZero v
  | _ => false

/-- Whether the expression is the constant one. -/
def isOne : Expr α → Bool
  | constant v => FoldingDomain.isOne v
  | _ => false

/-- Folds an operator whose operands are constants. -/
def fold? (op : BinaryOp) : Expr α → Expr α → Option (Expr α)
  | constant a, constant b => (binary? op a b).map constant
  | _, _ => none

/-- Rules for the constants zero and one as operands. -/
def identity? (op : BinaryOp) (l r : Expr α) : Option (Expr α) :=
  match op with
  | .add => if r.isZero then some l else if l.isZero then some r else none
  | .sub => if r.isZero then some l else if l.isZero then some (unary .neg r) else none
  | .mul =>
    if l.isZero || r.isZero then some (constant zero)
    else if r.isOne then some l
    else if l.isOne then some r
    else none
  | .div => if r.isOne then some l else none
  | .pow =>
    if r.isOne then some l else if r.isZero then some (constant one) else none

/-- Whether the operands of the operator may be regrouped and reordered. -/
def isAssociative : BinaryOp → Bool
  | .add | .mul => true
  | _ => false

/-- Applies the rules at an operator whose one operand is already simplified. -/
def reduceUnary (op : UnaryOp) (child : Expr α) : Expr α :=
  match child with
  | constant v =>
    match unary? op v with
    | some w => constant w
    | none => unary op child
  | unary .neg inner => if op = .neg then inner else unary op child
  | _ => unary op child

/-- Applies the rules at an operator whose two operands are already simplified. -/
def reduceBinary (op : BinaryOp) (l r : Expr α) : Expr α :=
  match fold? op l r with
  | some e => e
  | none =>
    match identity? op l r with
    | some e => e
    | none =>
      if isAssociative op then (mergeChain? op (binary op l r)).getD (binary op l r)
      else binary op l r

/-- One pass over the tree, children before parents. -/
def simplifyPass : Expr α → Expr α
  | unary op e => reduceUnary op e.simplifyPass
  | binary op l r => reduceBinary op l.simplifyPass r.simplifyPass
  | e => e

/-! ## Passes until nothing changes -/

/-- At most `n` passes, ending with the first that changes nothing. -/
def simplifyFrom : Nat → Expr α → Expr α
  | 0, e => e
  | n + 1, e =>
    let next := e.simplifyPass
    if next.agrees same e then next else simplifyFrom n next

/-- The expression with all rules applied until none applies. -/
def simplify (e : Expr α) : Expr α := simplifyFrom e.count e

end Expr

end FormulaSearch
