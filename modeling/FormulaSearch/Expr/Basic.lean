import FormulaSearch.Expr.Operator

/-!
# Expressions

An expression is a tree over one variable, named parameters and constants. The type of the constants
is left open, so that simplification can be studied over any arithmetic; a `Formula` has doubles. The
tree is read in pre-order throughout: a node before its children, the left child before the right.
-/

namespace FormulaSearch

/-- A tree of operators over constants of type `α`, the variable and named parameters. -/
inductive Expr (α : Type) where
  | constant (value : α)
  | var
  | parameter (name : String)
  | unary (op : UnaryOp) (child : Expr α)
  | binary (op : BinaryOp) (left right : Expr α)
deriving Repr

/-- An expression over doubles. -/
abbrev Formula := Expr Float

/-- The name of the variable, which no parameter may have. -/
def variableName : String := "x"

namespace Expr

variable {α : Type}

/-! ## Shape -/

/-- The number of children. -/
def arity : Expr α → Nat
  | constant _ | var | parameter _ => 0
  | unary _ _ => 1
  | binary _ _ _ => 2

/-- Whether the expression is a leaf. -/
def isTerminal : Expr α → Bool
  | constant _ | var | parameter _ => true
  | _ => false

/-- The number of nodes. -/
def count : Expr α → Nat
  | constant _ | var | parameter _ => 1
  | unary _ e => e.count + 1
  | binary _ l r => l.count + r.count + 1

/-- The number of nodes on the longest path from the root. -/
def depth : Expr α → Nat
  | constant _ | var | parameter _ => 1
  | unary _ e => e.depth + 1
  | binary _ l r => max l.depth r.depth + 1

theorem count_pos (e : Expr α) : 0 < e.count := by
  cases e <;> simp [count]

/-! ## Nodes in order -/

/-- The subtrees in pre-order. -/
def preorder : Expr α → List (Expr α)
  | constant v => [constant v]
  | var => [var]
  | parameter n => [parameter n]
  | unary op e => unary op e :: e.preorder
  | binary op l r => binary op l r :: (l.preorder ++ r.preorder)

/-- The first `n` nodes met with the trees on a stack: the top is yielded and replaced by its
children, the left on top. -/
def visit : Nat → List (Expr α) → List (Expr α)
  | 0, _ | _, [] => []
  | n + 1, e :: stack =>
    e :: match e with
      | constant _ | var | parameter _ => visit n stack
      | unary _ child => visit n (child :: stack)
      | binary _ l r => visit n (l :: r :: stack)

/-- Every subtree, visited with a stack. -/
def nodes (e : Expr α) : List (Expr α) := visit e.count [e]

/-- The name of a parameter leaf. -/
def parameterName? : Expr α → Option String
  | parameter n => some n
  | _ => none

/-- The members of a list at their first occurrence. -/
def firstOccurrences (names : List String) : List String :=
  names.foldl (fun seen n => if seen.contains n then seen else seen ++ [n]) []

/-- The distinct parameter names in the order of their first occurrence. -/
def parameterNames (e : Expr α) : List String :=
  firstOccurrences (e.nodes.filterMap parameterName?)

/-! ## Copies with changes -/

/-- The expression with its parameters renamed. -/
def rename (f : String → String) : Expr α → Expr α
  | constant v => constant v
  | var => var
  | parameter n => parameter (f n)
  | unary op e => unary op (e.rename f)
  | binary op l r => binary op (l.rename f) (r.rename f)

/-! ## Agreement -/

/-- Whether two expressions have the same shape and their constants agree. -/
def agrees (same : α → α → Bool) : Expr α → Expr α → Bool
  | constant a, constant b => same a b
  | var, var => true
  | parameter m, parameter n => m == n
  | unary p a, unary q b => p == q && agrees same a b
  | binary p a b, binary q c d => p == q && agrees same a c && agrees same b d
  | _, _ => false

theorem agrees_self {same : α → α → Bool} (h : ∀ a, same a a = true) (e : Expr α) :
    agrees same e e = true := by
  induction e with
  | constant v => exact h v
  | var => rfl
  | parameter n => simp [agrees]
  | unary op e ih => simp [agrees, ih]
  | binary op l r ihl ihr => simp [agrees, ihl, ihr]

end Expr

/-! ## Doubles as constants -/

/-- Whether two doubles are the same constant: equal as numbers, or the same bits, so that a constant
that is no number is the same as itself. -/
def sameConstant (a b : Float) : Bool := a.toBits == b.toBits || a == b

theorem sameConstant_self (a : Float) : sameConstant a a = true := by
  simp [sameConstant]

/-- Whether two formulas are equal node by node, constants compared as numbers. -/
def Expr.equals (a b : Formula) : Bool := a.agrees (· == ·) b

/-- Whether a formula is a constant with the given value. -/
def Expr.isConstant (e : Formula) (value : Float) : Bool :=
  match e with
  | .constant v => v == value
  | _ => false

end FormulaSearch
