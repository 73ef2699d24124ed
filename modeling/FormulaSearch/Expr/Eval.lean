import FormulaSearch.Expr.Basic
import FormulaSearch.Expr.Column

/-!
# Evaluation

A formula is evaluated at one value of the variable or at many, under an assignment of values to its
parameters. The only way to fail is a parameter without a value; the first such parameter in pre-order
is reported. Numbers never fail: they become infinite or stop being numbers.
-/

namespace FormulaSearch

/-- The value of each parameter that has one. -/
abbrev Assignment := String → Option Float

/-- A parameter without a value. -/
structure MissingParameter where
  name : String
deriving DecidableEq, Repr

/-- Looks up a parameter that has to be there. -/
def Assignment.value (p : Assignment) (name : String) : Except MissingParameter Float :=
  match p name with
  | some v => .ok v
  | none => .error ⟨name⟩

namespace Expr

/-- The values of a formula where the variable has the values `x`. -/
def column (p : Assignment) (x : Column) : Formula → Except MissingParameter Column
  | constant v => .ok (.single v)
  | var => .ok x
  | parameter n => (p.value n).map .single
  | unary op e => (e.column p x).map (.map op.apply)
  | binary op l r => do
    let a ← l.column p x
    let b ← r.column p x
    return .combine op a b

/-- The value at one point. -/
def evaluate (e : Formula) (p : Assignment) (x : Float) : Except MissingParameter Float := do
  match ← e.column p (.single x) with
  | .single v => return v
  | .many vs => return vs.headD 0.0

/-- The values at all points of a list. -/
def evaluateAll (e : Formula) (p : Assignment) (xs : List Float) :
    Except MissingParameter (List Float) :=
  (e.column p (.many xs)).map (Column.spread xs.length)

/-- The formula with its parameters replaced by their values. -/
def close (p : Assignment) : Formula → Except MissingParameter Formula
  | constant v => .ok (constant v)
  | var => .ok var
  | parameter n => (p.value n).map constant
  | unary op e => (e.close p).map (unary op)
  | binary op l r => do
    let a ← l.close p
    let b ← r.close p
    return binary op a b

end Expr

end FormulaSearch
