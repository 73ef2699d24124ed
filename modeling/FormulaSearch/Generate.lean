import FormulaSearch.Params
import FormulaSearch.Random.Source
import FormulaSearch.Settings.Basic

/-!
# Random formulas

A formula is grown within a budget of operators. With nothing left a leaf is drawn; otherwise a draw
decides between a leaf and an operator, another between one operand and two. An operator costs one, and
two operands share what is left at a random cut. Every parameter leaf is a new parameter with a random
value from the domain.
-/

namespace FormulaSearch

open RandomSource

/-- The constants that a leaf may be: a half, one, two, three, ten, π and e. -/
def constantTable : List Float :=
  [0.5, 1.0, 2.0, 3.0, 10.0, 3.141592653589793, 2.718281828459045]

/-- The chance that a leaf is the variable. -/
def variableWeight : Float := 0.4

/-- The chance that a leaf is a parameter. -/
def parameterWeight : Float := 0.4

variable {σ : Type} [RandomSource σ]

/-- Draws a leaf and enters its parameter, if it is one. -/
def randomLeaf (settings : Settings) (params : Params) (s : σ) : Formula × Params × σ :=
  let (roll, s) := unit s
  if roll < variableWeight then (.var, params, s)
  else if roll < variableWeight + parameterWeight then
    let (value, s) := uniform settings.paramValueMin settings.paramValueMax s
    let (name, params) := params.addFresh value
    (.parameter name, params, s)
  else
    let (value, s) := choose constantTable (by decide) s
    (.constant value, params, s)

/-- Grows a formula of at most `budget` operators and enters its parameters. -/
def grow (settings : Settings) (budget : Nat) (params : Params) (s : σ) : Formula × Params × σ :=
  match budget with
  | 0 => randomLeaf settings params s
  | remaining + 1 =>
    let (leafRoll, s) := unit s
    if leafRoll < settings.leafProbability then randomLeaf settings params s else
      let (arityRoll, s) := unit s
      if arityRoll < settings.unaryProbability then
        let (op, s) := choose UnaryOp.all (by decide) s
        let (child, params, s) := grow settings remaining params s
        (.unary op child, params, s)
      else
        let (op, s) := choose BinaryOp.all (by decide) s
        match h : between 0 remaining s with
        | (cut, rest) =>
          have : cut ≤ remaining := by
            simpa only [h] using between_le 0 remaining s (Nat.zero_le remaining)
          let (left, params, s) := grow settings cut params rest
          let (right, params, s) := grow settings (remaining - cut) params s
          (.binary op left right, params, s)
termination_by budget
decreasing_by all_goals omega

/-- Grows a formula within a budget; a negative budget is no budget. -/
def generate (settings : Settings) (budget : Int) (params : Params) (s : σ) :
    Formula × Params × σ :=
  grow settings budget.toNat params s

end FormulaSearch
