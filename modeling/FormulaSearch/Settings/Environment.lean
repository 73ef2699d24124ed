import FormulaSearch.Decimal.Reader
import FormulaSearch.Settings.Basic

/-!
# Defaults from the environment

Environment variables replace the built-in defaults. They are read in a fixed order, and the first that
should be a number and is not one is reported. A limit that is set to nothing is no limit.
-/

namespace FormulaSearch

open Decimal

/-- The value of each variable that is set. -/
abbrev Environment := String → Option String

namespace Environment

/-- The full name of a variable of this program. -/
def variableNamed (name : String) : String := "DATAFITTER_" ++ name

/-- The full names of all variables, in the order of reading. -/
def names : List String :=
  [ "DATASET_PATH", "FIT_RESIDUE_THRESHOLD", "FUNCTION_MAX_PARAMS", "FIT_ALGORITHM",
    "RESIDUAL_FUNCTION", "PARAM_VALUE_MIN", "PARAM_VALUE_MAX", "MIN_STEP", "FIT_MAX_ITERS",
    "INITIAL_STEP_FRACTION", "COMPLEXITY_MIN", "COMPLEXITY_MAX", "LEAF_PROBABILITY",
    "UNARY_PROBABILITY", "MAX_GENERATED", "MAX_FITTED", "MAX_DURATION", "STATS_INTERVAL",
    "SEED" ].map variableNamed

def text (env : Environment) (name default : String) : String :=
  (env (variableNamed name)).getD default

def real (env : Environment) (name : String) (default : Float) : Except NumberError Float :=
  match env (variableNamed name) with
  | some s => readFloat s
  | none => .ok default

def integer (env : Environment) (name : String) (default : Int) : Except NumberError Int :=
  match env (variableNamed name) with
  | some s => readInt s
  | none => .ok default

/-- An optional value is read unless the variable is unset or empty. -/
def optional {α : Type} (env : Environment) (name : String) (read : String → Except NumberError α) :
    Except NumberError (Option α) :=
  match env (variableNamed name) with
  | some s => if s.isEmpty then .ok none else (read s).map some
  | none => .ok none

/-- The default settings under an environment. -/
def settings (env : Environment) : Except NumberError Settings := do
  let base : Settings := {}
  let datasetPath := env.text "DATASET_PATH" base.datasetPath
  let residueThreshold ← env.real "FIT_RESIDUE_THRESHOLD" base.residueThreshold
  let maxParams ← env.integer "FUNCTION_MAX_PARAMS" base.maxParams
  let fitAlgorithm := env.text "FIT_ALGORITHM" base.fitAlgorithm
  let residualFunction := env.text "RESIDUAL_FUNCTION" base.residualFunction
  let paramValueMin ← env.real "PARAM_VALUE_MIN" base.paramValueMin
  let paramValueMax ← env.real "PARAM_VALUE_MAX" base.paramValueMax
  let minStep ← env.real "MIN_STEP" base.minStep
  let fitMaxIters ← env.integer "FIT_MAX_ITERS" base.fitMaxIters
  let initialStepFraction ← env.real "INITIAL_STEP_FRACTION" base.initialStepFraction
  let complexityMin ← env.integer "COMPLEXITY_MIN" base.complexityMin
  let complexityMax ← env.integer "COMPLEXITY_MAX" base.complexityMax
  let leafProbability ← env.real "LEAF_PROBABILITY" base.leafProbability
  let unaryProbability ← env.real "UNARY_PROBABILITY" base.unaryProbability
  let maxGenerated ← env.optional "MAX_GENERATED" readInt
  let maxFitted ← env.optional "MAX_FITTED" readInt
  let maxDuration ← env.optional "MAX_DURATION" readFloat
  let statsInterval ← env.real "STATS_INTERVAL" base.statsInterval
  let seed ← env.optional "SEED" readInt
  return { base with
    datasetPath, residueThreshold, maxParams, fitAlgorithm, residualFunction, paramValueMin,
    paramValueMax, minStep, fitMaxIters, initialStepFraction, complexityMin, complexityMax,
    leafProbability, unaryProbability, maxGenerated, maxFitted, maxDuration, statsInterval, seed }

end Environment

end FormulaSearch
