import FormulaSearch.Decimal.Notation

/-!
# Settings

The settings of a search, the rules they have to obey, and the type `Config` of settings that obey them.
The rules are checked in a fixed order and the first that is broken is reported.
-/

namespace FormulaSearch

/-- What can be set; the defaults are those of a search without options. -/
structure Settings where
  datasetPath : String := "./data/fit_Dm_4.dat"
  /-- The first best candidate must have no greater residue. -/
  residueThreshold : Float := 1.0 / 0.0
  /-- Larger candidates are not fitted by a search. -/
  maxParams : Int := 7
  fitAlgorithm : String := "pattern_search"
  residualFunction : String := "least_squares"
  paramValueMin : Float := -5.0
  paramValueMax : Float := 5.0
  minStep : Float := 1e-3
  fitMaxIters : Int := 1000
  /-- The first step as a part of the width of the parameter domain. -/
  initialStepFraction : Float := 0.1
  complexityMin : Int := 10
  complexityMax : Int := 30
  leafProbability : Float := 0.25
  unaryProbability : Float := 0.3
  maxGenerated : Option Int := none
  maxFitted : Option Int := none
  /-- In seconds. -/
  maxDuration : Option Float := none
  seed : Option Int := none
  /-- Seconds between lines on progress; zero for none. -/
  statsInterval : Float := 10.0
  verbose : Bool := true
  /-- A fixed formula to fit in place of random ones. -/
  template : Option String := none
  templateParams : List (String × Float) := []

/-! ## Rules -/

/-- The rule that settings break. -/
inductive SettingsError where
  | emptyDomain (lower upper : Float)
  | infiniteDomain
  | minStepNotPositive
  | tooFewIterations
  | stepFractionOutOfRange
  | negativeMaxParams
  | badComplexityRange (lower upper : Int)
  | badProbability (name : String)
  | negativeLimit (name : String)
deriving Repr

def SettingsError.message : SettingsError → String
  | emptyDomain lower upper =>
    "param_value_min (" ++ Decimal.fullText lower ++ ") must be below param_value_max ("
      ++ Decimal.fullText upper ++ ")"
  | infiniteDomain => "parameter domain bounds must be finite"
  | minStepNotPositive => "min_step must be positive"
  | tooFewIterations => "fit_max_iters must be at least 1"
  | stepFractionOutOfRange => "initial_step_fraction must be in (0, 1]"
  | negativeMaxParams => "max_params must be non-negative"
  | badComplexityRange lower upper =>
    "complexity range [" ++ toString lower ++ ", " ++ toString upper ++ "] is invalid"
  | badProbability name => name ++ " must be within [0, 1]"
  | negativeLimit name => name ++ " must be non-negative"

namespace Settings

/-- Whether an optional count is set and negative. -/
def isNegative (limit : Option Int) : Bool := limit.any (· < 0)

/-- Each rule in the order of checking: whether it is broken, and the error that says so. -/
def checks (s : Settings) : List (Bool × SettingsError) :=
  [ (!(s.paramValueMin < s.paramValueMax : Bool), .emptyDomain s.paramValueMin s.paramValueMax),
    (!(s.paramValueMin.isFinite && s.paramValueMax.isFinite), .infiniteDomain),
    (s.minStep ≤ 0.0, .minStepNotPositive),
    (s.fitMaxIters < 1, .tooFewIterations),
    (!((0.0 < s.initialStepFraction : Bool) && (s.initialStepFraction ≤ 1.0 : Bool)),
      .stepFractionOutOfRange),
    (s.maxParams < 0, .negativeMaxParams),
    (!((0 ≤ s.complexityMin : Bool) && (s.complexityMin ≤ s.complexityMax : Bool)),
      .badComplexityRange s.complexityMin s.complexityMax),
    (!((0.0 ≤ s.leafProbability : Bool) && (s.leafProbability ≤ 1.0 : Bool)),
      .badProbability "leaf_probability"),
    (!((0.0 ≤ s.unaryProbability : Bool) && (s.unaryProbability ≤ 1.0 : Bool)),
      .badProbability "unary_probability"),
    (isNegative s.maxGenerated, .negativeLimit "max_generated"),
    (isNegative s.maxFitted, .negativeLimit "max_fitted"),
    (s.maxDuration.any (· < 0.0), .negativeLimit "max_duration"),
    (s.statsInterval < 0.0, .negativeLimit "stats_interval") ]

/-- The first broken rule. -/
def error? (s : Settings) : Option SettingsError :=
  (s.checks.find? (·.1)).map (·.2)

/-- The width of the parameter domain. -/
def domainWidth (s : Settings) : Float := s.paramValueMax - s.paramValueMin

/-- Whether anything but an interruption ends the search. -/
def hasStopCondition (s : Settings) : Bool :=
  s.maxGenerated.isSome || s.maxFitted.isSome || s.maxDuration.isSome

end Settings

/-! ## Accepted settings -/

/-- Settings that obey every rule. -/
structure Config extends Settings where
  accepted : toSettings.error? = none

/-- Accepts settings or tells which rule they break. -/
def Config.ofSettings (s : Settings) : Except SettingsError Config :=
  match h : s.error? with
  | none => .ok ⟨s, h⟩
  | some e => .error e

end FormulaSearch
