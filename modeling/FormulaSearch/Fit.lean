import FormulaSearch.Candidate
import FormulaSearch.Fit.Simplex
import FormulaSearch.Residual

/-!
# Fitting

Fitting a candidate finds values for its parameters, within the parameter domain, that make its residual
small. The report holds the parameters as they are afterwards, whether the fit succeeded or not.
-/

namespace FormulaSearch

open Fit

/-! ## Outcomes -/

/-- The outcome of a successful fit. -/
structure FitResult where
  residue : Float
  iterations : Int

/-- Why a candidate could not be fitted. -/
inductive FitError where
  | noParameters
  | notConverged (residue : Float) (iterations : Int)
  | diverged (iterations : Int)

def FitError.message : FitError → String
  | noParameters => "candidate has no parameters to fit"
  | notConverged residue iterations =>
    "fit did not converge after " ++ toString iterations ++ " iterations (residue="
      ++ Decimal.shortText residue ++ ")"
  | diverged iterations =>
    "residual never became finite (" ++ toString iterations ++ " iterations)"

/-- Why a fit came to no result: the candidate could not be fitted, or it was not possible to try. -/
inductive FitFailure where
  | unfit (e : FitError)
  | missing (e : MissingParameter)
  | unknown (e : UnknownChoice)

/-- The parameters after a fit and what it came to. -/
structure FitReport where
  params : Params
  result : Except FitFailure FitResult

/-! ## Algorithms -/

inductive Algorithm where
  | patternSearch
  | nelderMead
deriving DecidableEq, Repr

namespace Algorithm

def all : List Algorithm := [patternSearch, nelderMead]

def name : Algorithm → String
  | patternSearch => "pattern_search"
  | nelderMead => "nelder_mead"

/-- The algorithm with a name. -/
def ofName (s : String) : Except UnknownChoice Algorithm :=
  match all.find? (·.name == s) with
  | some a => .ok a
  | none => .error ⟨"fit algorithm", s, all.map name⟩

end Algorithm

/-- The residual of a formula with some of its parameters' values changed, infinite if a parameter has
no value. -/
def costAt (kind : ResidualKind) (e : Formula) (params : Params) (d : Dataset) (point : Point) :
    Float :=
  match residual kind e (params.withValues point).assignment d with
  | .ok v => v
  | .error _ => infinity

/-- Whether every parameter of a formula has a value; the first that has none is the error. -/
def checkParameters (e : Formula) (params : Params) : Except MissingParameter Unit :=
  match e.parameterNames.find? (!params.contains ·) with
  | some name => .error ⟨name⟩
  | none => .ok ()

/-- A residue with its iterations, refused if it is not finite or the search was cut short. -/
def conclude (residue : Float) (iterations : Int) (finished : Bool) : Except FitError FitResult :=
  if !residue.isFinite then .error (.diverged iterations)
  else if finished then .ok ⟨residue, iterations⟩
  else .error (.notConverged residue iterations)

/-- A report on parameters with new values. -/
def reportAt (params : Params) (point : Point) (result : Except FitError FitResult) : FitReport :=
  ⟨params.withValues point, match result with
    | .ok r => .ok r
    | .error e => .error (.unfit e)⟩

/-- Fits by pattern search from the given values. -/
def fitByPattern (config : Config) (kind : ResidualKind) (e : Formula) (params : Params)
    (d : Dataset) : FitReport :=
  let problem : Problem :=
    ⟨config.paramValueMin, config.paramValueMax, costAt kind e params d⟩
  let finish := PatternSearch.runEach problem config.minStep
    (List.replicate params.size (config.initialStepFraction * config.domainWidth))
    config.fitMaxIters.toNat params.values
  reportAt params finish.walk.point
    (conclude finish.walk.cost finish.rounds finish.converged)

/-- What the simplex minimises: the residual of the predictions at a point that is moved into the domain
first, infinite unless all of them and the total are finite. -/
def simplexObjective (config : Config) (kind : ResidualKind) (e : Formula) (params : Params)
    (d : Dataset) (point : Point) : Except MissingParameter Float := do
  let inside := point.map (clampTo config.paramValueMin config.paramValueMax)
  let predicted ← e.evaluateAll (params.withValues inside).assignment d.xs
  if predicted.all Float.isFinite then
    let value := kind.total predicted d.ys
    return if value.isFinite then value else infinity
  else
    return infinity

/-- The search of the simplex, with an infinite cost if a parameter has no value. -/
def simplexProblem (config : Config) (kind : ResidualKind) (e : Formula) (params : Params)
    (d : Dataset) : Problem where
  lower := config.paramValueMin
  upper := config.paramValueMax
  cost point :=
    match simplexObjective config kind e params d point with
    | .ok v => v
    | .error _ => infinity

/-- Fits by the downhill simplex from the given values. -/
def fitBySimplex (config : Config) (kind : ResidualKind) (e : Formula) (params : Params)
    (d : Dataset) : FitReport :=
  let clip := fun p : Point => p.map (clampTo config.paramValueMin config.paramValueMax)
  let finish := Simplex.run (simplexProblem config kind e params d) config.minStep
    config.fitMaxIters.toNat (clip params.values)
  match finish.state.vertices with
  | best :: _ =>
    reportAt params (clip best.point)
      (conclude best.cost finish.iterations (finish.iterations < config.fitMaxIters))
  | [] => ⟨params, .error (.unfit .noParameters)⟩

/-- The parameters that an algorithm starts from: pattern search moves their values into the domain before
anything else can fail. -/
def Algorithm.start (algorithm : Algorithm) (config : Config) (c : Candidate) : Params :=
  match algorithm with
  | .patternSearch => c.params.clamp config.paramValueMin config.paramValueMax
  | .nelderMead => c.params

/-- Fits a candidate by an algorithm with the configured residual. -/
def Algorithm.fit (algorithm : Algorithm) (config : Config) (d : Dataset) (c : Candidate) :
    FitReport :=
  if c.params.size = 0 then ⟨c.params, .error (.unfit .noParameters)⟩ else
    let start := algorithm.start config c
    match ResidualKind.ofName config.residualFunction with
    | .error e => ⟨start, .error (.unknown e)⟩
    | .ok kind =>
      match checkParameters c.expression start with
      | .error e => ⟨start, .error (.missing e)⟩
      | .ok () =>
        match algorithm with
        | .patternSearch => fitByPattern config kind c.expression start d
        | .nelderMead => fitBySimplex config kind c.expression start d

/-- Fits a candidate with the configured algorithm and residual. -/
def fit (config : Config) (d : Dataset) (c : Candidate) : FitReport :=
  match Algorithm.ofName config.fitAlgorithm with
  | .error e => ⟨c.params, .error (.unknown e)⟩
  | .ok algorithm => algorithm.fit config d c

end FormulaSearch
