import FormulaSearch.Log
import FormulaSearch.Report

/-!
# Search

A search handles one candidate a step: it produces one, at random or from a template, fits it and keeps
it if it is at least as good as the best before. The whole state of a search is a value, so a step is a
function: the random source, the clock, the fitter, the program that tidies formulas, the counters, the best
candidate and what has been printed and logged.
-/

namespace FormulaSearch

/-! ## Clocks -/

/-- A clock: the time that each reading shows, and how often it has been read. -/
structure Clock where
  times : Nat → Float
  readings : Nat := 0

namespace Clock

/-- A clock that starts at zero and moves on by a step each time it is read. -/
def withStep (step : Float) : Clock := ⟨fun n => n.repeat (· + step) 0.0, 0⟩

/-- A clock that stands still. -/
def still (now : Float) : Clock := ⟨fun _ => now, 0⟩

/-- The time that the next reading shows. -/
def now (c : Clock) : Float := c.times c.readings

def read (c : Clock) : Float × Clock := (c.now, { c with readings := c.readings + 1 })

end Clock

/-! ## Fitters -/

/-- What became of handing a candidate to a fitter. -/
inductive FitAttempt where
  | reported (r : FitReport)
  | interrupted

/-- Fits candidates one after another. -/
class Fitter (φ : Type) where
  attempt : Config → Dataset → Candidate → φ → FitAttempt × φ

/-- Fits with the configured algorithm. -/
structure Optimizer where

instance : Fitter Optimizer where
  attempt config d c o := (.reported (fit config d c), o)

/-- The known outcome of a fit that leaves the parameters as they are. -/
inductive ScriptedFit where
  | result (r : FitResult)
  | failure (e : FitError)
  | interrupt

/-- Outcomes known in advance. -/
structure ScriptedFits where
  ahead : List ScriptedFit

/-- What a script comes to when it is used up. -/
def ScriptedFits.exhausted : FitResult := ⟨1e9, 1⟩

instance : Fitter ScriptedFits where
  attempt _ _ c s :=
    let next := s.ahead.headD (.result ScriptedFits.exhausted)
    (match next with
      | .result r => .reported ⟨c.params, .ok r⟩
      | .failure e => .reported ⟨c.params, .error (.unfit e)⟩
      | .interrupt => .interrupted,
      ⟨s.ahead.tail⟩)

/-! ## Plans -/

/-- The best candidate so far. -/
structure Best where
  candidate : Candidate
  residue : Float
  iterations : Int

/-- What stays the same during a search. -/
structure SearchPlan where
  dataset : Dataset
  config : Config
  template : Option Candidate

/-- Why a search cannot start. -/
inductive SearchError where
  | unknown (e : UnknownChoice)
  | template (e : Candidate.TemplateError)
  | tooManyParameters (count : Nat) (maxParams : Int)

def SearchError.message : SearchError → String
  | unknown e => e.message
  | template e => e.message
  | tooManyParameters count maxParams =>
    "template has " ++ toString count ++ " parameters, more than max_params="
      ++ toString maxParams

namespace SearchPlan

/-- The template of a configuration, unless it is absent or empty. -/
def templateOf? (settings : Settings) : Option Template :=
  match settings.template with
  | some text => if text.isEmpty then none else some ⟨text, settings.templateParams⟩
  | none => none

/-- Plans a search; the names of algorithm and residual are checked before the template. -/
def make (dataset : Dataset) (config : Config) : Except SearchError SearchPlan :=
  match Algorithm.ofName config.fitAlgorithm, ResidualKind.ofName config.residualFunction with
  | .error e, _ => .error (.unknown e)
  | _, .error e => .error (.unknown e)
  | .ok _, .ok _ =>
    match templateOf? config.toSettings with
    | none => .ok ⟨dataset, config, none⟩
    | some t =>
      match Candidate.ofTemplate config.toSettings t with
      | .error e => .error (.template e)
      | .ok c =>
        if config.maxParams < c.paramCount then
          .error (.tooManyParameters c.paramCount config.maxParams)
        else .ok ⟨dataset, config, some c⟩

end SearchPlan

/-! ## States -/

/-- Something printed or logged. -/
inductive Output where
  | printed (line : String)
  | logged (e : Event)

/-- The state of a search. -/
structure SearchState (σ φ : Type) where
  source : σ
  fitter : φ
  clock : Clock
  symbolic : Symbolic
  templateUsed : Bool
  best : Best
  generated : Nat
  fitted : Nat
  startedAt : Option Float
  lastStatsAt : Float
  /-- The latest first. -/
  output : List Output

namespace SearchState

variable {σ φ : Type}

/-- The state before the first step. -/
def start (plan : SearchPlan) (source : σ) (fitter : φ) (clock : Clock)
    (symbolic : Symbolic := .absent) : SearchState σ φ where
  source
  fitter
  clock
  symbolic
  templateUsed := false
  best := ⟨.sentinel, plan.config.residueThreshold, 0⟩
  generated := 0
  fitted := 0
  startedAt := none
  lastStatsAt := 0.0
  output := []

/-- Reads the clock. -/
def readClock (s : SearchState σ φ) : Float × SearchState σ φ :=
  let (now, clock) := s.clock.read
  (now, { s with clock })

/-- The time since the start; a search that has not started does not look at the clock. -/
def elapsed (s : SearchState σ φ) : Float × SearchState σ φ :=
  match s.startedAt with
  | none => (0.0, s)
  | some started =>
    let (now, s) := s.readClock
    (now - started, s)

/-- Starts the time unless it runs. -/
def ensureStarted (s : SearchState σ φ) : SearchState σ φ :=
  match s.startedAt with
  | some _ => s
  | none =>
    let (now, s) := s.readClock
    { s with startedAt := some now }

/-! ### Output -/

def log (e : Event) (s : SearchState σ φ) : SearchState σ φ :=
  { s with output := .logged e :: s.output }

/-- Prints lines, unless the search is quiet. -/
def print (plan : SearchPlan) (lines : List String) (s : SearchState σ φ) : SearchState σ φ :=
  if plan.config.verbose then { s with output := (lines.map .printed).reverse ++ s.output } else s

/-- Prints the lines on progress. -/
def printStats (plan : SearchPlan) (s : SearchState σ φ) : SearchState σ φ :=
  let (elapsed, s) := s.elapsed
  s.print plan (Report.stats s.generated s.fitted elapsed)

/-- Prints the block on the best candidate. -/
def reportBest (plan : SearchPlan) (s : SearchState σ φ) :
    Except MissingParameter (SearchState σ φ) := do
  let closed ← s.best.candidate.closedText
  let s := s.printStats plan
  return s.print plan
    ([""] ++ Report.best s.best.iterations closed (s.best.candidate.tidyText s.symbolic)
      s.best.residue ++ ["", "searching..."])

/-- What has been printed and logged, in order, and the state without it. -/
def takeOutput (s : SearchState σ φ) : List Output × SearchState σ φ :=
  (s.output.reverse, { s with output := [] })

end SearchState

/-! ## Steps -/

/-- What happened to a candidate. -/
inductive StepOutcome where
  | tooManyParams
  | fitFailed
  | nonFinite
  | notBetter
  | newBest
deriving DecidableEq, Repr

def StepOutcome.name : StepOutcome → String
  | tooManyParams => "too_many_params"
  | fitFailed => "fit_failed"
  | nonFinite => "non_finite"
  | notBetter => "not_better"
  | newBest => "new_best"

/-- Why a step has no outcome. -/
inductive StepFailure where
  | interrupted
  | missing (e : MissingParameter)
  | unknown (e : UnknownChoice)

namespace SearchState

variable {σ φ : Type} [RandomSource σ] [Fitter φ]

/-- Produces the next candidate. A template starts from its own values the first time and from random
points of the domain after that; otherwise a random formula is grown and simplified. -/
def nextCandidate (plan : SearchPlan) (s : SearchState σ φ) :
    Except MissingParameter Candidate × SearchState σ φ :=
  match plan.template with
  | some c =>
    if s.templateUsed then
      let (values, source) := RandomSource.uniforms plan.config.paramValueMin
        plan.config.paramValueMax c.paramCount s.source
      (.ok { c with params := c.params.withValues values }, { s with source })
    else (.ok c, { s with templateUsed := true })
  | none =>
    let (grown, source) := Candidate.generate plan.config.toSettings s.source
    let s := { s with source }
    match grown.simplify with
    | .error e => (.error e, s)
    | .ok c =>
      (.ok c, s.log (.simplified grown.expression.count c.expression.count grown.paramCount
        c.paramCount))

/-- Compares a fitted candidate with the best so far. -/
def compare (plan : SearchPlan) (c : Candidate) (r : FitResult) (s : SearchState σ φ) :
    Except StepFailure StepOutcome × SearchState σ φ :=
  if !r.residue.isFinite then (.ok .nonFinite, s.log (.skippedInfinite c.text))
  else if r.residue ≤ s.best.residue then
    let s := { s with best := ⟨c, r.residue, r.iterations⟩ }
    let s := s.log (.newBest s.generated c.text r.residue)
    match s.reportBest plan with
    | .ok s => (.ok .newBest, s)
    | .error e => (.error (.missing e), s)
  else (.ok .notBetter, s)

/-- Fits a candidate that is small enough and compares it. -/
def fitAndCompare (plan : SearchPlan) (c : Candidate) (s : SearchState σ φ) :
    Except StepFailure StepOutcome × SearchState σ φ :=
  let (attempt, fitter) := Fitter.attempt plan.config plan.dataset c s.fitter
  let s := { s with fitter }
  match attempt with
  | .interrupted => (.error .interrupted, s)
  | .reported report =>
    let c := { c with params := report.params }
    match report.result with
    | .error (.missing e) => (.error (.missing e), s)
    | .error (.unknown e) => (.error (.unknown e), s)
    | .error (.unfit e) => (.ok .fitFailed, s.log (.skippedUnfit c.text e))
    | .ok r =>
      let s := s.log (.fitted c.text r.residue r.iterations)
      compare plan c r { s with fitted := s.fitted + 1 }

/-- Handles one candidate. -/
def step (plan : SearchPlan) (s : SearchState σ φ) :
    Except StepFailure StepOutcome × SearchState σ φ :=
  match s.ensureStarted.nextCandidate plan with
  | (.error e, s) => (.error (.missing e), s)
  | (.ok c, s) =>
    let s := { s with generated := s.generated + 1 }
    if plan.config.maxParams < c.paramCount then
      (.ok .tooManyParams, s.log (.skippedLarge c.text c.paramCount plan.config.maxParams))
    else s.fitAndCompare plan c

end SearchState

end FormulaSearch
