import FormulaSearch.Search.Basic

/-!
# Runs

A run repeats steps until a stop condition holds, which is looked at before every step, or until it is
interrupted. One turn of the loop is a function, and a bounded number of turns is one too; whoever runs
the search decides how many turns to ask for at a time.
-/

namespace FormulaSearch

/-! ## Stop conditions -/

namespace SearchState

variable {σ φ : Type}

/-- Whether a limit is set and reached. -/
def reached (limit : Option Int) (count : Nat) : Bool := limit.any (· ≤ (count : Int))

/-- The first stop condition that holds. The clock is read only if the counts do not decide and there
is a limit of time. -/
def stopReason? (plan : SearchPlan) (s : SearchState σ φ) : Option StopReason × SearchState σ φ :=
  if reached plan.config.maxGenerated s.generated then (some .maxGenerated, s)
  else if reached plan.config.maxFitted s.fitted then (some .maxFitted, s)
  else match plan.config.maxDuration with
    | none => (none, s)
    | some limit =>
      let (elapsed, s) := s.elapsed
      (if elapsed ≥ limit then some .maxDuration else none, s)

/-- Prints the lines on progress if they are wanted and due. -/
def printStatsIfDue (plan : SearchPlan) (s : SearchState σ φ) : SearchState σ φ :=
  if plan.config.statsInterval ≤ 0.0 then s else
    let (now, s) := s.readClock
    if now - s.lastStatsAt ≥ plan.config.statsInterval then
      { s with lastStatsAt := now }.printStats plan
    else s

end SearchState

/-! ## Turns -/

/-- Why a run breaks off without a result. -/
inductive RunFailure where
  | missing (e : MissingParameter)
  | unknown (e : UnknownChoice)

/-- Where a run stands. -/
inductive Progress (σ φ : Type) where
  | running (s : SearchState σ φ)
  | stopped (reason : StopReason) (s : SearchState σ φ)
  | failed (e : RunFailure) (s : SearchState σ φ)

/-- What a run comes to. -/
structure SearchResult where
  best : Best
  generated : Nat
  fitted : Nat
  elapsed : Float
  reason : StopReason

/-- Whether any candidate was accepted. -/
def SearchResult.found (r : SearchResult) : Bool := r.best.residue.isFinite

namespace SearchState

variable {σ φ : Type}

/-- Starts the time and announces the search. -/
def beginRun (plan : SearchPlan) (s : SearchState σ φ) : SearchState σ φ :=
  let s := s.ensureStarted
  let s := { s with lastStatsAt := s.startedAt.getD 0.0 }
  let s := if plan.config.hasStopCondition then s else s.log .noStopCondition
  s.print plan ["searching..."]

/-- One turn of the loop. -/
def turn [RandomSource σ] [Fitter φ] (plan : SearchPlan) (s : SearchState σ φ) : Progress σ φ :=
  match s.stopReason? plan with
  | (some reason, s) => .stopped reason s
  | (none, s) =>
    match s.step plan with
    | (.ok _, s) => .running (s.printStatsIfDue plan)
    | (.error .interrupted, s) => .stopped .interrupted (s.log (.interrupted s.generated))
    | (.error (.missing e), s) => .failed (.missing e) s
    | (.error (.unknown e), s) => .failed (.unknown e) s

/-- At most so many turns. -/
def turns [RandomSource σ] [Fitter φ] (plan : SearchPlan) : Nat → SearchState σ φ → Progress σ φ
  | 0, s => .running s
  | n + 1, s =>
    match s.turn plan with
    | .running s => turns plan n s
    | ended => ended

/-- Sums a stopped run up. -/
def endRun (reason : StopReason) (s : SearchState σ φ) : SearchResult × SearchState σ φ :=
  let s := s.log (.stopped reason s.generated s.fitted s.best.residue)
  let (elapsed, s) := s.elapsed
  (⟨s.best, s.generated, s.fitted, elapsed, reason⟩, s)

end SearchState

end FormulaSearch
