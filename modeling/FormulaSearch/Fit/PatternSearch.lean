import FormulaSearch.Params

/-!
# Pattern search

A minimum is sought coordinate by coordinate: each parameter in turn is moved one step up, then one step
down, and the first move that strictly lowers the cost is kept. Each parameter has its own step. A round
without such a move halves every step, and the search has converged once all are below the least step.
-/

namespace FormulaSearch.Fit

/-- The value of each parameter, in order. -/
abbrev Point := List Float

/-- A point with its cost. -/
structure Visit where
  point : Point
  cost : Float

/-- What a search is about. -/
structure Problem where
  lower : Float
  upper : Float
  cost : Point → Float

namespace PatternSearch

/-- Where the search stands, and every point it has evaluated, the latest first. -/
structure Walk where
  point : Point
  cost : Float
  visits : List Visit

/-- Tries to move one coordinate to a value: keeps the move if it lowers the cost. -/
def tryMove (problem : Problem) (i : Nat) (target : Float) (w : Walk) : Bool × Walk :=
  let base := w.point.getD i 0.0
  let trial := clampTo problem.lower problem.upper target
  if trial == base then (false, w) else
    let moved := w.point.set i trial
    let cost := problem.cost moved
    let visits := ⟨moved, cost⟩ :: w.visits
    if cost < w.cost then (true, ⟨moved, cost, visits⟩) else (false, { w with visits })

/-- Tries to move one coordinate a step up, then a step down. -/
def tryCoordinate (problem : Problem) (step : Float) (i : Nat) (w : Walk) : Bool × Walk :=
  let base := w.point.getD i 0.0
  match tryMove problem i (base + step) w with
  | (true, w) => (true, w)
  | (false, w) => tryMove problem i (base - step) w

/-- One round over the given coordinates, each with its own step; tells whether any was moved. -/
def sweepEach (problem : Problem) (steps : List Float) : List Nat → Bool × Walk → Bool × Walk
  | [], state => state
  | i :: rest, (improved, w) =>
    let (moved, w) := tryCoordinate problem (steps.getD i 0.0) i w
    sweepEach problem steps rest (improved || moved, w)

/-- How a search ends, after a number of rounds. -/
structure FinishEach where
  walk : Walk
  steps : List Float
  rounds : Nat
  converged : Bool

/-- Rounds until every step is below the least step or no round is left. -/
def roundsEach (problem : Problem) (minStep : Float) (done : Nat) (steps : List Float) (w : Walk) :
    Nat → FinishEach
  | 0 => ⟨w, steps, done, !steps.any (· ≥ minStep)⟩
  | left + 1 =>
    if steps.any (· ≥ minStep) then
      let (improved, w) := sweepEach problem steps (List.range w.point.length) (false, w)
      roundsEach problem minStep (done + 1) (if improved then steps else steps.map (· / 2.0)) w left
    else ⟨w, steps, done, true⟩

/-- The search from a point of the domain with first steps. -/
def runEach (problem : Problem) (minStep : Float) (steps : List Float) (maxRounds : Nat)
    (start : Point) : FinishEach :=
  let cost := problem.cost start
  roundsEach problem minStep 0 steps ⟨start, cost, [⟨start, cost⟩]⟩ maxRounds

end PatternSearch

end FormulaSearch.Fit
