import FormulaSearch.Fit.PatternSearch

/-!
# Downhill simplex

The method of Nelder and Mead with bounds: a simplex of one vertex more than there are parameters is
reflected, expanded, contracted or shrunk towards its best vertex. Every new vertex is moved into the
domain. The vertices are kept in the order of their costs, vertices of equal cost in their former order.
-/

namespace FormulaSearch.Fit.Simplex

/-- The vertices with the best first, and every point evaluated, the latest first. -/
structure State where
  vertices : List Visit
  visits : List Visit

/-! ## Points -/

/-- Moves every coordinate into the domain. -/
def clip (problem : Problem) (p : Point) : Point :=
  p.map (clampTo problem.lower problem.upper)

/-- Evaluates a point. -/
def visit (problem : Problem) (p : Point) : Visit := ⟨p, problem.cost p⟩

/-- Coordinate by coordinate `a * p + b * q`. -/
def affine (a : Float) (p : Point) (b : Float) (q : Point) : Point :=
  List.zipWith (fun u v => a * u + b * v) p q

/-- Coordinate by coordinate `a * p - b * q`. -/
def reflect (a : Float) (p : Point) (b : Float) (q : Point) : Point :=
  List.zipWith (fun u v => a * u - b * v) p q

/-- The mean of points of a dimension, summed in order. -/
def centroid (dimension : Nat) (points : List Point) : Point :=
  (points.foldl (List.zipWith (· + ·)) (List.replicate dimension 0.0)).map
    (· / Float.ofNat dimension)

/-- Vertices sorted by cost; equal costs keep their order. -/
def sort (vertices : List Visit) : List Visit :=
  vertices.mergeSort fun a b => !(b.cost < a.cost : Bool)

/-! ## The first simplex -/

/-- A coordinate of a further vertex: a twentieth more, or a little if it is zero. -/
def enlarge (v : Float) : Float := if v == 0.0 then 0.00025 else (1.0 + 0.05) * v

/-- Turns a coordinate above the domain back by as much as it exceeds it. -/
def turnBack (upper v : Float) : Float := if v > upper then 2.0 * upper - v else v

/-- The start, and the start with each coordinate in turn enlarged. -/
def corners (problem : Problem) (start : Point) : List Point :=
  let further := (List.range start.length).map fun k =>
    start.set k (enlarge (start.getD k 0.0))
  (start :: further).map fun p => clip problem (p.map (turnBack problem.upper))

/-- The first simplex, sorted. -/
def begin (problem : Problem) (start : Point) : State :=
  let vertices := (corners problem start).map (visit problem)
  ⟨sort vertices, vertices.reverse⟩

/-! ## Convergence -/

/-- The greatest of some numbers, no number if one of them is none. -/
def greatest : List Float → Float
  | [] => 0.0
  | v :: vs => vs.foldl (fun m x => if m.isNaN then m else if x.isNaN || x > m then x else m) v

/-- The largest difference of costs that counts as none. -/
def costTolerance : Float := 1e-4

/-- Whether all vertices are close to the best in place and cost. -/
def hasConverged (minStep : Float) (vertices : List Visit) : Bool :=
  match vertices with
  | [] => true
  | best :: others =>
    let distances := others.flatMap fun v =>
      List.zipWith (fun a b => (a - b).abs) v.point best.point
    let differences := others.map fun v => (best.cost - v.cost).abs
    greatest distances ≤ minStep && greatest differences ≤ costTolerance

/-! ## One iteration -/

/-- What becomes of the worst vertex. -/
inductive Move where
  | replace (vertex : Visit)
  | shrink

/-- Contracts towards the mean of the others: outside if the reflected point is better than the worst
vertex, inside otherwise. -/
def contract (problem : Problem) (mean : Point) (worst reflected : Visit) : Move × List Visit :=
  if reflected.cost < worst.cost then
    let c := visit problem (clip problem (reflect 1.5 mean 0.5 worst.point))
    (if c.cost ≤ reflected.cost then .replace c else .shrink, [c])
  else
    let c := visit problem (clip problem (affine 0.5 mean 0.5 worst.point))
    (if c.cost < worst.cost then .replace c else .shrink, [c])

/-- Chooses a move by the reflected point's cost, and tells the points evaluated, the latest first. -/
def chooseMove (problem : Problem) (mean : Point) (best second worst : Visit) : Move × List Visit :=
  let r := visit problem (clip problem (reflect 2.0 mean 1.0 worst.point))
  if r.cost < best.cost then
    let e := visit problem (clip problem (reflect 3.0 mean 2.0 worst.point))
    (.replace (if e.cost < r.cost then e else r), [e, r])
  else if r.cost < second.cost then (.replace r, [r])
  else
    let (move, seen) := contract problem mean worst r
    (move, seen ++ [r])

/-- Moves a vertex halfway to the best. -/
def shrinkVertex (problem : Problem) (best v : Visit) : Visit :=
  visit problem (clip problem
    (List.zipWith (fun b p => b + 0.5 * (p - b)) best.point v.point))

/-- One iteration. A simplex of fewer than two vertices stays as it is. -/
def iterate (problem : Problem) (s : State) : State :=
  match s.vertices, s.vertices.reverse with
  | best :: others, worst :: second :: _ =>
    let kept := s.vertices.dropLast
    let mean := centroid best.point.length (kept.map (·.point))
    match chooseMove problem mean best second worst with
    | (.replace v, seen) => ⟨sort (kept ++ [v]), seen ++ s.visits⟩
    | (.shrink, seen) =>
      let shrunk := others.map (shrinkVertex problem best)
      ⟨sort (best :: shrunk), shrunk.reverse ++ seen ++ s.visits⟩
  | _, _ => s

/-! ## The search -/

/-- How a search ends, after a number of iterations counted from one. -/
structure Finish where
  state : State
  iterations : Nat

/-- Iterates until the simplex has converged or no iteration is left. -/
def iterations (problem : Problem) (minStep : Float) (done : Nat) (s : State) : Nat → Finish
  | 0 => ⟨s, done⟩
  | left + 1 =>
    if hasConverged minStep s.vertices then ⟨s, done⟩
    else iterations problem minStep (done + 1) (iterate problem s) left

/-- The search from a point of the domain. -/
def run (problem : Problem) (minStep : Float) (maxIterations : Nat) (start : Point) : Finish :=
  iterations problem minStep 1 (begin problem start) (maxIterations - 1)

end FormulaSearch.Fit.Simplex
