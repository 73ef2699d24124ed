import FormulaSearch.Fit
import FormulaSearch.Proofs.Candidate
import FormulaSearch.Proofs.Expr.Occurrence
import FormulaSearch.Proofs.Fit.PatternSearch
import FormulaSearch.Proofs.Fit.Simplex

/-!
# What a successful fit says

A fit that succeeds reports the residual of the formula at the parameters that it leaves behind, not of
some point on the way there. The parameters keep their names and lie in the domain, and the iterations
are no more than allowed. For the simplex this holds because it does not succeed unless its points have come
close together, which only points of numbers do.
-/

namespace FormulaSearch

open Fit

/-- What a report of success says of the parameters that it leaves. -/
structure Fitted (config : Config) (d : Dataset) (c : Candidate) (p : Params) (r : FitResult) :
    Prop where
  isFinite : r.residue.isFinite = true
  residual_eq : ∃ kind, ResidualKind.ofName config.residualFunction = .ok kind ∧
    residual kind c.expression p.assignment d = .ok r.residue
  names_eq : p.names = c.params.names
  within : p.within config.paramValueMin config.paramValueMax = true
  nonempty : 0 < p.size
  iterations_le : r.iterations ≤ config.fitMaxIters

theorem Fitted.size_eq {config : Config} {d : Dataset} {c : Candidate} {p : Params} {r : FitResult}
    (h : Fitted config d c p r) : p.size = c.params.size := by
  rw [Params.size_eq_length_names, h.names_eq, ← Params.size_eq_length_names]

/-! ## Parts of a fit -/

theorem infinity_not_isFinite : infinity.isFinite = false := by decide

theorem infinity_unpack : infinity.toModel.unpack = .infinity .positive := by rfl

/-- Infinity is above everything finite. -/
theorem not_infinity_le {v : Float} (hv : v.isFinite = true) : ¬ infinity ≤ v := by
  rw [Double.le_iff_not_before, infinity_unpack]
  rintro ⟨-, -, hbefore⟩
  exact hbefore (.inl (Double.isFinite_iff.mp hv).2.2)

theorem residualOf_cases (kind : ResidualKind) (predicted observed : List Float) :
    (residualOf kind predicted observed).isFinite = true ∨
      residualOf kind predicted observed = infinity := by
  rw [residualOf]
  dsimp only
  split
  · split
    · exact .inl ‹_›
    · exact .inr rfl
  · exact .inr rfl

/-- A residual is finite or plain infinity. -/
theorem residual_cases {kind : ResidualKind} {e : Formula} {p : Assignment} {d : Dataset} {v : Float}
    (h : residual kind e p d = .ok v) : v.isFinite = true ∨ v = infinity := by
  obtain ⟨predicted, -, rfl⟩ := map_eq_ok_iff.mp h
  exact residualOf_cases kind predicted d.ys

theorem costAt_cases (kind : ResidualKind) (e : Formula) (params : Params) (d : Dataset)
    (point : Point) : (costAt kind e params d point).isFinite = true ∨
      costAt kind e params d point = infinity := by
  rw [costAt]
  split
  · exact residual_cases ‹_›
  · exact .inr rfl

theorem not_isNaN_costAt (kind : ResidualKind) (e : Formula) (params : Params) (d : Dataset)
    (point : Point) : (costAt kind e params d point).isNaN = false := by
  rcases costAt_cases kind e params d point with hfinite | hinfinite
  · exact Double.not_isNaN_of_isFinite hfinite
  · rw [hinfinite]
    decide

/-- A finite cost is the residual at the point. -/
theorem residual_of_costAt {kind : ResidualKind} {e : Formula} {params : Params} {d : Dataset}
    {point : Point} (h : (costAt kind e params d point).isFinite = true) :
    residual kind e (params.withValues point).assignment d =
      .ok (costAt kind e params d point) := by
  rw [costAt] at h ⊢
  cases hr : residual kind e (params.withValues point).assignment d with
  | ok v => rfl
  | error err =>
    rw [hr] at h
    exact absurd h (by simp [infinity_not_isFinite])

theorem checkParameters_eq_ok_iff {e : Formula} {params : Params} :
    checkParameters e params = .ok () ↔ ∀ n ∈ e.parameterNames, n ∈ params.names := by
  rw [checkParameters]
  split
  · rename_i name hfind
    have hlisted := List.mem_of_find?_eq_some hfind
    have hmissing := List.find?_some hfind
    simp only [reduceCtorEq, false_iff]
    intro h
    simp [Params.contains, h name hlisted] at hmissing
  · rename_i hfind
    simpa [Params.contains, List.find?_eq_none] using hfind

/-- A residual can be computed wherever the parameters have values. -/
theorem exists_residual {e : Formula} {params : Params}
    (h : ∀ n ∈ e.parameterNames, n ∈ params.names) (kind : ResidualKind) (d : Dataset) :
    ∃ v, residual kind e params.assignment d = .ok v := by
  obtain ⟨c, hc⟩ := Expr.exists_column (fun n hn => Params.exists_assignment (h n hn)) (.many d.xs)
  exact ⟨_, by rw [residual, Expr.evaluateAll, hc]; rfl⟩

/-- The cost of a point is the residual there if the parameters have values. -/
theorem residual_eq_costAt {e : Formula} {params : Params}
    (h : ∀ n ∈ e.parameterNames, n ∈ params.names) (kind : ResidualKind) (d : Dataset)
    (point : Point) :
    residual kind e (params.withValues point).assignment d =
      .ok (costAt kind e params d point) := by
  rw [← Params.names_withValues params point] at h
  obtain ⟨v, hv⟩ := exists_residual h kind d
  rw [costAt, hv]

/-- How a search is concluded from the residue at its end, the iterations and whether it finished in
time. -/
inductive Concluded (residue : Float) (iterations : Int) : Bool → Except FitError FitResult → Prop where
  | diverged {finished : Bool} (h : residue.isFinite = false) :
    Concluded residue iterations finished (.error (.diverged iterations))
  | cut (h : residue.isFinite = true) :
    Concluded residue iterations false (.error (.notConverged residue iterations))
  | fitted (h : residue.isFinite = true) :
    Concluded residue iterations true (.ok ⟨residue, iterations⟩)

theorem concluded (residue : Float) (iterations : Int) (finished : Bool) :
    Concluded residue iterations finished (conclude residue iterations finished) := by
  cases hfinite : residue.isFinite with
  | false =>
    rw [conclude, hfinite]
    exact .diverged hfinite
  | true =>
    rw [conclude, hfinite]
    cases finished with
    | false => exact .cut hfinite
    | true => exact .fitted hfinite

theorem conclude_eq_ok {residue : Float} {iterations : Int} {finished : Bool} {r : FitResult}
    (h : conclude residue iterations finished = .ok r) :
    residue.isFinite = true ∧ finished = true ∧ r = ⟨residue, iterations⟩ := by
  have hconcluded := concluded residue iterations finished
  rw [h] at hconcluded
  cases hconcluded with
  | fitted hfinite => exact ⟨hfinite, rfl, rfl⟩

theorem result_reportAt_ok_iff {params : Params} {point : Point}
    {result : Except FitError FitResult} {r : FitResult} :
    (reportAt params point result).result = .ok r ↔ result = .ok r := by
  cases result with
  | ok r' => exact ⟨fun h => congrArg _ (Except.ok.inj h), fun h => congrArg _ (Except.ok.inj h)⟩
  | error e => exact ⟨nofun, nofun⟩

theorem result_reportAt_error_iff {params : Params} {point : Point}
    {result : Except FitError FitResult} {e : FitError} :
    (reportAt params point result).result = .error (.unfit e) ↔ result = .error e := by
  cases result with
  | ok r => exact ⟨nofun, nofun⟩
  | error e' =>
    refine ⟨fun h => ?_, fun h => ?_⟩
    · cases h
      rfl
    · cases h
      rfl

theorem Params.within_iff {p : Params} {lower upper : Float} :
    p.within lower upper = true ↔ ∀ v ∈ p.values, isWithin lower upper v = true := List.all_eq_true

theorem Params.names_clamp (p : Params) (lower upper : Float) :
    (p.clamp lower upper).names = p.names := by
  simp [clamp, names, mapValues, Function.comp_def]

theorem Params.values_clamp (p : Params) (lower upper : Float) :
    (p.clamp lower upper).values = p.values.map (clampTo lower upper) := by
  simp [clamp, values, mapValues, Function.comp_def]

/-- Numbers are moved into the domain. -/
theorem isWithin_map_clampTo {values : List Float} (hn : ∀ v ∈ values, v.isNaN = false)
    {lower upper : Float} (h : lower ≤ upper) :
    ∀ v ∈ values.map (clampTo lower upper), isWithin lower upper v = true := by
  intro v hv
  obtain ⟨u, hu, rfl⟩ := List.mem_map.mp hv
  exact Double.isWithin_clampTo h (hn u hu)

theorem Params.size_eq_of_names {p q : Params} (h : p.names = q.names) : p.size = q.size := by
  rw [size_eq_length_names, h, ← size_eq_length_names]

/-- A point of the domain with a finite cost, reached in time, is a fit. -/
theorem fitted_of_point {config : Config} {kind : ResidualKind} {d : Dataset} {c : Candidate}
    {params : Params} {point : Point} {iterations : Int}
    (hk : ResidualKind.ofName config.residualFunction = .ok kind)
    (hnames : params.names = c.params.names) (hsize : 0 < c.params.size)
    (hlen : point.length = c.params.size)
    (hin : ∀ v ∈ point, isWithin config.paramValueMin config.paramValueMax v = true)
    (hfinite : (costAt kind c.expression params d point).isFinite = true)
    (hiterations : iterations ≤ config.fitMaxIters) :
    Fitted config d c (params.withValues point)
      ⟨costAt kind c.expression params d point, iterations⟩ where
  isFinite := hfinite
  residual_eq := ⟨kind, hk, residual_of_costAt hfinite⟩
  names_eq := (Params.names_withValues params point).trans hnames
  within := by
    rw [Params.within_iff, Params.values_withValues (hlen.trans (Params.size_eq_of_names hnames).symm)]
    exact hin
  nonempty := by
    rwa [Params.size_eq_of_names ((Params.names_withValues params point).trans hnames)]
  iterations_le := hiterations

theorem names_reportAt (params : Params) (point : Point) (result : Except FitError FitResult) :
    (reportAt params point result).params.names = params.names :=
  Params.names_withValues params point

/-! ## Pattern search -/

/-- The first step of a pattern search. -/
def Config.firstStep (config : Config) : Float := config.initialStepFraction * config.domainWidth

/-- The residuals of a candidate whose values have been moved into the domain, as the costs of points. -/
def patternProblem (config : Config) (kind : ResidualKind) (d : Dataset) (c : Candidate) : Problem :=
  ⟨config.paramValueMin, config.paramValueMax,
    costAt kind c.expression (c.params.clamp config.paramValueMin config.paramValueMax) d⟩

/-- How pattern search ends when it fits a candidate within a number of rounds. -/
def patternFinishWithin (config : Config) (kind : ResidualKind) (d : Dataset) (c : Candidate)
    (cap : Nat) : PatternSearch.FinishEach :=
  let start := c.params.clamp config.paramValueMin config.paramValueMax
  PatternSearch.runEach (patternProblem config kind d c) config.minStep
    (List.replicate start.size config.firstStep) cap start.values

/-- How pattern search ends when it fits a candidate. -/
def patternFinish (config : Config) (kind : ResidualKind) (d : Dataset) (c : Candidate) :
    PatternSearch.FinishEach :=
  patternFinishWithin config kind d c config.fitMaxIters.toNat

/-- The points that pattern search evaluates when it fits a candidate, with their costs. -/
def patternVisits (config : Config) (kind : ResidualKind) (d : Dataset) (c : Candidate) :
    List Visit :=
  (patternFinish config kind d c).walk.visits

/-- The report of a search that ended in one way or another. -/
def reportOf (config : Config) (c : Candidate) (finish : PatternSearch.FinishEach) :
    FitReport :=
  reportAt (c.params.clamp config.paramValueMin config.paramValueMax) finish.walk.point
    (conclude finish.walk.cost finish.rounds finish.converged)

/-- The report of a search that came to its end. -/
def patternReport (config : Config) (kind : ResidualKind) (d : Dataset) (c : Candidate) : FitReport :=
  reportOf config c (patternFinish config kind d c)

section

variable {config : Config} {kind : ResidualKind} {d : Dataset} {c : Candidate} {r : FitResult}

theorem size_clamp (p : Params) (lower upper : Float) : (p.clamp lower upper).size = p.size :=
  Params.size_eq_of_names (Params.names_clamp p lower upper)

/-- Clamped numbers lie in the domain. -/
theorem Params.Numeric.clamp_within (hc : c.params.Numeric) :
    ∀ v ∈ (c.params.clamp config.paramValueMin config.paramValueMax).values,
      isWithin config.paramValueMin config.paramValueMax v = true := by
  rw [Params.values_clamp]
  exact isWithin_map_clampTo hc config.domain_le

/-- The search for parameters of a small residual has a domain with finite bounds. -/
theorem wellPosed_patternProblem (config : Config) (kind : ResidualKind) (d : Dataset)
    (c : Candidate) : (patternProblem config kind d c).WellPosed where
  le := config.domain_le
  lower_isFinite := config.domain_isFinite.1
  upper_isFinite := config.domain_isFinite.2
  not_isNaN_cost := not_isNaN_costAt kind _ _ d

/-- A fit by pattern search reports on the end of its search. -/
theorem fitByPattern_eq (config : Config) (kind : ResidualKind) (d : Dataset) (c : Candidate) :
    fitByPattern config kind c.expression
        (c.params.clamp config.paramValueMin config.paramValueMax) d =
      patternReport config kind d c := rfl

/-- The steps of all parameters stay equal, so the search goes like one with a single step. -/
theorem patternFinishWithin_eq (config : Config) (kind : ResidualKind) (d : Dataset)
    (hsize : 0 < c.params.size) (cap : Nat) :
    patternFinishWithin config kind d c cap =
      (PatternSearch.run (patternProblem config kind d c) config.minStep config.firstStep cap
        (c.params.clamp config.paramValueMin config.paramValueMax).values).spread c.params.size := by
  rw [patternFinishWithin, size_clamp]
  exact PatternSearch.runEach_replicate ((Params.length_values _).trans (size_clamp _ _ _)) hsize cap

theorem patternFinish_sound (config : Config) (kind : ResidualKind) (d : Dataset)
    (hc : c.params.Numeric) (hsize : 0 < c.params.size) :
    (patternFinish config kind d c).walk.Sound (patternProblem config kind d c)
      (c.params.clamp config.paramValueMin config.paramValueMax).values := by
  rw [patternFinish, patternFinishWithin_eq config kind d hsize]
  exact PatternSearch.run_sound (wellPosed_patternProblem config kind d c) hc.clamp_within
    config.minStep config.firstStep config.fitMaxIters.toNat

theorem patternFinishWithin_rounds_le (config : Config) (kind : ResidualKind) (d : Dataset)
    (hsize : 0 < c.params.size) (cap : Nat) :
    (patternFinishWithin config kind d c cap).rounds ≤ cap := by
  rw [patternFinishWithin_eq config kind d hsize]
  exact PatternSearch.run_rounds_le _ _ _ _ _

theorem Config.cap_eq (config : Config) : (config.fitMaxIters.toNat : Int) = config.fitMaxIters :=
  Int.toNat_of_nonneg (Int.le_trans (by decide) config.iterations_pos)

theorem fitted_patternReport (hc : c.params.Numeric)
    (hk : ResidualKind.ofName config.residualFunction = .ok kind) (hsize : 0 < c.params.size)
    (h : (patternReport config kind d c).result = .ok r) :
    Fitted config d c (patternReport config kind d c).params r := by
  have hheld := (patternFinish_sound config kind d hc hsize).held_sound
  obtain ⟨hfinite, -, rfl⟩ := conclude_eq_ok (result_reportAt_ok_iff.mp h)
  rw [show PatternSearch.Walk.cost _ = _ from hheld.cost_eq] at hfinite ⊢
  refine fitted_of_point hk (Params.names_clamp _ _ _) hsize ?_ hheld.contains hfinite ?_
  · exact hheld.length_eq.trans ((Params.length_values _).trans (size_clamp _ _ _))
  · rw [← config.cap_eq]
    exact Int.ofNat_le.mpr (patternFinishWithin_rounds_le config kind d hsize _)

end

/-! ## The simplex -/

/-- How the simplex search ends when it fits a candidate. -/
def simplexFinish (config : Config) (kind : ResidualKind) (d : Dataset) (c : Candidate) :
    Simplex.Finish :=
  Simplex.run (simplexProblem config kind c.expression c.params d) config.minStep
    config.fitMaxIters.toNat
    (c.params.values.map (clampTo config.paramValueMin config.paramValueMax))

/-- The points that the simplex search makes when it fits a candidate. -/
def simplexVisits (config : Config) (kind : ResidualKind) (d : Dataset) (c : Candidate) :
    List Visit :=
  (simplexFinish config kind d c).state.visits

/-- The report of a search that ended with a best vertex. -/
def simplexReport (config : Config) (kind : ResidualKind) (d : Dataset) (c : Candidate)
    (best : Visit) : FitReport :=
  let finish := simplexFinish config kind d c
  reportAt c.params (best.point.map (clampTo config.paramValueMin config.paramValueMax))
    (conclude best.cost finish.iterations (finish.iterations < config.fitMaxIters))

section

variable {config : Config} {kind : ResidualKind} {d : Dataset} {c : Candidate} {r : FitResult}

/-- What the simplex minimises is the residual at the point that is moved into the domain. -/
theorem simplexObjective_eq_residual (config : Config) (kind : ResidualKind) (e : Formula)
    (params : Params) (d : Dataset) (point : Point) :
    simplexObjective config kind e params d point =
      let inside := point.map (clampTo config.paramValueMin config.paramValueMax)
      residual kind e (params.withValues inside).assignment d := by
  rw [simplexObjective, residual]
  dsimp only
  cases e.evaluateAll _ d.xs with
  | error missing => rfl
  | ok predicted =>
    rw [ok_bind]
    dsimp only [Except.map]
    rw [residualOf]
    split <;> rfl

theorem cost_simplexProblem (config : Config) (kind : ResidualKind) (e : Formula) (params : Params)
    (d : Dataset) (point : Point) :
    (simplexProblem config kind e params d).cost point =
      costAt kind e params d (point.map (clampTo config.paramValueMin config.paramValueMax)) := by
  simp only [simplexProblem, simplexObjective_eq_residual, costAt]

/-- The simplex search ends with a best vertex that has a value for each parameter. -/
theorem simplexFinish_vertices (config : Config) (kind : ResidualKind) (d : Dataset)
    (c : Candidate) : ∃ best others, (simplexFinish config kind d c).state.vertices = best :: others ∧
      best.point.length = c.params.size := by
  rw [simplexFinish]
  generalize hstart : c.params.values.map (clampTo config.paramValueMin config.paramValueMax) = start
  have hsize : start.length = c.params.size := by
    rw [← hstart, List.length_map, Params.length_values]
  have hlength := Simplex.length_run (simplexProblem config kind c.expression c.params d)
    config.minStep config.fitMaxIters.toNat start
  have hsound := Simplex.sound_run (simplexProblem config kind c.expression c.params d)
    config.minStep config.fitMaxIters.toNat start
  generalize (Simplex.run _ _ _ start).state = state at hlength hsound ⊢
  cases hvertices : state.vertices with
  | nil => simp [hvertices] at hlength
  | cons best others =>
    obtain ⟨heval, -⟩ := hsound best (by rw [hvertices]; exact List.mem_cons_self ..)
    exact ⟨best, others, rfl, heval.length_eq.trans hsize⟩

/-- A simplex fit reports on the best vertex at the end of its search. -/
theorem fitBySimplex_eq (config : Config) (kind : ResidualKind) (d : Dataset) (c : Candidate) :
    ∃ best, (simplexFinish config kind d c).state.vertices.head? = some best ∧
      fitBySimplex config kind c.expression c.params d = simplexReport config kind d c best := by
  obtain ⟨best, others, hvertices, -⟩ := simplexFinish_vertices config kind d c
  refine ⟨best, by rw [hvertices]; rfl, ?_⟩
  rw [simplexFinish] at hvertices
  rw [fitBySimplex, hvertices]
  rfl

/-- A search that ends in time has come close together, which it does at numbers only. -/
theorem fitted_simplexReport {best : Visit}
    (hk : ResidualKind.ofName config.residualFunction = .ok kind) (hsize : 0 < c.params.size)
    (hbest : (simplexFinish config kind d c).state.vertices.head? = some best)
    (h : (simplexReport config kind d c best).result = .ok r) :
    Fitted config d c (simplexReport config kind d c best).params r := by
  obtain ⟨others, hvertices⟩ := List.head?_eq_some_iff.mp hbest
  obtain ⟨hfinite, hfinished, rfl⟩ := conclude_eq_ok (result_reportAt_ok_iff.mp h)
  have hlt := of_decide_eq_true hfinished
  obtain ⟨heval, -⟩ := Simplex.sound_run _ _ _ _ best (List.mem_of_mem_head? hbest)
  have hnumeric : ∀ x ∈ best.point, x.isNaN = false := by
    refine Simplex.numeric_run ?_ ?_ hvertices
    · simpa [Params.length_values] using hsize
    · rw [simplexFinish] at hlt
      omega
  rw [show best.cost = _ from heval.cost_eq, cost_simplexProblem] at hfinite ⊢
  refine fitted_of_point hk rfl hsize ?_ ?_ hfinite (Int.le_of_lt hlt)
  · simpa [Params.length_values] using heval.length_eq
  · exact isWithin_map_clampTo hnumeric config.domain_le

end

/-! ## The whole fit -/

namespace Algorithm

/-- How a fit by an algorithm ends: it is refused, because there is nothing to fit, because its residual has
no known name or because a parameter has no value, or its search comes to an end. -/
inductive Ends (config : Config) (d : Dataset) (c : Candidate) : Algorithm → FitReport → Prop where
  | empty {a : Algorithm} (hsize : c.params.size = 0) :
    Ends config d c a ⟨c.params, .error (.unfit .noParameters)⟩
  | unknown {a : Algorithm} {e : UnknownChoice} (hsize : 0 < c.params.size)
    (hk : ResidualKind.ofName config.residualFunction = .error e) :
    Ends config d c a ⟨a.start config c, .error (.unknown e)⟩
  | missing {a : Algorithm} {kind : ResidualKind} {e : MissingParameter} (hsize : 0 < c.params.size)
    (hk : ResidualKind.ofName config.residualFunction = .ok kind)
    (hall : checkParameters c.expression c.params = .error e) :
    Ends config d c a ⟨a.start config c, .error (.missing e)⟩
  | pattern {kind : ResidualKind} (hsize : 0 < c.params.size)
    (hk : ResidualKind.ofName config.residualFunction = .ok kind)
    (hall : checkParameters c.expression c.params = .ok ()) :
    Ends config d c .patternSearch (patternReport config kind d c)
  | simplex {kind : ResidualKind} {best : Visit} (hsize : 0 < c.params.size)
    (hk : ResidualKind.ofName config.residualFunction = .ok kind)
    (hall : checkParameters c.expression c.params = .ok ())
    (hbest : (simplexFinish config kind d c).state.vertices.head? = some best) :
    Ends config d c .nelderMead (simplexReport config kind d c best)

theorem names_start (a : Algorithm) (config : Config) (c : Candidate) :
    (a.start config c).names = c.params.names := by
  cases a with
  | patternSearch => exact Params.names_clamp _ _ _
  | nelderMead => rfl

theorem checkParameters_start (a : Algorithm) (config : Config) (c : Candidate) :
    checkParameters c.expression (a.start config c) = checkParameters c.expression c.params := by
  simp only [checkParameters, Params.contains, names_start]

theorem ends_fit (a : Algorithm) (config : Config) (d : Dataset) (c : Candidate) :
    Ends config d c a (a.fit config d c) := by
  rw [Algorithm.fit.eq_def]
  split
  · exact .empty ‹_›
  have hsize : 0 < c.params.size := Nat.pos_of_ne_zero ‹_›
  dsimp only
  rw [checkParameters_start]
  cases hk : ResidualKind.ofName config.residualFunction with
  | error e => exact .unknown hsize hk
  | ok kind =>
    cases hall : checkParameters c.expression c.params with
    | error e => exact .missing hsize hk hall
    | ok =>
      cases a with
      | patternSearch =>
        simp only [start, fitByPattern_eq]
        exact .pattern hsize hk hall
      | nelderMead =>
        obtain ⟨best, hbest, heq⟩ := fitBySimplex_eq config kind d c
        simp only [start, heq]
        exact .simplex hsize hk hall hbest

variable {a : Algorithm} {config : Config} {d : Dataset} {c : Candidate} {report : FitReport}

/-- A fit has the parameters of its candidate, with other values. -/
theorem Ends.names_eq (h : Ends config d c a report) : report.params.names = c.params.names := by
  cases h with
  | empty => rfl
  | unknown => exact names_start a config c
  | missing => exact names_start a config c
  | pattern => exact (names_reportAt ..).trans (Params.names_clamp ..)
  | simplex => exact names_reportAt ..

/-- A fit that starts from numbers and succeeds has reached what its report says. -/
theorem Ends.fitted {r : FitResult} (h : Ends config d c a report) (hc : c.params.Numeric)
    (hr : report.result = .ok r) : Fitted config d c report.params r := by
  cases h with
  | empty => cases hr
  | unknown => cases hr
  | missing => cases hr
  | pattern hsize hk _ => exact fitted_patternReport hc hk hsize hr
  | simplex hsize hk _ hbest => exact fitted_simplexReport hk hsize hbest hr

end Algorithm

/-- A pattern search that is not refused comes to its end. -/
theorem patternSearch_eq {config : Config} {kind : ResidualKind} {d : Dataset} {c : Candidate}
    (hsize : 0 < c.params.size) (hk : ResidualKind.ofName config.residualFunction = .ok kind)
    (hall : checkParameters c.expression c.params = .ok ()) :
    Algorithm.patternSearch.fit config d c = patternReport config kind d c := by
  have hends := Algorithm.ends_fit .patternSearch config d c
  generalize Algorithm.patternSearch.fit config d c = report at hends ⊢
  cases hends with
  | empty hnone => exact absurd hnone (Nat.ne_of_gt hsize)
  | unknown _ hk' =>
    rw [hk] at hk'
    cases hk'
  | missing _ _ hall' =>
    rw [hall] at hall'
    cases hall'
  | pattern _ hk' =>
    cases hk.symm.trans hk'
    rfl

/-- A pattern search that succeeds has come to its end. -/
theorem patternSearch_eq_of_ok {config : Config} {d : Dataset} {c : Candidate} {r : FitResult}
    (h : (Algorithm.patternSearch.fit config d c).result = .ok r) :
    ∃ kind, 0 < c.params.size ∧ ResidualKind.ofName config.residualFunction = .ok kind ∧
      checkParameters c.expression c.params = .ok () ∧
      Algorithm.patternSearch.fit config d c = patternReport config kind d c := by
  have hends := Algorithm.ends_fit .patternSearch config d c
  generalize Algorithm.patternSearch.fit config d c = report at h hends ⊢
  cases hends with
  | empty => cases h
  | unknown => cases h
  | missing => cases h
  | @pattern kind hsize hk hall => exact ⟨kind, hsize, hk, hall, rfl⟩

/-- A fit is one by the algorithm of the configuration, if that is known. -/
theorem fit_cases (config : Config) (d : Dataset) (c : Candidate) :
    (∃ a, Algorithm.ofName config.fitAlgorithm = .ok a ∧ fit config d c = a.fit config d c) ∨
      ∃ e, Algorithm.ofName config.fitAlgorithm = .error e ∧
        fit config d c = ⟨c.params, .error (.unknown e)⟩ := by
  rw [fit]
  cases Algorithm.ofName config.fitAlgorithm with
  | ok a => exact .inl ⟨a, rfl, rfl⟩
  | error e => exact .inr ⟨e, rfl, rfl⟩

/-- A fit from numbers that succeeds has reached what its report says. -/
theorem fit_fitted {config : Config} {d : Dataset} {c : Candidate} {r : FitResult}
    (hc : c.params.Numeric) (h : (fit config d c).result = .ok r) :
    Fitted config d c (fit config d c).params r := by
  obtain ⟨a, -, hfit⟩ | ⟨e, -, hfit⟩ := fit_cases config d c
  · rw [hfit] at h ⊢
    exact (a.ends_fit config d c).fitted hc h
  · rw [hfit] at h
    cases h

end FormulaSearch
