import FormulaSearch.Proofs.Descent
import FormulaSearch.Proofs.Fit.SimplexLeast

/-!
# What the simplex makes of a candidate

The simplex asks for the residual at points that it has moved into the domain, whatever points it makes.
As long as these consist of numbers, it leaves the candidate with values of the least residual that it has
seen and reports this residual, if it is finite, whether it came close together in time or not.
-/

namespace FormulaSearch

open Fit

section

variable {config : Config} {kind : ResidualKind} {d : Dataset} {c : Candidate}

/-! ## The search behind a fit -/

theorem wellPosed_simplexProblem (config : Config) (kind : ResidualKind) (e : Formula)
    (params : Params) (d : Dataset) : (simplexProblem config kind e params d).WellPosed where
  le := config.domain_le
  lower_isFinite := config.domain_isFinite.1
  upper_isFinite := config.domain_isFinite.2
  not_isNaN_cost p := by
    rw [cost_simplexProblem]
    exact not_isNaN_costAt kind e params d _

theorem contains_simplexProblem_iff {e : Formula} {params : Params} {point : Point} :
    (simplexProblem config kind e params d).Contains point ↔
      ∀ v ∈ point, isWithin config.paramValueMin config.paramValueMax v = true := Iff.rfl

theorem clip_simplexProblem (config : Config) (kind : ResidualKind) (e : Formula) (params : Params)
    (d : Dataset) (point : Point) : Simplex.clip (simplexProblem config kind e params d) point =
      point.map (clampTo config.paramValueMin config.paramValueMax) := rfl

theorem leads_simplexFinish (config : Config) (kind : ResidualKind) (d : Dataset)
    (hc : c.params.Numeric) :
    (simplexFinish config kind d c).state.Leads
      (simplexProblem config kind c.expression c.params d)
      (c.params.values.map (clampTo config.paramValueMin config.paramValueMax)) :=
  Simplex.leads_run (wellPosed_simplexProblem config kind _ _ d).not_isNaN_cost
    (isWithin_map_clampTo hc config.domain_le) _ _

/-! ## The best values -/

/-- The points that the simplex makes in the fit of a candidate consist of numbers. -/
def NumericVertices (config : Config) (d : Dataset) (c : Candidate) : Prop :=
  ∀ kind, ResidualKind.ofName config.residualFunction = .ok kind →
    ∀ v ∈ simplexVisits config kind d c, ∀ x ∈ v.point, x.isNaN = false

/-- A point of numbers that the simplex makes: it lies in the domain and holds the residual there. -/
theorem visit_simplex (hc : c.params.Numeric) {v : Visit} (hv : v ∈ simplexVisits config kind d c)
    (hn : ∀ x ∈ v.point, x.isNaN = false) :
    v.point.length = c.params.size ∧
      (∀ x ∈ v.point, isWithin config.paramValueMin config.paramValueMax x = true) ∧
      v.point.map (clampTo config.paramValueMin config.paramValueMax) = v.point ∧
      v.cost = costAt kind c.expression c.params d v.point := by
  have hclipped := (leads_simplexFinish config kind d hc).clipped v hv
  have hinside := hclipped.contains (wellPosed_simplexProblem config kind _ _ d).le hn
  have hstays := Simplex.clip_of_contains hinside
  rw [contains_simplexProblem_iff] at hinside
  rw [clip_simplexProblem] at hstays
  refine ⟨?_, hinside, hstays, ?_⟩
  · rw [hclipped.length_eq, List.length_map, Params.length_values]
  · rw [hclipped.cost_eq, cost_simplexProblem, hstays]

/-- The points that the simplex makes are a descent to its best vertex if they consist of numbers. -/
theorem descended_simplex (hc : c.params.Numeric)
    (hall : checkParameters c.expression c.params = .ok ())
    (hv : ∀ v ∈ simplexVisits config kind d c, ∀ x ∈ v.point, x.isNaN = false) {best : Visit}
    (hbest : (simplexFinish config kind d c).state.vertices.head? = some best) :
    Descended config kind d c (simplexVisits config kind d c)
      (c.params.withValues (best.point.map (clampTo config.paramValueMin config.paramValueMax)))
      best.cost := by
  have hleads := leads_simplexFinish config kind d hc
  have hmem : best ∈ simplexVisits config kind d c :=
    (hleads.sound best (List.mem_of_mem_head? hbest)).2
  refine ⟨fun v hvisit => ?_, fun v hvisit => ?_, ⟨_, hleads.start_mem, ?_⟩, ⟨best, hmem, ?_, rfl⟩,
    hleads.least best hbest⟩
  · obtain ⟨hlength, hinside, -, -⟩ := visit_simplex hc hvisit (hv v hvisit)
    rwa [Params.within_iff, Params.values_withValues hlength]
  · obtain ⟨-, -, -, hcost⟩ := visit_simplex hc hvisit (hv v hvisit)
    rw [hcost]
    exact residual_eq_costAt (checkParameters_eq_ok_iff.mp hall) kind d v.point
  · have hlength : (c.params.values.map (clampTo config.paramValueMin
        config.paramValueMax)).length = c.params.size := by
      rw [List.length_map, Params.length_values]
    rw [← Params.values_clamp] at hlength
    rw [Simplex.visit, ← Params.values_clamp, ← withValues_clamp config hlength]
    exact Params.withValues_values _
  · obtain ⟨-, -, hstays, -⟩ := visit_simplex hc hmem (hv best hmem)
    rw [hstays]

/-- The end of a descent, reported within a number of iterations or not. -/
theorem conclude_descended {visits : List Visit} {p : Params} {residue : Float}
    (h : Descended config kind d c visits p residue) (n : Int) (finished : Bool) :
    let result := conclude residue n finished
    ((∃ m, result = .error (.diverged m)) ↔ ∀ v ∈ visits, v.cost = infinity) ∧
      (residue.isFinite = true ∧
          (result = .ok ⟨residue, n⟩ ∧ finished = true ∨ result = .error (.notConverged residue n)) ∨
        residue = infinity ∧ result = .error (.diverged n)) := by
  rw [← h.infinite_iff]
  have hconcluded := concluded residue n finished
  generalize conclude residue n finished = result at hconcluded ⊢
  cases hconcluded with
  | diverged hfinite =>
    have hinfinite := (residual_cases h.residual_final).resolve_left (by simp [hfinite])
    exact ⟨⟨fun _ => hfinite, fun _ => ⟨n, rfl⟩⟩, .inr ⟨hinfinite, rfl⟩⟩
  | cut hfinite => simp [hfinite]
  | fitted hfinite => simp [hfinite]

/-- The simplex agrees with the residual and keeps the best values that it has seen. Its objective at any
point is the residual at the point that is moved into the domain. Unless the residual has no known name or a
parameter no value, and as long as the points that it makes consist of numbers, these lie in the domain, and
it leaves the one of the least residual. It reports this residual if it is finite, as a success only after
fewer iterations than are allowed. It reports a divergence exactly if all residuals were infinite. -/
theorem nelderMead_keeps_least (config : Config) (d : Dataset) (hsize : 0 < c.params.size)
    (hc : c.params.Numeric) (hv : NumericVertices config d c) :
    let report := Algorithm.nelderMead.fit config d c
    (∀ kind point, simplexObjective config kind c.expression c.params d point =
      residual kind c.expression (c.params.withValues
        (point.map (clampTo config.paramValueMin config.paramValueMax))).assignment d) ∧
    ((∃ e, ResidualKind.ofName config.residualFunction = .error e ∧
        report.result = .error (.unknown e)) ∨
      (∃ e, checkParameters c.expression c.params = .error e ∧
        report.result = .error (.missing e)) ∨
      ∃ kind residue n, ResidualKind.ofName config.residualFunction = .ok kind ∧
        (∀ v ∈ simplexVisits config kind d c,
          simplexObjective config kind c.expression c.params d v.point = .ok v.cost) ∧
        report.params.within config.paramValueMin config.paramValueMax = true ∧
        Descended config kind d c (simplexVisits config kind d c) report.params residue ∧
        ((∃ m, report.result = .error (.unfit (.diverged m))) ↔
          ∀ v ∈ simplexVisits config kind d c, v.cost = infinity) ∧
        (residue.isFinite = true ∧
            (report.result = .ok ⟨residue, n⟩ ∧ n < config.fitMaxIters ∨
              report.result = .error (.unfit (.notConverged residue n))) ∨
          residue = infinity ∧ report.result = .error (.unfit (.diverged n)))) := by
  intro report
  refine ⟨fun kind point => simplexObjective_eq_residual config kind _ _ d point, ?_⟩
  have hends : Algorithm.Ends config d c .nelderMead report := Algorithm.ends_fit ..
  clear_value report
  cases hends with
  | empty hnone => exact absurd hnone (Nat.ne_of_gt hsize)
  | unknown _ hk => exact .inl ⟨_, hk, rfl⟩
  | missing _ _ hall => exact .inr (.inl ⟨_, hall, rfl⟩)
  | @simplex kind best _ hk hall hbest =>
    have hdescended := descended_simplex hc hall (hv kind hk) hbest
    refine .inr (.inr ⟨kind, best.cost, (simplexFinish config kind d c).iterations, hk, ?_,
      hdescended.final_within, hdescended, ?_⟩)
    · intro v hvisit
      obtain ⟨-, -, hstays, hcost⟩ := visit_simplex hc hvisit (hv kind hk v hvisit)
      rw [simplexObjective_eq_residual, hstays, hcost]
      exact residual_eq_costAt (checkParameters_eq_ok_iff.mp hall) kind d v.point
    · have hend := conclude_descended hdescended (simplexFinish config kind d c).iterations
        (decide ((simplexFinish config kind d c).iterations < config.fitMaxIters))
      rw [decide_eq_true_iff] at hend
      simpa only [simplexReport, result_reportAt_ok_iff, result_reportAt_error_iff] using hend

/-- The parameter `a` is moved into its domain. In the one iteration that is allowed its reflection turns out
better than the best vertex, and the expanded point better still. -/
theorem nelderMead_keeps_least_expanded :
    let d : Dataset := ⟨[0.0], [0.5], none, rfl, by decide⟩
    let config : Config :=
      ⟨{ fitAlgorithm := "nelder_mead", paramValueMin := -1.0, paramValueMax := 1.0,
          fitMaxIters := 2 }, by decide +kernel⟩
    let c : Candidate := ⟨.parameter "a", Params.empty.insert "a" 3.0⟩
    let report := Algorithm.nelderMead.fit config d c
    NumericVertices config d c ∧ (simplexFinish config .leastSquares d c).iterations = 2 ∧
      (simplexVisits config .leastSquares d c).length = 4 ∧
      report.params.within (-1.0) 1.0 = true ∧ ∃ residue,
        Descended config .leastSquares d c (simplexVisits config .leastSquares d c) report.params
          residue := by
  intro d config c report
  have hnumeric : c.params.Numeric := by
    intro v hv
    obtain rfl : v = 3.0 := List.mem_singleton.mp hv
    decide +kernel
  have hrun : simplexFinish config .leastSquares d c =
      let problem := simplexProblem config .leastSquares c.expression c.params d
      Simplex.iterations problem config.minStep 1 _ 1 :=
    congrArg (Simplex.iterations _ _ 1 · 1) (Simplex.begin_singleton _ _)
  have hvertices : NumericVertices config d c := by
    intro kind hkind
    obtain rfl : .leastSquares = kind := Except.ok.inj hkind
    rw [simplexVisits, hrun]
    decide +kernel
  refine ⟨hvertices, by rw [hrun]; decide +kernel, by rw [simplexVisits, hrun]; decide +kernel, ?_⟩
  obtain ⟨-, ⟨e, hk, -⟩ | ⟨e, hmissing, -⟩ | ⟨kind, residue, -, hk, -, hwithin, hdescended, -⟩⟩ :=
    nelderMead_keeps_least config d (by decide) hnumeric hvertices
  · cases hk
  · cases hmissing
  · obtain rfl : .leastSquares = kind := Except.ok.inj hk
    exact ⟨hwithin, residue, hdescended⟩

end

end FormulaSearch
