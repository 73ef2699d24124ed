import FormulaSearch.Proofs.Fit

/-!
# What pattern search makes of a candidate

Whatever comes of it, pattern search leaves the candidate with the best values that it has tried, all of
them in the parameter domain, and what it reports is their residual. If it succeeds, it has polled these
values: with a step that is about the least one, no move of a single parameter lowers the residual.
-/

namespace FormulaSearch

open Fit

/-! ## Values by place -/

namespace Params

theorem eq_of_entries {p q : Params} (h : p.entries = q.entries) : p = q := by
  cases p
  cases q
  cases h
  rfl

theorem overwrite_eq_zip {entries : List (String × Float)} {values : List Float}
    (h : values.length = entries.length) :
    overwrite entries values = (entries.map Prod.fst).zip values := by
  induction entries generalizing values with
  | nil => rw [List.length_eq_zero_iff.mp h]; rfl
  | cons entry entries ih =>
    cases values with
    | nil => simp at h
    | cons v values => simpa [overwrite] using ih (by simpa using h)

theorem entries_withValues {p : Params} {values : List Float} (h : values.length = p.size) :
    (p.withValues values).entries = p.names.zip values := overwrite_eq_zip h

/-- New values leave nothing of the old ones. -/
theorem withValues_eq_of_names {p q : Params} (hnames : p.names = q.names) {values : List Float}
    (h : values.length = p.size) : p.withValues values = q.withValues values := by
  have h' : values.length = q.size := by
    rw [h, size_eq_length_names, hnames, ← size_eq_length_names]
  apply eq_of_entries
  rw [entries_withValues h, entries_withValues h', hnames]

theorem withValues_values (p : Params) : p.withValues p.values = p := by
  apply eq_of_entries
  rw [entries_withValues p.length_values]
  exact (List.zip_of_prod rfl rfl).symm

/-- With distinct names, to change the value that goes with a name is to change one place. -/
theorem map_zip_set {names : List String} {values : List Float} (hd : names.Nodup)
    (hlen : values.length = names.length) {i : Nat} (hi : i < names.length) (t : Float) :
    (names.zip values).map (fun (n, v) => (n, if n = names[i] then t else v)) =
      names.zip (values.set i t) := by
  refine List.ext_getElem (by simp) fun j hj _ => ?_
  have hj : j < names.length := by
    simp only [List.length_map, List.length_zip] at hj
    omega
  rw [List.getElem_map, List.getElem_zip, List.getElem_zip, List.getElem_set]
  dsimp only
  by_cases hij : i = j
  · subst hij
    rw [if_pos rfl, if_pos rfl]
  · rw [if_neg hij, if_neg]
    exact fun h => hij ((hd.getElem_inj_iff.mp h).symm)

/-- To set one of the parameters is to change the value at its place. -/
theorem set_withValues {p : Params} {values : List Float} (hlen : values.length = p.size)
    {name : String} {v : Float} (h : (name, v) ∈ (p.withValues values).entries) :
    ∃ i < values.length, values.getD i 0.0 = v ∧
      ∀ t, (p.withValues values).set name t = .ok (p.withValues (values.set i t)) := by
  have hmem : name ∈ (p.withValues values).names := List.mem_map.mpr ⟨_, h, rfl⟩
  rw [entries_withValues hlen] at h
  obtain ⟨i, hi, hentry⟩ := List.mem_iff_getElem.mp h
  rw [List.getElem_zip] at hentry
  obtain ⟨rfl, rfl⟩ := Prod.mk.inj hentry
  have hlen' : values.length = p.names.length := by rw [hlen, size_eq_length_names]
  have hi' : i < values.length := by
    rw [List.length_zip] at hi
    omega
  refine ⟨i, hi', ?_, fun t => ?_⟩
  · rw [List.getD_eq_getElem?_getD, List.getElem?_eq_getElem hi']
    rfl
  · rw [set, if_pos (by simpa [contains] using hmem)]
    refine congrArg _ (eq_of_entries ?_)
    rw [entries_withValues (by rw [List.length_set, hlen]), mapValues]
    dsimp only
    rw [entries_withValues hlen]
    exact map_zip_set p.distinct hlen' (hlen' ▸ hi') t

end Params

/-! ## The first step -/

theorem Config.stepFraction_pos (config : Config) :
    0.0 < config.initialStepFraction ∧ config.initialStepFraction ≤ 1.0 := by
  simpa using config.check_passes config.accepted
    (.tail _ (.tail _ (.tail _ (.tail _ (.head _)))))

/-- The first step is a number, even if the width of the domain overflows. -/
theorem Config.not_isNaN_firstStep (config : Config) : config.firstStep.isNaN = false := by
  obtain ⟨hpos, hle⟩ := config.stepFraction_pos
  obtain ⟨hl, hu⟩ := config.domain_isFinite
  refine Double.not_isNaN_mul hpos ?_ ?_
  · exact Double.isFinite_of_le (by decide) (by decide) (Double.le_of_lt hpos) hle
  · exact Double.not_isNaN_sub hu (Double.not_isNaN_of_isFinite hl)

/-! ## The best values -/

section

variable {config : Config} {kind : ResidualKind} {d : Dataset} {c : Candidate}

/-- Every parameter that occurs is still listed after its value has been moved. -/
theorem listed_clamp (config : Config) (h : checkParameters c.expression c.params = .ok ()) :
    ∀ n ∈ c.expression.parameterNames,
      n ∈ (c.params.clamp config.paramValueMin config.paramValueMax).names := by
  rw [Params.names_clamp]
  exact checkParameters_eq_ok_iff.mp h

/-- A record of values that were tried, the clamped start among them: they lie in the domain and each
has its residual. Of the values that are left none of the others has a lower residual. -/
structure Descended (config : Config) (kind : ResidualKind) (d : Dataset) (c : Candidate)
    (visits : List Visit) (p : Params) (residue : Float) : Prop where
  within : ∀ v ∈ visits,
    (c.params.withValues v.point).within config.paramValueMin config.paramValueMax = true
  residual_eq : ∀ v ∈ visits,
    residual kind c.expression (c.params.withValues v.point).assignment d = .ok v.cost
  start_mem : ∃ v ∈ visits,
    c.params.withValues v.point = c.params.clamp config.paramValueMin config.paramValueMax
  final_mem : ∃ v ∈ visits, c.params.withValues v.point = p ∧ v.cost = residue
  least : ∀ v ∈ visits, residue ≤ v.cost

theorem Descended.final_within {visits : List Visit} {p : Params} {residue : Float}
    (h : Descended config kind d c visits p residue) :
    p.within config.paramValueMin config.paramValueMax = true := by
  obtain ⟨v, hv, rfl, -⟩ := h.final_mem
  exact h.within v hv

/-- The residue is the residual of the values that are left. -/
theorem Descended.residual_final {visits : List Visit} {p : Params} {residue : Float}
    (h : Descended config kind d c visits p residue) :
    residual kind c.expression p.assignment d = .ok residue := by
  obtain ⟨v, hv, rfl, rfl⟩ := h.final_mem
  exact h.residual_eq v hv

/-- The values at a visit in terms of those that the candidate came with. -/
theorem withValues_clamp (config : Config) {point : Point} (h : point.length = c.params.size) :
    (c.params.clamp config.paramValueMin config.paramValueMax).withValues point =
      c.params.withValues point :=
  Params.withValues_eq_of_names (Params.names_clamp _ _ _) (by rw [h, size_clamp])

theorem descended_patternReport (config : Config) (kind : ResidualKind) (d : Dataset)
    (hc : c.params.Numeric) (hsize : 0 < c.params.size)
    (hall : checkParameters c.expression c.params = .ok ()) :
    Descended config kind d c (patternVisits config kind d c)
      (patternReport config kind d c).params (patternFinish config kind d c).walk.cost := by
  have hwalk := patternFinish_sound config kind d hc hsize
  have hlength : ∀ v ∈ patternVisits config kind d c, v.point.length = c.params.size := by
    intro v hv
    rw [(hwalk.sound_visits v hv).length_eq, Params.length_values, size_clamp]
  refine ⟨fun v hv => ?_, fun v hv => ?_, ⟨_, hwalk.start_mem, ?_⟩, ⟨_, hwalk.held_mem, ?_, rfl⟩,
    hwalk.least⟩
  · rw [Params.within_iff, Params.values_withValues (hlength v hv)]
    exact (hwalk.sound_visits v hv).contains
  · rw [← withValues_clamp config (hlength v hv), (hwalk.sound_visits v hv).cost_eq]
    exact residual_eq_costAt (listed_clamp config hall) kind d v.point
  · rw [← withValues_clamp config (hlength _ hwalk.start_mem)]
    exact Params.withValues_values _
  · exact (withValues_clamp config (hlength _ hwalk.held_mem)).symm

/-- A least cost that is not finite leaves no finite one. -/
theorem Descended.infinite {visits : List Visit} {p : Params} {residue : Float}
    (h : Descended config kind d c visits p residue) (hinfinite : residue.isFinite = false) :
    ∀ v ∈ visits, v.cost = infinity := by
  have hresidue := (residual_cases h.residual_final).resolve_left (by simp [hinfinite])
  intro v hv
  refine (residual_cases (h.residual_eq v hv)).resolve_left fun hfinite => ?_
  have hle := h.least v hv
  rw [hresidue] at hle
  exact not_infinity_le hfinite hle

theorem Descended.infinite_iff {visits : List Visit} {p : Params} {residue : Float}
    (h : Descended config kind d c visits p residue) :
    residue.isFinite = false ↔ ∀ v ∈ visits, v.cost = infinity := by
  refine ⟨h.infinite, fun hall => ?_⟩
  obtain ⟨v, hv, -, rfl⟩ := h.final_mem
  rw [hall v hv, infinity_not_isFinite]

/-- Pattern search keeps the best values it has tried. Unless the residual has no known name or a
parameter no value, all values that it tries lie in the domain, and of these it leaves some of the least
residual. It reports this residual if that is finite, and otherwise every residual was infinite. -/
theorem patternSearch_keeps_least (config : Config) (d : Dataset) (hsize : 0 < c.params.size)
    (hc : c.params.Numeric) :
    let report := Algorithm.patternSearch.fit config d c
    report.params.within config.paramValueMin config.paramValueMax = true ∧
    ((∃ e, ResidualKind.ofName config.residualFunction = .error e ∧
        report.result = .error (.unknown e)) ∨
      (∃ e, checkParameters c.expression c.params = .error e ∧
        report.result = .error (.missing e)) ∨
      ∃ kind residue n, ResidualKind.ofName config.residualFunction = .ok kind ∧
        Descended config kind d c (patternVisits config kind d c) report.params residue ∧
        (residue.isFinite = true ∧
            (report.result = .ok ⟨residue, n⟩ ∨
              report.result = .error (.unfit (.notConverged residue n))) ∨
          (∀ v ∈ patternVisits config kind d c, v.cost = infinity) ∧
            report.result = .error (.unfit (.diverged n)))) := by
  intro report
  have hends : Algorithm.Ends config d c .patternSearch report := Algorithm.ends_fit ..
  clear_value report
  have hclamped : (c.params.clamp config.paramValueMin config.paramValueMax).within
      config.paramValueMin config.paramValueMax = true := Params.within_iff.mpr hc.clamp_within
  cases hends with
  | empty hnone => exact absurd hnone (Nat.ne_of_gt hsize)
  | unknown _ hk => exact ⟨hclamped, .inl ⟨_, hk, rfl⟩⟩
  | missing _ _ hall => exact ⟨hclamped, .inr (.inl ⟨_, hall, rfl⟩)⟩
  | @pattern kind _ hk hall =>
    have hdescended := descended_patternReport config kind d hc hsize hall
    refine ⟨hdescended.final_within, .inr (.inr ⟨kind, _, (patternFinish config kind d c).rounds, hk,
      hdescended, ?_⟩)⟩
    have hconcluded := concluded (patternFinish config kind d c).walk.cost
      (patternFinish config kind d c).rounds (patternFinish config kind d c).converged
    rw [patternReport, reportOf]
    generalize conclude _ _ _ = outcome at hconcluded ⊢
    generalize (patternFinish config kind d c).converged = converged at hconcluded
    cases hconcluded with
    | diverged hinfinite => exact .inr ⟨hdescended.infinite hinfinite, rfl⟩
    | cut hfinite => exact .inl ⟨hfinite, .inr rfl⟩
    | fitted hfinite => exact .inl ⟨hfinite, .inl rfl⟩

/-- The parameter `a` is fitted to a single sample in one step, from a value that is moved into the
domain. -/
theorem patternSearch_keeps_least_clamped :
    let d : Dataset := ⟨[0.0], [0.5], none, rfl, by decide⟩
    let config : Config :=
      ⟨{ paramValueMin := -1.0, paramValueMax := 1.0, minStep := 0.25, initialStepFraction := 0.25 },
        by decide +kernel⟩
    let c : Candidate := ⟨.parameter "a", Params.empty.insert "a" 3.0⟩
    let report := Algorithm.patternSearch.fit config d c
    report.params.within (-1.0) 1.0 = true ∧ ∃ residue,
      Descended config .leastSquares d c (patternVisits config .leastSquares d c) report.params
        residue := by
  intro d config c report
  have hnumeric : c.params.Numeric := by
    intro v hv
    obtain rfl : v = 3.0 := List.mem_singleton.mp hv
    decide +kernel
  obtain ⟨hwithin, ⟨e, hk, -⟩ | ⟨e, hmissing, -⟩ | ⟨kind, residue, -, hk, hdescended, -⟩⟩ :=
    patternSearch_keeps_least config d (by decide) hnumeric
  · cases hk
  · cases hmissing
  · obtain rfl : .leastSquares = kind := Except.ok.inj hk
    exact ⟨hwithin, residue, hdescended⟩

/-! ## Polled values -/

/-- No move of a single parameter by a step, up or down and as far as it leads to another value of the
domain, makes the residual lower than a residue. -/
def LocallyOptimal (config : Config) (kind : ResidualKind) (d : Dataset) (e : Formula) (p : Params)
    (residue step : Float) : Prop :=
  ∀ name v, (name, v) ∈ p.entries → ∀ target ∈ [v + step, v - step],
    let trial := clampTo config.paramValueMin config.paramValueMax target
    (trial == v) = false → ∃ q other, p.set name trial = .ok q ∧
      residual kind e q.assignment d = .ok other ∧ ¬ other < residue

/-- A pattern search that succeeds took no round because its first step was below the least one, or it
ends at values that are locally optimal for a step that came from the first one by halving: it is no less
than the least step, and its half is. -/
theorem patternSearch_locally_optimal {r : FitResult} (hmin : 0.0 < config.minStep)
    (h : (Algorithm.patternSearch.fit config d c).result = .ok r) :
    let p := (Algorithm.patternSearch.fit config d c).params
    r.iterations = 0 ∧ config.firstStep < config.minStep ∨
      0 < r.iterations ∧ ∃ kind n, ResidualKind.ofName config.residualFunction = .ok kind ∧
        let step := PatternSearch.halved config.firstStep n
        config.minStep ≤ step ∧ step / 2.0 < config.minStep ∧
          LocallyOptimal config kind d c.expression p r.residue step := by
  intro p
  have hminimum := (Double.not_isNaN_of_le (Double.le_of_lt hmin)).2
  obtain ⟨kind, hsize, hk, hall, hreport⟩ := patternSearch_eq_of_ok h
  rw [patternReport, patternFinish, patternFinishWithin_eq config kind d hsize] at hreport
  rw [hreport] at h
  obtain ⟨-, hconverged, rfl⟩ := conclude_eq_ok (result_reportAt_ok_iff.mp h)
  rcases PatternSearch.run_optimal hconverged with ⟨hrounds, hsmall⟩ | ⟨hrounds, n, hle, hhalf, hpolled⟩
  · refine .inl ⟨congrArg Int.ofNat hrounds, ?_⟩
    exact Double.lt_of_not_le hminimum config.not_isNaN_firstStep hsmall
  · refine .inr ⟨Int.ofNat_lt.mpr hrounds, kind, n, hk, hle, ?_, ?_⟩
    · have hstep := (Double.not_isNaN_of_le hle).2
      exact Double.lt_of_not_le hminimum (Double.not_isNaN_half hstep) hhalf
    · intro name v hentry target htarget trial htrial
      have hp : p = _ := congrArg FitReport.params hreport
      rw [hp] at hentry ⊢
      obtain ⟨i, hi, rfl, hset⟩ := Params.set_withValues
        ((PatternSearch.length_run _ _ _ _ _).trans (Params.length_values _)) hentry
      exact ⟨_, _, hset trial, residual_eq_costAt (listed_clamp config hall) kind d _,
        hpolled i hi target htarget htrial⟩

/-- Three rounds with the steps a half, a half and a quarter, of which the last two move nothing. -/
theorem patternSearch_locally_optimal_quarter :
    let d : Dataset := ⟨[0.0], [0.5], none, rfl, by decide⟩
    let config : Config :=
      ⟨{ paramValueMin := -1.0, paramValueMax := 1.0, minStep := 0.25, initialStepFraction := 0.25 },
        by decide +kernel⟩
    let c : Candidate := ⟨.parameter "a", Params.empty.insert "a" 3.0⟩
    let report := Algorithm.patternSearch.fit config d c
    ∃ r, report.result = .ok r ∧ r.iterations = 3 ∧ ∃ n,
      let step := PatternSearch.halved config.firstStep n
      0.25 ≤ step ∧ step / 2.0 < 0.25 ∧
        LocallyOptimal config .leastSquares d c.expression report.params r.residue step := by
  intro d config c report
  have hrounds : (match report.result with
      | .ok r => r.iterations == 3
      | .error _ => false) = true := by
    decide +kernel
  split at hrounds
  · rename_i r hresult
    have hiterations : r.iterations = 3 := beq_iff_eq.mp hrounds
    refine ⟨r, hresult, hiterations, ?_⟩
    rcases patternSearch_locally_optimal (by decide +kernel) hresult with
      ⟨hnone, -⟩ | ⟨-, kind, n, hk, hpolled⟩
    · omega
    · obtain rfl : .leastSquares = kind := Except.ok.inj hk
      exact ⟨n, hpolled⟩
  · cases hrounds

end

end FormulaSearch
