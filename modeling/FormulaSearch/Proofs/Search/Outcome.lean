import FormulaSearch.Proofs.Search.Step

/-!
# What a step comes to

Planning a search makes sure that its algorithm and its residual are known and that its template is small
enough. Everything else that a step could be refused is ruled out by its candidate: the candidate lists the
parameters of its formula under distinct names, so its values can be looked up, written back and shown
wherever a fit moves them. So a step of a planned search always has an outcome, whatever the search has come
to before.
-/

namespace FormulaSearch

open Fit

/-! ## Fits that are not refused -/

/-- The fit has come to a finite residue or has found the candidate unfit. -/
def FitReport.Settled (r : FitReport) : Prop :=
  (∃ f, r.result = .ok f ∧ f.residue.isFinite = true) ∨ ∃ e, r.result = .error (.unfit e)

theorem settled_reportAt_conclude (params : Params) (point : Point) (residue : Float)
    (iterations : Int) (finished : Bool) :
    (reportAt params point (conclude residue iterations finished)).Settled := by
  cases h : conclude residue iterations finished with
  | ok r =>
    obtain ⟨hfinite, -, rfl⟩ := conclude_eq_ok h
    exact .inl ⟨_, rfl, hfinite⟩
  | error e => exact .inr ⟨e, rfl⟩

/-- A candidate that lists its parameters is fitted or found unfit. -/
theorem settled_fit {config : Config} {d : Dataset} {c : Candidate} {a : Algorithm}
    {kind : ResidualKind} (ha : Algorithm.ofName config.fitAlgorithm = .ok a)
    (hk : ResidualKind.ofName config.residualFunction = .ok kind) (hc : c.WellNamed) :
    (fit config d c).Settled := by
  have hlisted : ∀ n ∈ c.expression.parameterNames, n ∈ c.params.names := by
    intro n hn
    rwa [show c.params.names = _ from hc]
  obtain ⟨a', -, hfit⟩ | ⟨e, he, -⟩ := fit_cases config d c
  · rw [hfit]
    have hends := a'.ends_fit config d c
    generalize a'.fit config d c = report at hends ⊢
    cases hends with
    | empty => exact .inr ⟨_, rfl⟩
    | unknown _ hk' =>
      rw [hk] at hk'
      cases hk'
    | missing _ _ hall =>
      rw [checkParameters_eq_ok_iff.mpr hlisted] at hall
      cases hall
    | pattern => exact settled_reportAt_conclude _ _ _ _ _
    | simplex => exact settled_reportAt_conclude _ _ _ _ _
  · rw [ha] at he
    cases he

/-- A fitter that reports a result or unfitness of every candidate that lists its parameters, as long as the
names of algorithm and residual are known. It may be interrupted. -/
class Dependable (φ : Type) [Fitter φ] : Prop extends KeepsNames φ where
  settles : ∀ (config : Config) (d : Dataset) (c : Candidate) (f : φ) (r : FitReport)
    (a : Algorithm) (kind : ResidualKind), Algorithm.ofName config.fitAlgorithm = .ok a →
    ResidualKind.ofName config.residualFunction = .ok kind → c.WellNamed →
    (Fitter.attempt config d c f).1 = .reported r →
    (∃ t, r.result = .ok t) ∨ ∃ e, r.result = .error (.unfit e)

instance : Dependable Optimizer where
  settles config d c _ r a kind ha hk hc h := by
    cases h
    exact (settled_fit ha hk hc).imp_left fun ⟨t, ht, _⟩ => ⟨t, ht⟩

instance : Dependable ScriptedFits where
  settles config d c f r a kind _ _ _ h := by
    dsimp only [Fitter.attempt] at h
    split at h
    · cases h
      exact .inl ⟨_, rfl⟩
    · cases h
      exact .inr ⟨_, rfl⟩
    · cases h

/-! ## Plans -/

/-- What planning a search has made sure of. -/
structure SearchPlan.Checked (plan : SearchPlan) : Prop where
  wellNamed : plan.WellNamed
  algorithm_known : ∃ a, Algorithm.ofName plan.config.fitAlgorithm = .ok a
  residual_known : ∃ kind, ResidualKind.ofName plan.config.residualFunction = .ok kind
  paramCount_le : ∀ c, plan.template = some c → (c.paramCount : Int) ≤ plan.config.maxParams

theorem SearchPlan.checked_of_make {dataset : Dataset} {config : Config} {plan : SearchPlan}
    (h : make dataset config = .ok plan) : plan.Checked := by
  have hp := wellNamed_of_make h
  obtain ⟨-, rfl, ha, hk, ⟨-, hnone⟩ | ⟨t, c, -, -, hsmall, hsome⟩⟩ := make_eq_ok h
  · refine ⟨hp, ha, hk, fun c hc => ?_⟩
    rw [hnone] at hc
    cases hc
  · refine ⟨hp, ha, hk, fun c' hc => ?_⟩
    rw [hsome] at hc
    cases hc
    exact hsmall

/-! ## Comparing -/

/-- What comparing a trial with a record announces. -/
def Trial.outcome (b : Best) (t : Trial) : StepOutcome :=
  if t.residue.isFinite then if t.residue ≤ b.residue then .newBest else .notBetter
  else .nonFinite

namespace SearchState

variable {σ φ : Type}

/-- A candidate with a closed text is compared. -/
theorem compare_fst (plan : SearchPlan) {t : Trial} {s : SearchState σ φ} {closed : String}
    (h : t.candidate.closedText = .ok closed) :
    (s.compare plan t.candidate t.result).1 = .ok (t.outcome s.best) := by
  by_cases haccepted : t.Accepted s.best
  · obtain ⟨u, hu, -⟩ := reportBest_of_closedText plan
      (s := { s with best := t.record }.log (.newBest s.generated t.candidate.text t.residue)) h
    rw [compare_of_accepted haccepted]
    dsimp only
    rw [hu, Trial.outcome, if_pos haccepted.1, if_pos haccepted.2]
  · rw [compare, Trial.outcome]
    by_cases hfinite : t.residue.isFinite = true
    · have hgreater : ¬ t.residue ≤ s.best.residue := fun hle => haccepted ⟨hfinite, hle⟩
      rw [if_pos hfinite, if_neg hgreater, if_neg (by simpa [Trial.residue] using hfinite),
        if_neg (show ¬ t.result.residue ≤ s.best.residue from hgreater)]
    · rw [if_neg hfinite, if_pos (by simpa [Trial.residue] using hfinite)]

/-! ## One step -/

section

variable [RandomSource σ] [Fitter φ] {plan : SearchPlan}

/-- What a step comes to: its candidate is too large, or unfit, or its fit is interrupted, or it makes a
trial, which is compared. -/
inductive Ended (plan : SearchPlan) (s : SearchState σ φ) :
    Except StepFailure StepOutcome × SearchState σ φ → Prop where
  | skipped {c : Candidate} {t u : SearchState σ φ}
      (hnext : s.ensureStarted.nextCandidate plan = (.ok c, t))
      (hmany : plan.config.maxParams < c.paramCount) (htrial : s.trial? plan = none) :
      Ended plan s (.ok .tooManyParams, u)
  | unfit {u : SearchState σ φ} (htrial : s.trial? plan = none) : Ended plan s (.ok .fitFailed, u)
  | interrupted {c : Candidate} {f : φ} {u : SearchState σ φ}
      (hattempt : (Fitter.attempt plan.config plan.dataset c f).1 = .interrupted)
      (htrial : s.trial? plan = none) : Ended plan s (.error .interrupted, u)
  | compared {t : Trial} {u : SearchState σ φ} (htrial : s.trial? plan = some t) :
      Ended plan s (.ok (t.outcome s.best), u)

theorem ended_compare {t : Trial} {closed : String} {s u : SearchState σ φ}
    (htrial : s.trial? plan = some t) (hclosed : t.candidate.closedText = .ok closed)
    (hbest : u.best = s.best) : Ended plan s (u.compare plan t.candidate t.result) := by
  have houtcome := compare_fst plan (s := u) hclosed
  rw [hbest] at houtcome
  rw [← Prod.mk.eta (p := u.compare plan t.candidate t.result), houtcome]
  exact .compared htrial

theorem ended_step [Dependable φ] (hp : plan.Checked) (s : SearchState σ φ) :
    Ended plan s (s.step plan) := by
  obtain ⟨c, u, hnext, hnamed, hbest, -⟩ := exists_nextCandidate hp.wellNamed s.ensureStarted
  obtain ⟨a, ha⟩ := hp.algorithm_known
  obtain ⟨kind, hk⟩ := hp.residual_known
  have hsettles := Dependable.settles plan.config plan.dataset c u.fitter
  rw [step, hnext]
  dsimp only
  split
  · rename_i hmany
    exact .skipped hnext hmany (trial?_of_large hnext hmany)
  · rename_i hmany
    have htrial := trial?_of_small hnext (Int.not_lt.mp hmany)
    rw [fitAndCompare]
    dsimp only
    generalize hattempt : Fitter.attempt plan.config plan.dataset c u.fitter = attempt at *
    obtain ⟨attempt, fitter⟩ := attempt
    cases attempt with
    | interrupted => exact .interrupted (congrArg Prod.fst hattempt) htrial
    | reported r =>
      obtain ⟨params, result⟩ := r
      rcases hsettles _ a kind ha hk hnamed rfl with ⟨t, rfl⟩ | ⟨e, rfl⟩
      · have hnamed := wellNamed_of_trial? hp.wellNamed htrial
        obtain ⟨closed, hclosed⟩ :=
          Candidate.exists_closedText (c := ⟨c.expression, params⟩) fun n hn => by
            rwa [show params.names = _ from hnamed]
        refine ended_compare (t := ⟨⟨c.expression, params⟩, t⟩) htrial hclosed ?_
        exact hbest.trans s.aside_ensureStarted.best_eq
      · exact .unfit htrial

end

end SearchState

/-! ## What is not refused -/

theorem Report.withPlaces_placesFor (v : Float) :
    withPlaces v (placesFor v) = .ok (rate v) := by
  have hplaces : placesFor v ≤ 6 := by
    rw [placesFor]
    repeat' split
    all_goals decide
  rw [withPlaces, if_pos (by omega)]
  rfl

namespace SearchState

section

variable {σ φ : Type} [RandomSource σ] {plan : SearchPlan}

/-- The operations of a step that could be refused succeed. -/
structure NothingRefused (plan : SearchPlan) (s : SearchState σ φ) : Prop where
  /-- Growing enters each parameter under a name that is free. -/
  entered : ∀ (p : Params) (value : Float),
    p.add (freshName p.names) value = .ok (p.addFresh value).2
  /-- As many values are drawn as the template has parameters. -/
  drawn : ∀ c, plan.template = some c → ∀ source : σ,
    let values := (RandomSource.uniforms plan.config.paramValueMin plan.config.paramValueMax
      c.paramCount source).1
    c.params.setValues values = .ok (c.params.withValues values)
  /-- The parameters of the candidate have distinct names. -/
  listed : ∀ c, (s.ensureStarted.nextCandidate plan).1 = .ok c →
    Params.ofList c.params.entries = .ok c.params
  /-- The candidate has a residual wherever its parameters are moved. -/
  evaluated : ∀ c, (s.ensureStarted.nextCandidate plan).1 = .ok c →
    ∀ (kind : ResidualKind) (p : Params), p.names = c.params.names →
      ∃ v, residual kind c.expression p.assignment plan.dataset = .ok v
  /-- The simplex ends with a value for each parameter. -/
  written : ∀ c, (s.ensureStarted.nextCandidate plan).1 = .ok c → ∀ kind : ResidualKind,
    ∃ best others,
      (simplexFinish plan.config kind plan.dataset c).state.vertices = best :: others ∧
        let values := best.point.map (clampTo plan.config.paramValueMin plan.config.paramValueMax)
        c.params.setValues values = .ok (c.params.withValues values)
  /-- Every rate is shown with a number of places that is offered. -/
  shown : ∀ v, Report.withPlaces v (Report.placesFor v) = .ok (Report.rate v)

theorem nothingRefused (hp : plan.WellNamed) (s : SearchState σ φ) : s.NothingRefused plan where
  entered := Params.add_freshName
  drawn c _ source := Params.setValues_eq_ok (length_uniforms _ _ _ source)
  listed c _ := c.params.ofList_entries
  evaluated c hc kind p hnames := by
    obtain ⟨c', u, hnext, hnamed, -⟩ := exists_nextCandidate hp s.ensureStarted
    rw [hnext] at hc
    cases hc
    refine exists_residual (fun n hn => ?_) kind plan.dataset
    rwa [hnames, show c.params.names = _ from hnamed]
  written c _ kind := by
    obtain ⟨best, others, hvertices, hlength⟩ :=
      simplexFinish_vertices plan.config kind plan.dataset c
    exact ⟨best, others, hvertices, Params.setValues_eq_ok (by rwa [List.length_map])⟩
  shown := Report.withPlaces_placesFor

/-! ## Every step has an outcome -/

/-- A candidate from a template has as many parameters as the template. -/
theorem paramCount_nextCandidate {c c' : Candidate} {s u : SearchState σ φ}
    (htemplate : plan.template = some c) (hnext : s.nextCandidate plan = (.ok c', u)) :
    c'.paramCount = c.paramCount := by
  rw [nextCandidate, htemplate] at hnext
  dsimp only at hnext
  split at hnext
  · cases hnext
    rw [Candidate.paramCount, Candidate.paramCount, Params.size_eq_length_names,
      Params.names_withValues, ← Params.size_eq_length_names]
  · cases hnext
    rfl

end

section

variable {σ : Type} [RandomSource σ] {plan : SearchPlan}

/-- The trials of a search have finite residues. -/
theorem isFinite_of_trial? (hp : plan.Checked) {s : SearchState σ Optimizer} {t : Trial}
    (h : s.trial? plan = some t) : t.residue.isFinite = true := by
  obtain ⟨c, u, params, hnext, -, hattempt, -⟩ := trial?_eq_some h
  obtain ⟨c', u', hnext', hnamed, -⟩ := exists_nextCandidate hp.wellNamed s.ensureStarted
  rw [hnext] at hnext'
  cases hnext'
  obtain ⟨a, ha⟩ := hp.algorithm_known
  obtain ⟨kind, hk⟩ := hp.residual_known
  have hreport : fit plan.config plan.dataset c = ⟨params, .ok t.result⟩ :=
    FitAttempt.reported.inj hattempt
  have hsettled := settled_fit (d := plan.dataset) ha hk hnamed
  rw [hreport] at hsettled
  rcases hsettled with ⟨r, hr, hfinite⟩ | ⟨e, he⟩
  · cases hr
    exact hfinite
  · cases he

/-- A step of a search that was planned has an outcome, in whatever state the search is: the candidate is
too large, which it is not if it comes from a template, or it is unfit, or its trial is worse than the best
record, or it is the new one. If it is too large or unfit, the search has counted it and kept its record and
the number of fits. Nothing that could be refused on the way is. -/
theorem step_succeeds {dataset : Dataset} {config : Config}
    (hplan : SearchPlan.make dataset config = .ok plan) (s : SearchState σ Optimizer) :
    ∃ outcome, (s.step plan).1 = .ok outcome ∧
      outcome ∈ [.tooManyParams, .fitFailed, .notBetter, .newBest] ∧
      (plan.template.isSome = true → outcome ≠ .tooManyParams) ∧
      (outcome = .tooManyParams ∨ outcome = .fitFailed →
        (s.step plan).2.generated = s.generated + 1 ∧ (s.step plan).2.best = s.best ∧
          (s.step plan).2.fitted = s.fitted) ∧
      s.NothingRefused plan := by
  have hp := SearchPlan.checked_of_make hplan
  have hrefused := nothingRefused hp.wellNamed s
  obtain ⟨hbest, hgenerated, hfitted, -⟩ := advanced_step hp.wellNamed s
  have hended := ended_step hp s
  generalize s.step plan = out at *
  cases hended with
  | skipped hnext hmany htrial =>
    rw [htrial] at hbest hfitted
    refine ⟨_, rfl, by simp, fun hsome => ?_, fun _ => ⟨hgenerated, hbest, hfitted⟩, hrefused⟩
    obtain ⟨c, hc⟩ := Option.isSome_iff_exists.mp hsome
    have := hp.paramCount_le c hc
    rw [paramCount_nextCandidate hc hnext] at hmany
    omega
  | unfit htrial =>
    rw [htrial] at hbest hfitted
    exact ⟨_, rfl, by simp, by simp, fun _ => ⟨hgenerated, hbest, hfitted⟩, hrefused⟩
  | interrupted hattempt _ => cases hattempt
  | @compared t _ htrial =>
    have hfinite := isFinite_of_trial? hp htrial
    rw [Trial.outcome, if_pos hfinite]
    split
    · exact ⟨_, rfl, by simp, by simp, by simp, hrefused⟩
    · exact ⟨_, rfl, by simp, by simp, by simp, hrefused⟩

/-- A search that grows the parameter `a` alone and allows no parameters. -/
theorem step_succeeds_large :
    let dataset : Dataset := ⟨[0.0], [0.0], none, rfl, by decide⟩
    let config : Config :=
      ⟨{ paramValueMin := -1.0, paramValueMax := 1.0, maxParams := 0, complexityMin := 0,
          complexityMax := 0 }, by decide +kernel⟩
    let plan : SearchPlan := ⟨dataset, config, none⟩
    let first := start plan (ScriptedDraws.ofList [0.5]) Optimizer.mk (.withStep 0.0)
    SearchPlan.make dataset config = .ok plan ∧ (first.step plan).1 = .ok .tooManyParams ∧
      (first.step plan).2.generated = 1 ∧ (first.step plan).2.fitted = 0 ∧
      first.NothingRefused plan := by
  intro dataset config plan first
  have hplan : SearchPlan.make dataset config = .ok plan := by
    dsimp only [dataset, config, plan]
    rfl
  obtain ⟨outcome, houtcome, -, -, hcounts, hrefused⟩ := step_succeeds hplan first
  have hlarge : (first.step plan).1.toOption = some .tooManyParams := by decide +kernel
  obtain rfl : outcome = .tooManyParams := by
    rw [houtcome] at hlarge
    exact Option.some.inj hlarge
  obtain ⟨hgenerated, -, hfitted⟩ := hcounts (.inl rfl)
  exact ⟨hplan, houtcome, hgenerated, hfitted, hrefused⟩

end

end SearchState

end FormulaSearch
