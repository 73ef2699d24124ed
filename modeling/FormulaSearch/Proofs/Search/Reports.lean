import FormulaSearch.Proofs.Search.Run

/-!
# What a search reports

A search without a template only handles grown candidates. Their constants are finite, those that
simplification puts in are too, and a fit leaves values of the domain, which is finite. So whatever a search
has come to, the closed text of its best candidate is read back as the function that was fitted, and this is
the text that its report shows.
-/

namespace FormulaSearch

/-! ## Finite candidates -/

/-- The variable alone has no numbers. -/
theorem Candidate.allFinite_sentinel : Candidate.sentinel.AllFinite where
  constants v hv := by simp [sentinel, Expr.preorder] at hv
  values n hn := by simp [sentinel, Expr.mem_parameterNames, Expr.preorder] at hn

/-- A fit leaves finite values, so a candidate with finite constants consists of finite numbers after it. -/
theorem Fitted.allFinite {config : Config} {d : Dataset} {c : Candidate} {params : Params}
    {r : FitResult} (h : Fitted config d c params r) (hc : c.WellNamed)
    (hfinite : ∀ v, .constant v ∈ c.expression.preorder → v.isFinite = true) :
    Candidate.AllFinite ⟨c.expression, params⟩ where
  constants := hfinite
  values n hn := by
    have hlisted : n ∈ params.names := by
      rw [h.names_eq, show c.params.names = _ from hc]
      exact hn
    obtain ⟨v, hv⟩ := Params.exists_assignment hlisted
    obtain ⟨hl, hu⟩ := config.domain_isFinite
    have hin := Params.within_iff.mp h.within v (Params.mem_values_of_assignment hv)
    exact ⟨v, hv, Double.isFinite_of_isWithin hl hu hin⟩

namespace SearchState

variable {σ : Type} [RandomSource σ] {plan : SearchPlan} {source : σ} {clock : Clock}

/-! ## States that a search comes to -/

/-- The states that a search comes to by steps and by what has no part in it. -/
inductive Reached (plan : SearchPlan) (source : σ) (clock : Clock) :
    SearchState σ Optimizer → Prop where
  | start (symbolic : Symbolic) : Reached plan source clock (start plan source ⟨⟩ clock symbolic)
  | step {s : SearchState σ Optimizer} (h : Reached plan source clock s) :
      Reached plan source clock (s.step plan).2
  | kept {s t : SearchState σ Optimizer} (h : Reached plan source clock s) (hkept : Kept s t) :
      Reached plan source clock t

/-- The source has come from the first one, and the best candidate consists of finite numbers. -/
structure Finite (source : σ) (s : SearchState σ Optimizer) : Prop where
  drawn : Drawn source s.source
  best : s.best.candidate.AllFinite

/-- A grown candidate is ready for a fit and has finite constants. -/
theorem nextCandidate_finite (htemplate : plan.template = none)
    (hd : NumericDraws source plan.config.paramValueMin plan.config.paramValueMax)
    {s : SearchState σ Optimizer} (hs : Drawn source s.source) :
    Drawn source (s.nextCandidate plan).2.source ∧
      ∀ c, (s.nextCandidate plan).1 = .ok c →
        c.Ready ∧ ∀ v, .constant v ∈ c.expression.preorder → v.isFinite = true := by
  have hgrown : Drawn source (Candidate.generate plan.config.toSettings s.source).2 ∧
      (Candidate.generate plan.config.toSettings s.source).1.params.Numeric := grows_generate hd hs
  obtain ⟨hdrawn, hnumeric⟩ := hgrown
  obtain ⟨c, hc, hfinite⟩ := Candidate.exists_simplify_generate plan.config.toSettings s.source
  obtain ⟨hnamed, hvalues⟩ := Candidate.simplify_wellNamed hc
  rw [nextCandidate, htemplate]
  dsimp only
  rw [hc]
  refine ⟨hdrawn, ?_⟩
  rintro c ⟨⟩
  exact ⟨⟨hnamed, hvalues hnumeric⟩, hfinite⟩

/-- A step keeps the best candidate finite. -/
theorem step_finite (htemplate : plan.template = none)
    (hd : NumericDraws source plan.config.paramValueMin plan.config.paramValueMax)
    {s : SearchState σ Optimizer} (hs : s.Finite source) : (s.step plan).2.Finite source := by
  have hp := SearchPlan.wellNamed_of_template htemplate
  have hstarted : Drawn source s.ensureStarted.source := by
    rw [s.aside_ensureStarted.source_eq]
    exact hs.drawn
  obtain ⟨hdrawn, hnext⟩ := nextCandidate_finite htemplate hd hstarted
  obtain ⟨hbest, -, -, hsource⟩ := advanced_step hp s
  refine ⟨hsource ▸ hdrawn, ?_⟩
  rw [hbest]
  cases htrial : s.trial? plan with
  | none => exact hs.best
  | some t =>
    obtain ⟨c, u, params, hc, -, hattempt, hcandidate⟩ := trial?_eq_some htrial
    obtain ⟨hready, hfinite⟩ := hnext c (by rw [hc])
    -- the trial is the candidate with the parameters of a fit that has succeeded
    have hreport : fit plan.config plan.dataset c = ⟨params, .ok t.result⟩ :=
      FitAttempt.reported.inj hattempt
    have hfitted := fit_fitted hready.numeric (congrArg FitReport.result hreport)
    rw [hreport] at hfitted
    have hstored : t.candidate.AllFinite := hcandidate ▸ hfitted.allFinite hready.wellNamed hfinite
    show (s.best.next t).candidate.AllFinite
    rw [Best.next]
    split
    · exact hstored
    · exact hs.best

/-- Whatever a search comes to, its best candidate is finite. -/
theorem Reached.finite (htemplate : plan.template = none)
    (hd : NumericDraws source plan.config.paramValueMin plan.config.paramValueMax)
    {s : SearchState σ Optimizer} (h : Reached plan source clock s) : s.Finite source := by
  induction h with
  | start symbolic => exact ⟨.start, Candidate.allFinite_sentinel⟩
  | step _ ih => exact step_finite htemplate hd ih
  | kept _ hkept ih => exact ⟨hkept.source_eq ▸ ih.drawn, hkept.best_eq ▸ ih.best⟩

/-- A run only comes to such states. -/
theorem Reached.turns {s : SearchState σ Optimizer} (h : Reached plan source clock s) (n : Nat) :
    Reached plan source clock (turns plan n s).state := by
  induction n generalizing s with
  | zero => exact h
  | succ n ih =>
    have hturn := turned_turn plan s
    rw [SearchState.turns]
    generalize s.turn plan = progress at hturn
    cases hturn with
    | stopped _ hkept => exact h.kept hkept
    | stepped _ hkept _ hkept' => exact ih ((h.kept hkept).step.kept hkept')
    | interrupted _ hkept _ hkept' => exact (h.kept hkept).step.kept hkept'
    | failed hkept hkept' => exact (h.kept hkept).step.kept hkept'

/-- The closed text of a candidate of finite numbers is read back as a formula without parameters that has
its values everywhere. In a search without a template, over draws that are numbers, the best candidate is
always of this kind, at any point of a run; and a step that announces a new best record reports a text that
is read back as the function of the record. -/
theorem closedText_readsBack :
    (∀ c : Candidate, c.AllFinite → ∃ closed, c.closedText = .ok closed ∧ c.ReadsBack closed) ∧
      ∀ (plan : SearchPlan) (source : σ) (clock : Clock), plan.template = none →
        NumericDraws source plan.config.paramValueMin plan.config.paramValueMax →
        (∀ s, Reached plan source clock s → s.best.candidate.AllFinite ∧
          ((s.step plan).1 = .ok .newBest → ∃ closed, (s.step plan).2.Reported plan closed ∧
            (s.step plan).2.best.candidate.ReadsBack closed)) ∧
        ∀ symbolic n, Reached plan source clock
          (turns plan n ((start plan source ⟨⟩ clock symbolic).beginRun plan)).state := by
  refine ⟨fun c hc => hc.readsBack, fun plan source clock htemplate hd =>
    ⟨fun s hs => ⟨(hs.finite htemplate hd).best, fun hnew => ?_⟩, fun symbolic n => ?_⟩⟩
  · obtain ⟨closed, hclosed, hreported⟩ :=
      reported_of_newBest (SearchPlan.wellNamed_of_template htemplate) hnew
    obtain ⟨text, htext, hreads⟩ := (hs.step.finite htemplate hd).best.readsBack
    rw [htext] at hclosed
    obtain rfl := Except.ok.inj hclosed
    exact ⟨text, hreported, hreads⟩
  · exact ((Reached.start symbolic).kept (kept_beginRun plan _)).turns n

/-- A search that grows the parameter `a` alone and fits it to a single sample. -/
theorem closedText_readsBack_parameter :
    let dataset : Dataset := ⟨[0.0], [0.0], none, rfl, by decide⟩
    let config : Config :=
      ⟨{ paramValueMin := -1.0, paramValueMax := 1.0, minStep := 0.25, initialStepFraction := 0.5,
          complexityMin := 0, complexityMax := 0 }, by decide +kernel⟩
    let plan : SearchPlan := ⟨dataset, config, none⟩
    let first := start plan (ScriptedDraws.ofList [0.5]) Optimizer.mk (.withStep 0.0)
    (first.step plan).1 = .ok .newBest ∧ (first.step plan).2.best.candidate.AllFinite ∧
      ∃ closed, (first.step plan).2.Reported plan closed ∧
        (first.step plan).2.best.candidate.ReadsBack closed := by
  intro dataset config plan first
  have hdraws : NumericDraws (ScriptedDraws.ofList [0.5]) (-1.0) 1.0 := by
    intro s hs
    rcases drawn_singleton hs with rfl | rfl
    · decide +kernel
    · decide +kernel
  have hnew : (first.step plan).1 = .ok .newBest := by
    have houtcome : (first.step plan).1.toOption = some .newBest := by decide +kernel
    generalize (first.step plan).1 = outcome at houtcome
    cases outcome with
    | ok o => exact congrArg _ (Option.some.inj houtcome)
    | error e => cases houtcome
  have hreached : Reached plan (ScriptedDraws.ofList [0.5]) (.withStep 0.0) first := .start .absent
  have hall := (closedText_readsBack.2 plan (ScriptedDraws.ofList [0.5]) (.withStep 0.0) rfl
    hdraws).1
  exact ⟨hnew, (hall _ hreached.step).1, (hall _ hreached).2 hnew⟩

end SearchState

end FormulaSearch
