import FormulaSearch.Proofs.Fit
import FormulaSearch.Search.Basic

/-!
# The best record of a search

Whatever a search has tried, its best record is the first one or a fit: a residue that is the residual of
the stored formula at the stored parameters, within the domain and the limits of the configuration. One
step keeps this, because a record is only replaced by a candidate as its fit has left it; so it holds
after any number of steps.
-/

namespace FormulaSearch

/-! ## Records and plans -/

/-- The record before anything has been found. -/
def Best.initial (config : Config) : Best := ⟨.sentinel, config.residueThreshold, 0⟩

/-- A record that can be checked against dataset and configuration. -/
structure Best.Verified (dataset : Dataset) (config : Config) (b : Best) : Prop where
  isFinite : b.residue.isFinite = true
  le_threshold : b.residue ≤ config.residueThreshold
  residual_eq : ∃ kind, ResidualKind.ofName config.residualFunction = .ok kind ∧
    residual kind b.candidate.expression b.candidate.params.assignment dataset = .ok b.residue
  within : b.candidate.params.within config.paramValueMin config.paramValueMax = true
  wellNamed : b.candidate.params.names = b.candidate.expression.parameterNames
  nonempty : 1 ≤ b.candidate.paramCount
  paramCount_le : (b.candidate.paramCount : Int) ≤ config.maxParams
  iterations_le : b.iterations ≤ config.fitMaxIters

/-- A candidate ready for a fit. -/
structure Candidate.Ready (c : Candidate) : Prop where
  wellNamed : c.WellNamed
  numeric : c.params.Numeric

/-- What a plan that was made consists of. Its algorithm and residual are known, and its template, if it has
one, is small enough. -/
theorem SearchPlan.make_eq_ok {dataset : Dataset} {config : Config} {plan : SearchPlan}
    (h : make dataset config = .ok plan) :
    plan.dataset = dataset ∧ plan.config = config ∧
      (∃ a, Algorithm.ofName config.fitAlgorithm = .ok a) ∧
      (∃ kind, ResidualKind.ofName config.residualFunction = .ok kind) ∧
      ((templateOf? config.toSettings = none ∧ plan.template = none) ∨
        ∃ t c, templateOf? config.toSettings = some t ∧
          Candidate.ofTemplate config.toSettings t = .ok c ∧
          (c.paramCount : Int) ≤ config.maxParams ∧ plan.template = some c) := by
  rw [make] at h
  split at h
  · cases h
  · cases h
  · rename_i a kind ha hk
    split at h
    · rename_i hnone
      cases h
      exact ⟨rfl, rfl, ⟨a, ha⟩, ⟨kind, hk⟩, .inl ⟨hnone, rfl⟩⟩
    · rename_i t ht
      split at h
      · cases h
      · rename_i c hc
        split at h
        · cases h
        · rename_i hsmall
          cases h
          exact ⟨rfl, rfl, ⟨a, ha⟩, ⟨kind, hk⟩, .inr ⟨t, c, ht, hc, Int.not_lt.mp hsmall, rfl⟩⟩

/-- A plan that was made has a template that is ready, if it has one. -/
theorem SearchPlan.make_ready {dataset : Dataset} {config : Config} {plan : SearchPlan}
    (h : make dataset config = .ok plan) :
    plan.dataset = dataset ∧ plan.config = config ∧ ∀ c, plan.template = some c → c.Ready := by
  obtain ⟨hdataset, hconfig, -, -, ⟨-, hnone⟩ | ⟨t, c, -, hc, -, hsome⟩⟩ := make_eq_ok h
  · refine ⟨hdataset, hconfig, fun c' hc' => ?_⟩
    rw [hnone] at hc'
    cases hc'
  · refine ⟨hdataset, hconfig, fun c' hc' => ?_⟩
    rw [hsome] at hc'
    cases hc'
    obtain ⟨hnames, hnumeric⟩ := Candidate.ofTemplate_wellNamed hc
    exact ⟨hnames, hnumeric⟩

namespace SearchState

variable {σ φ : Type}

/-! ## What goes on aside -/

/-- Nothing but the clock, the times and the output differs. -/
structure Aside (s t : SearchState σ φ) : Prop where
  source_eq : t.source = s.source
  fitter_eq : t.fitter = s.fitter
  templateUsed_eq : t.templateUsed = s.templateUsed
  best_eq : t.best = s.best
  generated_eq : t.generated = s.generated
  fitted_eq : t.fitted = s.fitted
  symbolic_eq : t.symbolic = s.symbolic

theorem Aside.refl (s : SearchState σ φ) : Aside s s := ⟨rfl, rfl, rfl, rfl, rfl, rfl, rfl⟩

theorem Aside.trans {s t u : SearchState σ φ} (h : Aside s t) (h' : Aside t u) : Aside s u where
  source_eq := h'.source_eq.trans h.source_eq
  fitter_eq := h'.fitter_eq.trans h.fitter_eq
  templateUsed_eq := h'.templateUsed_eq.trans h.templateUsed_eq
  best_eq := h'.best_eq.trans h.best_eq
  generated_eq := h'.generated_eq.trans h.generated_eq
  fitted_eq := h'.fitted_eq.trans h.fitted_eq
  symbolic_eq := h'.symbolic_eq.trans h.symbolic_eq

theorem aside_log (e : Event) (s : SearchState σ φ) : Aside s (s.log e) :=
  ⟨rfl, rfl, rfl, rfl, rfl, rfl, rfl⟩

theorem aside_readClock (s : SearchState σ φ) : Aside s s.readClock.2 :=
  ⟨rfl, rfl, rfl, rfl, rfl, rfl, rfl⟩

theorem aside_elapsed (s : SearchState σ φ) : Aside s s.elapsed.2 := by
  rw [elapsed]
  split
  · exact .refl s
  · exact s.aside_readClock

theorem aside_ensureStarted (s : SearchState σ φ) : Aside s s.ensureStarted := by
  rw [ensureStarted]
  split
  · exact .refl s
  · exact ⟨rfl, rfl, rfl, rfl, rfl, rfl, rfl⟩

theorem aside_print (plan : SearchPlan) (lines : List String) (s : SearchState σ φ) :
    Aside s (s.print plan lines) := by
  rw [print]
  split
  · exact ⟨rfl, rfl, rfl, rfl, rfl, rfl, rfl⟩
  · exact .refl s

theorem aside_printStats (plan : SearchPlan) (s : SearchState σ φ) : Aside s (s.printStats plan) :=
  s.aside_elapsed.trans (aside_print plan _ _)

theorem aside_reportBest {plan : SearchPlan} {s t : SearchState σ φ}
    (h : s.reportBest plan = .ok t) : Aside s t := by
  obtain ⟨closed, -, hdone⟩ := bind_eq_ok_iff.mp h
  cases hdone
  exact (s.aside_printStats plan).trans (aside_print plan _ _)

/-! ## One step -/

/-- The record is the first one or verified, and the source has come from the first one. -/
structure Sound [RandomSource σ] (plan : SearchPlan) (source : σ) (s : SearchState σ φ) : Prop where
  drawn : Drawn source s.source
  best : s.best = .initial plan.config ∨ s.best.Verified plan.dataset plan.config

section

variable [RandomSource σ] {plan : SearchPlan} {source : σ} {s : SearchState σ φ}

/-- The next candidate is ready, whether it was grown or comes from the template. -/
theorem nextCandidate_sound
    (hd : NumericDraws source plan.config.paramValueMin plan.config.paramValueMax)
    (ht : ∀ c, plan.template = some c → c.Ready) (hs : s.Sound plan source) :
    (s.nextCandidate plan).2.Sound plan source ∧
      ∀ c, (s.nextCandidate plan).1 = .ok c → c.Ready := by
  rw [nextCandidate]
  split
  · rename_i template htemplate
    have hready := ht template htemplate
    split
    · -- a template tried before starts from new values
      refine ⟨⟨hs.drawn.uniforms _ _ _, hs.best⟩, ?_⟩
      rintro c ⟨⟩
      refine ⟨(Params.names_withValues _ _).trans hready.wellNamed, fun v hv => ?_⟩
      have hlength := length_uniforms plan.config.paramValueMin plan.config.paramValueMax
        template.params.size s.source
      rw [show template.paramCount = template.params.size from rfl,
        Params.values_withValues hlength] at hv
      exact hd.uniforms hs.drawn _ v hv
    · refine ⟨⟨hs.drawn, hs.best⟩, ?_⟩
      rintro c ⟨⟩
      exact hready
  · obtain ⟨hdrawn, hnumeric⟩ := grows_generate hd hs.drawn
    dsimp only
    split
    · exact ⟨⟨hdrawn, hs.best⟩, nofun⟩
    · rename_i simplified hsimplified
      refine ⟨⟨hdrawn, hs.best⟩, ?_⟩
      rintro c ⟨⟩
      obtain ⟨hnames, hvalues⟩ := Candidate.simplify_wellNamed hsimplified
      exact ⟨hnames, hvalues hnumeric⟩

/-- Comparing a candidate as its fit has left it keeps the record verified. -/
theorem compare_sound {c : Candidate} {params : Params} {r : FitResult} (hc : c.Ready)
    (hcount : (c.paramCount : Int) ≤ plan.config.maxParams)
    (hfit : Fitted plan.config plan.dataset c params r) (hs : s.Sound plan source) :
    (s.compare plan ⟨c.expression, params⟩ r).2.Sound plan source := by
  rw [compare]
  split
  · exact ⟨hs.drawn, hs.best⟩
  · split
    · rename_i hle
      have hthreshold : r.residue ≤ plan.config.residueThreshold := by
        rcases hs.best with hinitial | hverified
        · rwa [hinitial] at hle
        · exact Double.le_trans hle hverified.le_threshold
      -- the candidate is stored with the parameters that its fit has left
      have hbest : Best.Verified plan.dataset plan.config
          ⟨⟨c.expression, params⟩, r.residue, r.iterations⟩ :=
        { isFinite := hfit.isFinite
          le_threshold := hthreshold
          residual_eq := hfit.residual_eq
          within := hfit.within
          wellNamed := hfit.names_eq.trans hc.wellNamed
          nonempty := hfit.nonempty
          paramCount_le := by
            rw [Candidate.paramCount, hfit.size_eq]
            exact hcount
          iterations_le := hfit.iterations_le }
      dsimp only
      split
      · rename_i t ht
        have haside := aside_reportBest ht
        exact ⟨haside.source_eq ▸ hs.drawn, .inr (haside.best_eq ▸ hbest)⟩
      · exact ⟨hs.drawn, .inr hbest⟩
    · exact ⟨hs.drawn, hs.best⟩

end

end SearchState

/-! ## Any number of steps -/

namespace SearchState

variable {σ : Type} [RandomSource σ] {plan : SearchPlan} {source : σ}
  {s : SearchState σ Optimizer}

theorem fitAndCompare_sound {c : Candidate} (hc : c.Ready)
    (hcount : (c.paramCount : Int) ≤ plan.config.maxParams)
    (hs : s.Sound plan source) : (s.fitAndCompare plan c).2.Sound plan source := by
  rw [fitAndCompare]
  dsimp only [Fitter.attempt]
  split
  · exact ⟨hs.drawn, hs.best⟩
  · exact ⟨hs.drawn, hs.best⟩
  · exact ⟨hs.drawn, hs.best⟩
  · rename_i r hr
    exact compare_sound hc hcount (fit_fitted hc.numeric hr) ⟨hs.drawn, hs.best⟩

/-- A step keeps the record verified. -/
theorem step_sound
    (hd : NumericDraws source plan.config.paramValueMin plan.config.paramValueMax)
    (ht : ∀ c, plan.template = some c → c.Ready) (hs : s.Sound plan source) : (s.step plan).2.Sound plan source := by
  have haside := s.aside_ensureStarted
  have hstarted : s.ensureStarted.Sound plan source :=
    ⟨haside.source_eq ▸ hs.drawn, haside.best_eq ▸ hs.best⟩
  obtain ⟨hnext, hready⟩ := nextCandidate_sound hd ht hstarted
  rw [step]
  split
  · rename_i e t heq
    rw [heq] at hnext
    exact hnext
  · rename_i c t heq
    rw [heq] at hnext hready
    dsimp only
    split
    · -- a candidate with too many parameters is not fitted
      exact ⟨hnext.drawn, hnext.best⟩
    · exact fitAndCompare_sound (hready c rfl) (by omega) ⟨hnext.drawn, hnext.best⟩

/-- The state after some steps, whatever became of each. -/
def after (plan : SearchPlan) (s : SearchState σ Optimizer) : Nat → SearchState σ Optimizer
  | 0 => s
  | n + 1 => ((after plan s n).step plan).2

/-- Steps keep the record verified. -/
theorem after_sound
    (hd : NumericDraws source plan.config.paramValueMin plan.config.paramValueMax)
    (ht : ∀ c, plan.template = some c → c.Ready) (hs : s.Sound plan source) (n : Nat) :
    (after plan s n).Sound plan source := by
  induction n with
  | zero => exact hs
  | succ n ih => exact step_sound hd ht ih

theorem start_sound (plan : SearchPlan) (source : σ) (clock : Clock) (symbolic : Symbolic) :
    (start plan source Optimizer.mk clock symbolic).Sound plan source := ⟨.start, .inl rfl⟩

/-- After any number of steps of a search that was planned, its best record is the first one or verified.
The draws from the parameter domain have to be numbers. -/
theorem best_after_steps {dataset : Dataset} {config : Config} {plan : SearchPlan} {source : σ}
    {clock : Clock} {symbolic : Symbolic} {n : Nat} (hplan : SearchPlan.make dataset config = .ok plan)
    (hdraws : NumericDraws source config.paramValueMin config.paramValueMax) :
    (after plan (start plan source ⟨⟩ clock symbolic) n).best = .initial config ∨
      (after plan (start plan source ⟨⟩ clock symbolic) n).best.Verified dataset config := by
  obtain ⟨rfl, rfl, htemplate⟩ := SearchPlan.make_ready hplan
  exact (after_sound hdraws htemplate (start_sound plan source clock symbolic) n).best

theorem drawn_nil {s : ScriptedDraws} (h : Drawn (.ofList []) s) : s = .ofList [] := by
  induction h with
  | start => rfl
  | unit _ ih => rw [ih]; rfl
  | bounded _ _ ih => rw [ih]; rfl

/-- The template `a`, fitted in one step to a single sample by each of the algorithms. -/
theorem best_after_template :
    let dataset : Dataset := ⟨[0.0], [0.0], none, rfl, by decide⟩
    let settings : Settings :=
      { paramValueMin := -1.0, paramValueMax := 1.0, minStep := 0.25, initialStepFraction := 0.5,
        template := some "a" }
    let pattern : Config := ⟨settings, by decide +kernel⟩
    let simplex : Config := ⟨{ settings with fitAlgorithm := "nelder_mead" }, by decide +kernel⟩
    let plan (config : Config) : SearchPlan :=
      ⟨dataset, config, some ⟨.parameter "a", Params.empty.insert "a" 0.0⟩⟩
    let best (config : Config) : Best :=
      (after (plan config) (start (plan config) (ScriptedDraws.ofList []) ⟨⟩ (.withStep 0.0)) 1).best
    (best pattern).Verified dataset pattern ∧
      (best simplex = .initial simplex ∨ (best simplex).Verified dataset simplex) := by
  intro dataset settings pattern simplex plan best
  have hdraws : NumericDraws (ScriptedDraws.ofList []) (-1.0) 1.0 := by
    intro s hs
    rw [drawn_nil hs]
    decide +kernel
  constructor
  · have hplan : SearchPlan.make dataset pattern = .ok (plan pattern) := by
      dsimp only [dataset, settings, pattern, plan]
      rfl
    refine (best_after_steps hplan hdraws).resolve_left fun hinitial => ?_
    exact absurd (congrArg Best.iterations hinitial) (by decide +kernel)
  · have hplan : SearchPlan.make dataset simplex = .ok (plan simplex) := by
      dsimp only [dataset, settings, simplex, plan]
      rfl
    exact best_after_steps hplan hdraws

end SearchState

end FormulaSearch
