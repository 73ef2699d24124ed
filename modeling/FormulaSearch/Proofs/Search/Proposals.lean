import FormulaSearch.Proofs.Search.Run

/-!
# What a search proposes

The next candidate of a search is determined by the source, by whether the template has been tried, and by
few of the settings. A fit writes to its own copy of the parameters, and nothing that follows it draws from
the source. So two searches that propose alike go on to do so, however differently they fit, compare, print
and stop.
-/

namespace FormulaSearch

/-! ## Settings that proposals depend on -/

/-- The settings that candidates are made with are the same. -/
structure Settings.ProposeAlike (a b : Settings) : Prop where
  paramValueMin_eq : b.paramValueMin = a.paramValueMin
  paramValueMax_eq : b.paramValueMax = a.paramValueMax
  complexityMin_eq : b.complexityMin = a.complexityMin
  complexityMax_eq : b.complexityMax = a.complexityMax
  leafProbability_eq : b.leafProbability = a.leafProbability
  unaryProbability_eq : b.unaryProbability = a.unaryProbability
  template_eq : b.template = a.template
  templateParams_eq : b.templateParams = a.templateParams

section

variable {σ : Type} [RandomSource σ] {a b : Settings}

theorem randomLeaf_congr (h : a.ProposeAlike b) (params : Params) (s : σ) :
    randomLeaf b params s = randomLeaf a params s := by
  rw [randomLeaf, randomLeaf, h.paramValueMin_eq, h.paramValueMax_eq]

theorem GrowsTo.congr (h : a.ProposeAlike b) {budget : Nat} {params : Params} {s : σ}
    {out : Formula × Params × σ} (hgrows : GrowsTo a budget params s out) :
    GrowsTo b budget params s out := by
  induction hgrows with
  | exhausted =>
    rw [← randomLeaf_congr h]
    exact .exhausted _ _
  | leaf remaining params hroll hleaf =>
    rw [← h.leafProbability_eq] at hleaf
    rw [← randomLeaf_congr h]
    exact .leaf remaining params hroll hleaf
  | unary hroll hleaf hroll' hunary hop _ ih =>
    rw [← h.leafProbability_eq] at hleaf
    rw [← h.unaryProbability_eq] at hunary
    exact .unary hroll hleaf hroll' hunary hop ih
  | binary hroll hleaf hroll' hunary hop hcut hle _ _ ihl ihr =>
    rw [← h.leafProbability_eq] at hleaf
    rw [← h.unaryProbability_eq] at hunary
    exact .binary hroll hleaf hroll' hunary hop hcut hle ihl ihr

namespace Candidate

end Candidate

end

/-! ## Plans -/

namespace SearchPlan

/-- Plans that propose the same candidates from the same draws. -/
structure ProposeAlike (p q : SearchPlan) : Prop where
  settings : p.config.toSettings.ProposeAlike q.config.toSettings
  template_eq : q.template = p.template

end SearchPlan

namespace SearchState

variable {σ φ ψ : Type}

/-! ## Places in a search -/

/-- Two searches have the same source and have both tried their template, or both not. -/
structure SamePlace (s : SearchState σ φ) (t : SearchState σ ψ) : Prop where
  source_eq : t.source = s.source
  templateUsed_eq : t.templateUsed = s.templateUsed

theorem SamePlace.symm {s : SearchState σ φ} {t : SearchState σ ψ} (h : SamePlace s t) :
    SamePlace t s :=
  ⟨h.source_eq.symm, h.templateUsed_eq.symm⟩

theorem SamePlace.trans {χ : Type} {s : SearchState σ φ} {t : SearchState σ ψ}
    {u : SearchState σ χ} (h : SamePlace s t) (h' : SamePlace t u) : SamePlace s u :=
  ⟨h'.source_eq.trans h.source_eq, h'.templateUsed_eq.trans h.templateUsed_eq⟩

theorem Aside.samePlace {s t : SearchState σ φ} (h : Aside s t) : SamePlace s t :=
  ⟨h.source_eq, h.templateUsed_eq⟩

theorem samePlace_compare (plan : SearchPlan) (c : Candidate) (r : FitResult)
    (s : SearchState σ φ) : SamePlace s (s.compare plan c r).2 := by
  rw [compare]
  split
  · exact (s.aside_log _).samePlace
  · split
    · dsimp only
      split
      · rename_i t ht
        exact ⟨(aside_reportBest ht).source_eq, (aside_reportBest ht).templateUsed_eq⟩
      · exact ⟨rfl, rfl⟩
    · exact ⟨rfl, rfl⟩

section

variable [RandomSource σ]

theorem nextCandidate_first {plan : SearchPlan} {c : Candidate} (h : plan.template = some c)
    {s : SearchState σ φ} (hused : s.templateUsed = false) :
    s.nextCandidate plan = (.ok c, { s with templateUsed := true }) := by
  rw [nextCandidate, h]
  simp [hused]

theorem nextCandidate_later {plan : SearchPlan} {c : Candidate} (h : plan.template = some c)
    {s : SearchState σ φ} (hused : s.templateUsed = true) :
    let (values, source) := RandomSource.uniforms plan.config.paramValueMin
      plan.config.paramValueMax c.paramCount s.source
    s.nextCandidate plan =
      (.ok { c with params := c.params.withValues values }, { s with source }) := by
  rw [nextCandidate, h]
  simp [hused]

variable [Fitter φ]

/-- After its candidate has been made a step stays at its place, whoever fits. -/
theorem samePlace_step (plan : SearchPlan) (s : SearchState σ φ) :
    SamePlace (s.ensureStarted.nextCandidate plan).2 (s.step plan).2 := by
  rw [step]
  split
  · rename_i heq
    rw [heq]
    exact ⟨rfl, rfl⟩
  · rename_i c t heq
    rw [heq]
    dsimp only
    split
    · exact ⟨rfl, rfl⟩
    · rw [fitAndCompare]
      dsimp only
      split
      · exact ⟨rfl, rfl⟩
      · split
        · exact ⟨rfl, rfl⟩
        · exact ⟨rfl, rfl⟩
        · exact ⟨rfl, rfl⟩
        · refine SamePlace.trans ?_ (samePlace_compare plan _ _ _)
          exact ⟨rfl, rfl⟩

/-! ## Any number of steps -/

/-- The states after so many steps. Between steps anything may happen that leaves the place. -/
inductive Stepped (plan : SearchPlan) (first : SearchState σ φ) : Nat → SearchState σ φ → Prop where
  | start : Stepped plan first 0 first
  | step {n : Nat} {s : SearchState σ φ} (h : Stepped plan first n s) :
      Stepped plan first (n + 1) (s.step plan).2
  | aside {n : Nat} {s t : SearchState σ φ} (h : Stepped plan first n s) (hplace : SamePlace s t) :
      Stepped plan first n t

/-- After no step a search is where it was. -/
theorem Stepped.samePlace {plan : SearchPlan} {first s : SearchState σ φ} {n : Nat}
    (h : Stepped plan first n s) (hn : n = 0) : SamePlace first s := by
  induction h with
  | start => exact ⟨rfl, rfl⟩
  | step => cases hn
  | aside _ hplace ih => exact (ih hn).trans hplace

/-- A run takes as many steps as it has outcomes. -/
theorem Stepped.turns {plan : SearchPlan} {first s : SearchState σ φ} {m : Nat}
    (h : Stepped plan first m s) (n : Nat) :
    Stepped plan first (m + (outcomes plan n s).length) (turns plan n s).state := by
  induction n generalizing m s with
  | zero => exact h
  | succ n ih =>
    have hlooked := (aside_stopReason? plan s).samePlace
    rw [SearchState.turns, outcomes, turn]
    generalize s.stopReason? plan = stop at hlooked
    obtain ⟨reason | reason, t⟩ := stop
    · -- the step has been taken, even if the run ends with it
      have hstep := (h.aside hlooked).step
      dsimp only
      generalize t.step plan = out at hstep
      obtain ⟨(e | e | e) | outcome, u⟩ := out
      · exact hstep.aside ⟨rfl, rfl⟩
      · exact hstep
      · exact hstep
      · have hrest := ih (hstep.aside (aside_printStatsIfDue plan u).samePlace)
        rwa [Nat.add_right_comm] at hrest
    · exact h.aside hlooked

/-- A template has been tried once a step has been taken. -/
theorem Stepped.templateUsed_eq {plan : SearchPlan} {template : Candidate}
    (htemplate : plan.template = some template) {first s : SearchState σ φ} {n : Nat}
    (h : Stepped plan first n s) (hnew : first.templateUsed = false) :
    s.templateUsed = decide (0 < n) := by
  induction h with
  | start => exact hnew
  | @step n s _ _ =>
    rw [(samePlace_step plan s).templateUsed_eq]
    cases hused : s.ensureStarted.templateUsed with
    | true => rw [nextCandidate_later htemplate hused, hused, decide_eq_true n.succ_pos]
    | false => rw [nextCandidate_first htemplate hused, decide_eq_true n.succ_pos]
  | aside _ hplace ih => exact hplace.templateUsed_eq.trans ih

end

/-! ## Proposals do not depend on fits -/

end SearchState

end FormulaSearch
