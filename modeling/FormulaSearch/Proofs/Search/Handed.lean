import FormulaSearch.Proofs.Search.Run

/-!
# What a search hands to its fitter

A step hands its candidate to the fitter unless the candidate has too many parameters. Only the fits of the
candidates that are handed over matter: two fitters that agree on them make the same run. So a search never
finds out how a larger candidate would be fitted.
-/

namespace FormulaSearch

namespace SearchState

variable {σ φ : Type} [RandomSource σ] {plan : SearchPlan}

/-! ## Handed candidates -/

/-- The candidate that the next step hands to the fitter, if it does. -/
def handed? (plan : SearchPlan) (s : SearchState σ φ) : Option Candidate :=
  match s.ensureStarted.nextCandidate plan with
  | (.error _, _) => none
  | (.ok c, _) => if plan.config.maxParams < c.paramCount then none else some c

/-- The candidate that the next turn hands to the fitter, if it does not stop. -/
def handedByTurn? (plan : SearchPlan) (s : SearchState σ φ) : Option Candidate :=
  match s.stopReason? plan with
  | (some _, _) => none
  | (none, t) => t.handed? plan

theorem paramCount_le_of_handed? {s : SearchState σ φ} {c : Candidate} (h : s.handed? plan = some c) :
    (c.paramCount : Int) ≤ plan.config.maxParams := by
  rw [handed?] at h
  split at h
  · cases h
  · split at h
    · cases h
    · cases h
      omega

theorem paramCount_le_of_handedByTurn? {s : SearchState σ φ} {c : Candidate}
    (h : s.handedByTurn? plan = some c) : (c.paramCount : Int) ≤ plan.config.maxParams := by
  rw [handedByTurn?] at h
  split at h
  · cases h
  · exact paramCount_le_of_handed? h

/-! ## Fitters that agree -/

/-- Two fitters fit a candidate alike. -/
def FitAlike (plan : SearchPlan) (F G : Fitter φ) (c : Candidate) : Prop :=
  ∀ f, F.attempt plan.config plan.dataset c f = G.attempt plan.config plan.dataset c f

/-- What a step does depends on the fitter at the candidate that is handed over only. -/
theorem step_eq_of_fitAlike {F G : Fitter φ} {s : SearchState σ φ}
    (h : ∀ c, s.handed? plan = some c → FitAlike plan F G c) :
    @step σ φ _ F plan s = @step σ φ _ G plan s := by
  rw [handed?] at h
  unfold step
  split
  · rfl
  · rename_i c t heq
    rw [heq] at h
    dsimp only at h ⊢
    split
    · rfl
    · rename_i hsmall
      have halike := h c (if_neg hsmall)
      unfold fitAndCompare
      rw [halike]

theorem turn_eq_of_fitAlike {F G : Fitter φ} {s : SearchState σ φ}
    (h : ∀ c, s.handedByTurn? plan = some c → FitAlike plan F G c) :
    @turn σ φ _ F plan s = @turn σ φ _ G plan s := by
  rw [handedByTurn?] at h
  unfold turn
  split
  · rfl
  · rename_i t heq
    rw [heq] at h
    rw [step_eq_of_fitAlike h]

/-- Two fitters that fit alike whatever has few enough parameters make the same run. -/
theorem turns_eq_of_fitAlike {F G : Fitter φ}
    (h : ∀ c : Candidate, (c.paramCount : Int) ≤ plan.config.maxParams → FitAlike plan F G c) (n : Nat)
    (s : SearchState σ φ) : @turns σ φ _ F plan n s = @turns σ φ _ G plan n s := by
  induction n generalizing s with
  | zero => rfl
  | succ n ih =>
    unfold turns
    rw [turn_eq_of_fitAlike fun c hc => h c (paramCount_le_of_handedByTurn? hc)]
    split
    · exact ih _
    · rfl

end SearchState

end FormulaSearch
