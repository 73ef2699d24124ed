import FormulaSearch.Proofs.Search.Step
import FormulaSearch.Search.Run

/-!
# What a run comes to

A turn looks whether to stop, then takes a step and perhaps prints progress. So the record at the end of a
run is finite if it was at the start or if a step has announced a new best record. A finite threshold makes
it finite from the start, so such a run reports that something was found even if nothing was.
-/

namespace FormulaSearch

/-- The state that a run has come to, wherever it stands. -/
def Progress.state {σ φ : Type} : Progress σ φ → SearchState σ φ
  | running s | stopped _ s | failed _ s => s

namespace SearchState

variable {σ φ : Type} {plan : SearchPlan}

/-! ## What has no part in a run -/

theorem aside_stopReason? (plan : SearchPlan) (s : SearchState σ φ) :
    Aside s (s.stopReason? plan).2 := by
  rw [stopReason?]
  split
  · exact .refl s
  · split
    · exact .refl s
    · split
      · exact .refl s
      · exact s.aside_elapsed

theorem aside_printStatsIfDue (plan : SearchPlan) (s : SearchState σ φ) :
    Aside s (s.printStatsIfDue plan) := by
  rw [printStatsIfDue]
  split
  · exact .refl s
  · dsimp only
    split
    · have hread : Aside s { s.readClock.2 with lastStatsAt := s.readClock.1 } :=
        ⟨rfl, rfl, rfl, rfl, rfl, rfl, rfl⟩
      exact hread.trans (aside_printStats plan _)
    · exact s.aside_readClock

theorem aside_beginRun (plan : SearchPlan) (s : SearchState σ φ) : Aside s (s.beginRun plan) := by
  rw [beginRun]
  have hstarted := s.aside_ensureStarted
  generalize s.ensureStarted = t at hstarted
  have hmarked : Aside t { t with lastStatsAt := t.startedAt.getD 0.0 } :=
    ⟨rfl, rfl, rfl, rfl, rfl, rfl, rfl⟩
  split
  · exact (hstarted.trans hmarked).trans (aside_print plan _ _)
  · exact ((hstarted.trans hmarked).trans (aside_log _ _)).trans (aside_print plan _ _)

theorem kept_beginRun (plan : SearchPlan) (s : SearchState σ φ) : Kept s (s.beginRun plan) :=
  (aside_beginRun plan s).kept

theorem aside_endRun (reason : StopReason) (s : SearchState σ φ) : Aside s (s.endRun reason).2 :=
  (aside_log _ s).trans (aside_elapsed _)

theorem kept_endRun (reason : StopReason) (s : SearchState σ φ) : Kept s (s.endRun reason).2 :=
  (s.aside_endRun reason).kept

/-- A run comes to its last record. -/
theorem best_endRun (reason : StopReason) (s : SearchState σ φ) :
    (s.endRun reason).1.best = s.best :=
  (s.kept_endRun reason).best_eq

section

variable [RandomSource σ] [Fitter φ]

/-- What a turn does: it stops, or it takes a step from a state that is as good. -/
inductive Turned (plan : SearchPlan) (s : SearchState σ φ) : Progress σ φ → Prop where
  | stopped {reason : StopReason} {t : SearchState σ φ}
      (hstop : s.stopReason? plan = (some reason, t)) (hkept : Kept s t) :
      Turned plan s (.stopped reason t)
  | stepped {t u : SearchState σ φ} {outcome : StepOutcome}
      (hstop : s.stopReason? plan = (none, t)) (hkept : Kept s t)
      (hstep : (t.step plan).1 = .ok outcome) (hkept' : Kept (t.step plan).2 u) :
      Turned plan s (.running u)
  | interrupted {t u : SearchState σ φ} (hstop : s.stopReason? plan = (none, t)) (hkept : Kept s t)
      (hstep : (t.step plan).1 = .error .interrupted) (hkept' : Kept (t.step plan).2 u) :
      Turned plan s (.stopped .interrupted u)
  | failed {e : RunFailure} {t u : SearchState σ φ} (hkept : Kept s t)
      (hkept' : Kept (t.step plan).2 u) : Turned plan s (.failed e u)

theorem turned_turn (plan : SearchPlan) (s : SearchState σ φ) : Turned plan s (s.turn plan) := by
  have hkept := (aside_stopReason? plan s).kept
  rw [turn]
  split
  · rename_i reason t hstop
    exact .stopped hstop (by rwa [hstop] at hkept)
  · rename_i t hstop
    rw [hstop] at hkept
    split
    · rename_i outcome u hstep
      refine .stepped hstop hkept (by rw [hstep]) ?_
      rw [hstep]
      exact (aside_printStatsIfDue plan u).kept
    · rename_i u hstep
      refine .interrupted hstop hkept (by rw [hstep]) ?_
      rw [hstep]
      exact (aside_log _ u).kept
    · rename_i e u hstep
      exact .failed hkept (by rw [hstep]; exact ⟨rfl, rfl, rfl, rfl⟩)
    · rename_i e u hstep
      exact .failed hkept (by rw [hstep]; exact ⟨rfl, rfl, rfl, rfl⟩)

/-- What the steps of a run come to, in order. -/
def outcomes (plan : SearchPlan) : Nat → SearchState σ φ → List (Except StepFailure StepOutcome)
  | 0, _ => []
  | n + 1, s =>
    match s.stopReason? plan with
    | (some _, _) => []
    | (none, t) =>
      (t.step plan).1 ::
        match s.turn plan with
        | .running u => outcomes plan n u
        | .stopped _ _ | .failed _ _ => []

/-- A step announces a new best record, which is finite, or leaves the record, or has no closed text for
it. -/
theorem best_of_outcome (hp : plan.WellNamed) (s : SearchState σ φ) :
    ((s.step plan).1 = .ok .newBest ∧ (s.step plan).2.best.residue.isFinite = true) ∨
      ((s.step plan).1 ≠ .ok .newBest ∧ (s.step plan).2.best = s.best) ∨
      ∃ e, (s.step plan).1 = .error (.missing e) := by
  rcases step_cases hp s with ⟨-, hne, hadvanced⟩ | ⟨t, u, -, hadvanced, hcompared⟩
  · exact .inr (.inl ⟨hne, hadvanced.best_eq⟩)
  · rw [← hadvanced.best_eq]
    generalize s.step plan = out at hcompared
    cases hcompared with
    | dropped _ hne hkept => exact .inr (.inl ⟨by simpa using hne, hkept.best_eq⟩)
    | stored haccepted _ hkept _ =>
      refine .inl ⟨rfl, ?_⟩
      rw [hkept.best_eq]
      exact haccepted.1
    | unclosed _ _ _ => exact .inr (.inr ⟨_, rfl⟩)

/-- At the end of a run the record is finite if it was before or if a step has announced it. -/
theorem isFinite_of_turns (hp : plan.WellNamed) {n : Nat} {s t : SearchState σ φ}
    {reason : StopReason} (h : turns plan n s = .stopped reason t) :
    t.best.residue.isFinite = true ↔
      s.best.residue.isFinite = true ∨ .ok .newBest ∈ outcomes plan n s := by
  induction n generalizing s with
  | zero => cases h
  | succ n ih =>
    have hturn := turned_turn plan s
    rw [turns] at h
    rw [outcomes]
    generalize s.turn plan = progress at h hturn
    cases hturn with
    | stopped hstop hkept =>
      cases h
      rw [hstop, hkept.best_eq]
      simp
    | @stepped u v outcome hstop hkept hstep hkept' =>
      rw [hstop, ih h, hkept'.best_eq, List.mem_cons, ← or_assoc]
      refine or_congr_left ?_
      rcases best_of_outcome hp u with ⟨hnew, hfinite⟩ | ⟨hne, hsame⟩ | ⟨e, he⟩
      · simp [hnew, hfinite]
      · simp [hsame, hkept.best_eq, hne.symm]
      · rw [hstep] at he
        cases he
    | @interrupted u v hstop hkept hstep hkept' =>
      cases h
      rw [hstop, hkept'.best_eq]
      rcases best_of_outcome hp u with ⟨hnew, -⟩ | ⟨-, hsame⟩ | ⟨e, he⟩
      · rw [hstep] at hnew
        cases hnew
      · simp [hsame, hkept.best_eq, hstep]
      · rw [hstep] at he
        cases he
    | failed _ _ => cases h

/-- A run of a new search that stops reports that something was found exactly if the threshold is finite or
a step has announced a new best record. -/
theorem found_iff {dataset : Dataset} {config : Config}
    (hplan : SearchPlan.make dataset config = .ok plan) {source : σ} {fitter : φ} {clock : Clock}
    {symbolic : Symbolic} {n : Nat} {reason : StopReason} {s : SearchState σ φ}
    (hrun : turns plan n ((start plan source fitter clock symbolic).beginRun plan) =
      .stopped reason s) :
    (s.endRun reason).1.found = true ↔ config.residueThreshold.isFinite = true ∨
      .ok .newBest ∈ outcomes plan n ((start plan source fitter clock symbolic).beginRun plan) := by
  have hp := SearchPlan.wellNamed_of_make hplan
  obtain ⟨-, rfl, -⟩ := SearchPlan.make_ready hplan
  have hfirst := (kept_beginRun plan (start plan source fitter clock symbolic)).best_eq
  rw [SearchResult.found, best_endRun, isFinite_of_turns hp hrun, hfirst]
  rfl

/-- Without a threshold a fit is something found. -/
theorem found_after_best :
    let dataset : Dataset := ⟨[0.0], [5.0], none, rfl, by decide⟩
    let config : Config :=
      ⟨{ template := some "a", maxGenerated := some 1, statsInterval := 0.0 }, by decide +kernel⟩
    let plan : SearchPlan :=
      ⟨dataset, config, some ⟨.parameter "a", Params.empty.insert "a" 0.0⟩⟩
    let fits : ScriptedFits := ⟨[.result ⟨3.0, 4⟩]⟩
    let first := (start plan (ScriptedDraws.ofList [0.5]) fits (.withStep 0.0)).beginRun plan
    SearchPlan.make dataset config = .ok plan ∧
      ∃ s, turns plan 2 first = .stopped .maxGenerated s ∧
        (s.endRun .maxGenerated).1.found = true ∧ .ok .newBest ∈ outcomes plan 2 first := by
  intro dataset config plan fits first
  have hplan : SearchPlan.make dataset config = .ok plan := by
    dsimp only [dataset, config, plan]
    rfl
  have hstopped : (match turns plan 2 first with
      | .stopped .maxGenerated s => (s.endRun .maxGenerated).1.found
      | _ => false) = true := by decide +kernel
  have hthreshold : ¬ config.residueThreshold.isFinite = true := by decide +kernel
  refine ⟨hplan, ?_⟩
  split at hstopped
  · rename_i s hrun
    exact ⟨s, hrun, hstopped, ((found_iff hplan hrun).mp hstopped).resolve_left hthreshold⟩
  · cases hstopped

/-- The template `a` within the unit interval cannot come near a sample of five: its only fit is over the
threshold of one. The threshold itself is taken for something found. -/
theorem found_without_best :
    let dataset : Dataset := ⟨[0.0], [5.0], none, rfl, by decide⟩
    let config : Config :=
      ⟨{ paramValueMin := -1.0, paramValueMax := 1.0, minStep := 0.25, initialStepFraction := 0.5,
          template := some "a", residueThreshold := 1.0, maxGenerated := some 1,
          statsInterval := 0.0 }, by decide +kernel⟩
    let plan : SearchPlan :=
      ⟨dataset, config, some ⟨.parameter "a", Params.empty.insert "a" 0.0⟩⟩
    let first := (start plan (ScriptedDraws.ofList [0.5]) Optimizer.mk (.withStep 0.0)).beginRun plan
    SearchPlan.make dataset config = .ok plan ∧
      ∃ s, turns plan 2 first = .stopped .maxGenerated s ∧
        (s.endRun .maxGenerated).1.found = true ∧ .ok .newBest ∉ outcomes plan 2 first := by
  intro dataset config plan first
  have hplan : SearchPlan.make dataset config = .ok plan := by
    dsimp only [dataset, config, plan]
    rfl
  have hstopped : (match turns plan 2 first with
      | .stopped .maxGenerated s => (s.endRun .maxGenerated).1.found
      | _ => false) = true := by decide +kernel
  have houtcomes : (outcomes plan 2 first).map Except.toOption = [some .notBetter] := by
    decide +kernel
  refine ⟨hplan, ?_⟩
  split at hstopped
  · rename_i s hrun
    refine ⟨s, hrun, hstopped, fun hnew => ?_⟩
    have := List.mem_map_of_mem (f := Except.toOption) hnew
    rw [houtcomes] at this
    simp [Except.toOption] at this
  · cases hstopped

end

end SearchState

end FormulaSearch
