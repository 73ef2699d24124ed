import FormulaSearch.Proofs.IterationCap
import FormulaSearch.Proofs.Search.Stops

/-!
# What the rules for settings guarantee

Settings are accepted if and only if they obey the rules, where a least step, a limit of time and an
interval that are no numbers obey any rule. If they are numbers, a pattern search that succeeds has come
below a positive step, and a search with a limit of time stops once so much time has passed.
-/

namespace FormulaSearch

open Fit

/-! ## Accepted settings -/

namespace Settings

/-- The rules for settings. Of the least step, the limit of time and the interval for lines on progress some
values may be exempt. -/
structure Obeys (s : Settings) (exempt : Float → Prop) : Prop where
  domain : s.paramValueMin < s.paramValueMax
  bounds : s.paramValueMin.isFinite = true ∧ s.paramValueMax.isFinite = true
  minStep : exempt s.minStep ∨ 0.0 < s.minStep
  iterations : 1 ≤ s.fitMaxIters
  stepFraction : 0.0 < s.initialStepFraction ∧ s.initialStepFraction ≤ 1.0
  maxParams : 0 ≤ s.maxParams
  complexity : 0 ≤ s.complexityMin ∧ s.complexityMin ≤ s.complexityMax
  leafProbability : 0.0 ≤ s.leafProbability ∧ s.leafProbability ≤ 1.0
  unaryProbability : 0.0 ≤ s.unaryProbability ∧ s.unaryProbability ≤ 1.0
  maxGenerated : ∀ n ∈ s.maxGenerated, 0 ≤ n
  maxFitted : ∀ n ∈ s.maxFitted, 0 ≤ n
  maxDuration : ∀ t ∈ s.maxDuration, exempt t ∨ 0.0 ≤ t
  statsInterval : exempt s.statsInterval ∨ 0.0 ≤ s.statsInterval

/-- The three values that are only rejected on one side are numbers. -/
structure Ordered (s : Settings) : Prop where
  minStep : s.minStep.isNaN = false
  maxDuration : ∀ t ∈ s.maxDuration, t.isNaN = false
  statsInterval : s.statsInterval.isNaN = false

end Settings

theorem Double.not_le_iff {a b : Float} (hb : b.isNaN = false) :
    ¬ a ≤ b ↔ a.isNaN = true ∨ b < a := by
  constructor
  · intro h
    cases ha : a.isNaN with
    | true => exact .inl rfl
    | false => exact .inr (lt_of_not_le ha hb h)
  · rintro (ha | hlt) hle
    · rw [(not_isNaN_of_le hle).1] at ha
      cases ha
    · exact not_le_of_lt hlt hle

theorem Double.not_lt_iff {a b : Float} (hb : b.isNaN = false) :
    ¬ a < b ↔ a.isNaN = true ∨ b ≤ a := by
  constructor
  · intro h
    cases ha : a.isNaN with
    | true => exact .inl rfl
    | false => exact .inr (le_of_not_lt ha hb h)
  · rintro (ha | hle) hlt
    · rw [(not_isNaN_of_le (le_of_lt hlt)).1] at ha
      cases ha
    · exact not_le_of_lt hlt hle

namespace Settings

theorem error?_eq_none_iff_checks {s : Settings} :
    s.error? = none ↔ ∀ c ∈ s.checks, c.1 = false := by
  rw [error?, Option.map_eq_none_iff, List.find?_eq_none]
  simp only [Bool.not_eq_true]

theorem isNegative_eq_false_iff {limit : Option Int} :
    isNegative limit = false ↔ ∀ n ∈ limit, 0 ≤ n := by
  cases limit <;> simp [isNegative]

theorem any_lt_zero_eq_false_iff {limit : Option Float} :
    limit.any (· < 0.0) = false ↔ ∀ t ∈ limit, t.isNaN = true ∨ 0.0 ≤ t := by
  cases limit with
  | none => simp
  | some t => simpa using Double.not_lt_iff (a := t) (b := 0.0) (by decide)

/-- The rules that are checked reject no value that is no number where they reject only on one side. -/
theorem error?_eq_none_iff {s : Settings} : s.error? = none ↔ s.Obeys (·.isNaN = true) := by
  have hzero : (0.0 : Float).isNaN = false := by decide
  rw [error?_eq_none_iff_checks, checks]
  simp only [List.forall_mem_cons, List.not_mem_nil, Bool.not_eq_false', Bool.and_eq_true,
    decide_eq_true_eq, decide_eq_false_iff_not, Double.not_le_iff hzero, Double.not_lt_iff hzero,
    isNegative_eq_false_iff, any_lt_zero_eq_false_iff, Int.not_lt, IsEmpty.forall_iff, implies_true,
    and_true]
  constructor
  · rintro ⟨h1, h2, h3, h4, h5, h6, h7, h8, h9, h10, h11, h12, h13⟩
    exact ⟨h1, h2, h3, h4, h5, h6, h7, h8, h9, h10, h11, h12, h13⟩
  · rintro ⟨h1, h2, h3, h4, h5, h6, h7, h8, h9, h10, h11, h12, h13⟩
    exact ⟨h1, h2, h3, h4, h5, h6, h7, h8, h9, h10, h11, h12, h13⟩

/-- Without exemptions the rules are those that are checked, and the three values are numbers. -/
theorem obeys_iff {s : Settings} :
    s.Obeys (fun _ => False) ↔ s.error? = none ∧ s.Ordered := by
  have hnumber {a b : Float} (hle : a ≤ b) : b.isNaN = false := (Double.not_isNaN_of_le hle).2
  have hpresent {v : Float} {p : Prop} (h : v.isNaN = true ∨ p) (hv : v.isNaN = false) : False ∨ p :=
    h.imp_left (Bool.eq_false_iff.mp hv)
  rw [error?_eq_none_iff]
  constructor
  · intro h
    refine ⟨{ h with minStep := ?_, maxDuration := fun t ht => ?_, statsInterval := ?_ },
      ?_, fun t ht => ?_, ?_⟩
    · exact h.minStep.imp_left False.elim
    · exact (h.maxDuration t ht).imp_left False.elim
    · exact h.statsInterval.imp_left False.elim
    · exact hnumber (Double.le_of_lt (h.minStep.resolve_left id))
    · exact hnumber ((h.maxDuration t ht).resolve_left id)
    · exact hnumber (h.statsInterval.resolve_left id)
  · rintro ⟨h, hordered⟩
    exact { h with
      minStep := hpresent h.minStep hordered.minStep
      maxDuration := fun t ht => hpresent (h.maxDuration t ht) (hordered.maxDuration t ht)
      statsInterval := hpresent h.statsInterval hordered.statsInterval }

end Settings

theorem Config.ofSettings_eq_ok_iff {s : Settings} {config : Config} :
    ofSettings s = .ok config ↔ config.toSettings = s := by
  constructor
  · intro h
    rw [ofSettings] at h
    split at h
    · cases h
      rfl
    · cases h
  · rintro rfl
    exact ofSettings_eq_ok config.accepted

/-! ## The last step -/

namespace Fit.PatternSearch

/-- A step stays a number when it is halved. -/
theorem not_isNaN_rounds {problem : Problem} {minStep : Float} (left done : Nat) {step : Float}
    (h : step.isNaN = false) (w : Walk) :
    (rounds problem minStep done step w left).step.isNaN = false := by
  induction left generalizing done step w with
  | zero => exact h
  | succ left ih =>
    rw [rounds]
    split
    · dsimp only
      split
      · exact ih _ h _
      · exact ih _ (Double.not_isNaN_half h) _
    · exact h

theorem not_isNaN_run (problem : Problem) (minStep : Float) {step : Float}
    (h : step.isNaN = false) (cap : Nat) (start : Point) :
    (run problem minStep step cap start).step.isNaN = false := not_isNaN_rounds cap 0 h _

end Fit.PatternSearch

section

variable {config : Config} {d : Dataset} {c : Candidate} {r : FitResult}

/-- The steps of a pattern search that succeeds have stayed equal. They are less than the least step, which is
positive, unless the least step is no number. -/
theorem steps_of_fitted (h : (Algorithm.patternSearch.fit config d c).result = .ok r) :
    ∃ kind step, ResidualKind.ofName config.residualFunction = .ok kind ∧
      (patternFinish config kind d c).steps = List.replicate c.params.size step ∧
      (0.0 < config.minStep ∧ step < config.minStep ↔ config.minStep.isNaN = false) := by
  obtain ⟨kind, hsize, hk, -, hreport⟩ := patternSearch_eq_of_ok h
  rw [hreport] at h
  obtain ⟨-, hconverged, -⟩ := conclude_eq_ok (result_reportAt_ok_iff.mp h)
  have hfinish := patternFinishWithin_eq config kind d hsize config.fitMaxIters.toNat
  have hends := PatternSearch.run_ends (patternProblem config kind d c) config.minStep
    config.firstStep config.fitMaxIters.toNat
    (c.params.clamp config.paramValueMin config.paramValueMax).values
  have hstep := PatternSearch.not_isNaN_run (patternProblem config kind d c) config.minStep
    config.not_isNaN_firstStep config.fitMaxIters.toNat
    (c.params.clamp config.paramValueMin config.paramValueMax).values
  generalize PatternSearch.run _ _ _ _ _ = finish at hfinish hends hstep
  rw [patternFinish, hfinish] at hconverged
  refine ⟨kind, finish.step, hk, by rw [patternFinish, hfinish]; rfl,
    fun h => (Double.not_isNaN_of_le (Double.le_of_lt h.1)).2, fun hmin => ?_⟩
  have hobeys := Settings.error?_eq_none_iff.mp config.accepted
  rcases hends with ⟨-, hsmall⟩ | ⟨hcut, -⟩
  · exact ⟨hobeys.minStep.resolve_left (Bool.eq_false_iff.mp hmin),
      Double.lt_of_not_le hmin hstep hsmall⟩
  · exact absurd hconverged (Bool.eq_false_iff.mp hcut)

end

/-! ## The limit of time -/

theorem le_infinity {v : Float} (hv : v.isNaN = false) : v ≤ infinity := by
  rw [Double.le_iff_not_before, infinity_unpack]
  refine ⟨hv, by decide, ?_⟩
  rcases v.toModel.unpack with (_ | _) | _ | _ | ⟨_ | _, m, e, hm⟩ <;>
    simp [Double.Before, Double.rank]

section

variable {σ φ : Type} {plan : SearchPlan} {limit : Float}

/-- A limit of time that is a number is not negative, and it stops a search once it has passed. -/
theorem stopReason?_of_elapsed (hlimit : plan.config.maxDuration = some limit)
    (hnumber : limit.isNaN = false) : 0.0 ≤ limit ∧ limit ≤ infinity ∧
      ∀ s : SearchState σ φ, limit ≤ s.elapsed.1 → (s.stopReason? plan).1 ≠ none := by
  have hobeys := Settings.error?_eq_none_iff.mp plan.config.accepted
  refine ⟨(hobeys.maxDuration limit hlimit).resolve_left (Bool.eq_false_iff.mp hnumber),
    le_infinity hnumber, fun s hs hnone => ?_⟩
  rw [SearchState.fst_stopReason?] at hnone
  have hholds := SearchState.not_holds_of_firstReached hnone .maxDuration
  rw [SearchState.holds, hlimit] at hholds
  simp [hs] at hholds

/-- A limit of time that is no number never stops a search. -/
theorem stopReason?_ne_maxDuration (hlimit : plan.config.maxDuration = some limit)
    (hnan : limit.isNaN = true) (s : SearchState σ φ) :
    (s.stopReason? plan).1 ≠ some .maxDuration := by
  intro hreason
  rw [SearchState.fst_stopReason?] at hreason
  have hholds := List.find?_some hreason
  rw [SearchState.holds, hlimit, Option.any_some, decide_eq_true_eq] at hholds
  rw [(Double.not_isNaN_of_le hholds).1] at hnan
  cases hnan

end

/-- Settings are accepted if and only if they obey the rules, but for a least step, a limit of time or an
interval that is no number. Where these are numbers all rules hold; and only for a least step that is a
number does a pattern search that succeeds come below a positive step with its steps, one for each parameter
and all equal. A limit of time that is a number stops a search once it has passed, one that is no number never
does. -/
theorem accepted_iff_obeys {σ φ : Type} :
    (∀ s, ((∃ config, Config.ofSettings s = .ok config ∧ config.toSettings = s) ↔
        s.Obeys (·.isNaN = true)) ∧
      (s.Obeys (fun _ => False) ↔ (∃ config, Config.ofSettings s = .ok config) ∧ s.Ordered)) ∧
    (∀ config d c r, (Algorithm.patternSearch.fit config d c).result = .ok r →
      ∃ kind step, ResidualKind.ofName config.residualFunction = .ok kind ∧
        (patternFinish config kind d c).steps = List.replicate c.params.size step ∧
        (0.0 < config.minStep ∧ step < config.minStep ↔ config.minStep.isNaN = false)) ∧
    ∀ (plan : SearchPlan) limit, plan.config.maxDuration = some limit →
      (limit.isNaN = false → 0.0 ≤ limit ∧ limit ≤ infinity ∧
        ∀ s : SearchState σ φ, limit ≤ s.elapsed.1 → (s.stopReason? plan).1 ≠ none) ∧
      (limit.isNaN = true → ∀ s : SearchState σ φ, (s.stopReason? plan).1 ≠ some .maxDuration) := by
  refine ⟨fun s => ⟨?_, ?_⟩, fun config d c r h => steps_of_fitted h,
    fun plan limit hlimit => ⟨stopReason?_of_elapsed hlimit, stopReason?_ne_maxDuration hlimit⟩⟩
  · rw [← Settings.error?_eq_none_iff]
    constructor
    · rintro ⟨config, -, rfl⟩
      exact config.accepted
    · exact fun h => ⟨_, Config.ofSettings_eq_ok h, rfl⟩
  · rw [Settings.obeys_iff]
    refine and_congr_left' ⟨fun h => ⟨_, Config.ofSettings_eq_ok h⟩, ?_⟩
    rintro ⟨config, h⟩
    obtain rfl := Config.ofSettings_eq_ok_iff.mp h
    exact config.accepted

/-- A fit with a least step of a quarter, in a search of two seconds. -/
theorem accepted_iff_obeys_quarter :
    let d : Dataset := ⟨[0.0], [0.5], none, rfl, by decide⟩
    let config : Config :=
      ⟨{ paramValueMin := -1.0, paramValueMax := 1.0, minStep := 0.25, initialStepFraction := 0.25,
          maxDuration := some 2.0 }, by decide +kernel⟩
    let c : Candidate := ⟨.parameter "a", Params.empty.insert "a" 3.0⟩
    (∃ r, (Algorithm.patternSearch.fit config d c).result = .ok r) ∧
      (∃ step, (patternFinish config .leastSquares d c).steps = [step] ∧ step < 0.25) ∧
      config.toSettings.Obeys (fun _ => False) ∧
      ∀ s : SearchState ScriptedDraws Optimizer, 2.0 ≤ s.elapsed.1 →
        (s.stopReason? ⟨d, config, none⟩).1 ≠ none := by
  intro d config c
  have hfitted : (match (Algorithm.patternSearch.fit config d c).result with
      | .ok _ => true
      | .error _ => false) = true := by
    decide +kernel
  obtain ⟨haccepted, hsteps, hstops⟩ := @accepted_iff_obeys ScriptedDraws Optimizer
  have hordered : config.toSettings.Ordered := by
    refine ⟨by decide +kernel, fun t ht => ?_, by decide +kernel⟩
    cases ht
    decide +kernel
  have hlimit := (hstops ⟨d, config, none⟩ 2.0 rfl).1 (by decide +kernel)
  split at hfitted
  · rename_i r hresult
    obtain ⟨kind, step, hk, hequal, hstep⟩ := hsteps config d c r hresult
    obtain rfl : .leastSquares = kind := Except.ok.inj hk
    exact ⟨⟨r, hresult⟩, ⟨step, hequal, (hstep.mpr hordered.minStep).2⟩,
      (haccepted _).2.mpr ⟨⟨config, Config.ofSettings_eq_ok config.accepted⟩, hordered⟩, hlimit.2.2⟩
  · cases hfitted

/-- A least step that is no number is accepted, although it is not positive. -/
theorem ofSettings_minStep_nan :
    ∃ config, Config.ofSettings { minStep := 0.0 / 0.0 } = .ok config ∧ ¬ 0.0 < config.minStep :=
  ⟨_, Config.ofSettings_eq_ok (by decide +kernel), by decide +kernel⟩

end FormulaSearch
