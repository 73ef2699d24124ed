import FormulaSearch.Proofs.Descent

/-!
# A cap on the rounds of pattern search

More rounds go on where fewer rounds ended, state by state. So a cap does nothing but cut a search short:
a search that converges in time is the same under any larger cap. One that does not is continued there
without ever raising the cost, and it takes at least one round more to converge.
-/

namespace FormulaSearch

open Fit

namespace Fit.PatternSearch

variable {problem : Problem} {start : Point} {minStep bound : Float} {w : Walk}

/-! ## Continued rounds -/

/-- A step that is too small ends the search, however many rounds are left. -/
theorem rounds_of_small {step : Float} (h : ¬ minStep ≤ step) (done : Nat) (w : Walk) (left : Nat) :
    rounds problem minStep done step w left = ⟨w, step, done, true⟩ := by
  cases left with
  | zero =>
    rw [rounds]
    simp [h]
  | succ left => rw [rounds, if_neg h]

/-- More rounds start where the first ones ended. -/
theorem rounds_add (left more done : Nat) (step : Float) (w : Walk) :
    rounds problem minStep done step w (left + more) =
      let first := rounds problem minStep done step w left
      rounds problem minStep first.rounds first.step first.walk more := by
  induction left generalizing done step w with
  | zero => rw [Nat.zero_add, rounds]
  | succ left ih =>
    by_cases hstep : minStep ≤ step
    · rw [Nat.succ_add, rounds, rounds, if_pos hstep, if_pos hstep]
      exact ih _ _ _
    · -- the search is over within the first rounds, and the others find it so
      rw [rounds_of_small hstep, rounds_of_small hstep]
      exact (rounds_of_small hstep done w more).symm

/-- A search that ends has a step that is too small, or it has used all of its rounds. -/
theorem rounds_ends (left done : Nat) (step : Float) (w : Walk) :
    let finish := rounds problem minStep done step w left
    finish.converged = true ∧ ¬ minStep ≤ finish.step ∨
      finish.converged = false ∧ minStep ≤ finish.step ∧ finish.rounds = done + left := by
  induction left generalizing done step w with
  | zero =>
    rw [rounds]
    by_cases hstep : minStep ≤ step
    · exact .inr ⟨by simp [hstep], hstep, rfl⟩
    · exact .inl ⟨by simp [hstep], hstep⟩
  | succ left ih =>
    by_cases hstep : minStep ≤ step
    · rw [rounds, if_pos hstep]
      refine (ih _ _ _).imp_right fun h => ⟨h.1, h.2.1, h.2.2.trans ?_⟩
      omega
    · rw [rounds_of_small hstep]
      exact .inl ⟨rfl, hstep⟩

/-! ## The held cost -/

/-- The held cost is that of the held point and no more than a bound. -/
structure Walk.Below (problem : Problem) (bound : Float) (w : Walk) : Prop where
  cost_eq : w.cost = problem.cost w.point
  cost_le : w.cost ≤ bound

theorem tryMove_below (hw : w.Below problem bound) (i : Nat) (target : Float) :
    (tryMove problem i target w).2.Below problem bound := by
  rw [tryMove]
  dsimp only
  split
  · exact hw
  · split
    · rename_i hlt
      exact ⟨rfl, Double.le_trans (Double.le_of_lt hlt) hw.cost_le⟩
    · exact ⟨hw.cost_eq, hw.cost_le⟩

theorem tryCoordinate_below (hw : w.Below problem bound) (step : Float) (i : Nat) :
    (tryCoordinate problem step i w).2.Below problem bound := by
  have hup := tryMove_below hw i (w.point.getD i 0.0 + step)
  rw [tryCoordinate]
  split
  · rename_i w' hmove
    rwa [hmove] at hup
  · rename_i w' hmove
    rw [hmove] at hup
    exact tryMove_below hup i _

/-- Rounds that start at the cost of a point never raise it. -/
theorem rounds_below (hcost : ∀ p, (problem.cost p).isNaN = false)
    (hw : w.cost = problem.cost w.point) (left done : Nat) (step : Float) :
    (rounds problem minStep done step w left).walk.Below problem w.cost := by
  have hbelow : w.Below problem w.cost := ⟨hw, Double.le_refl (hw ▸ hcost _)⟩
  exact rounds_invariant (P := Walk.Below problem w.cost)
    (fun step i _ _ hu => tryCoordinate_below hu step i) left hbelow

/-! ## Two caps -/

section

variable {step : Float} {cap cap' : Nat}

theorem run_add (problem : Problem) (minStep step : Float) (cap more : Nat) (start : Point) :
    run problem minStep step (cap + more) start =
      let first := run problem minStep step cap start
      rounds problem minStep first.rounds first.step first.walk more :=
  rounds_add cap more 0 step _

theorem run_ends (problem : Problem) (minStep step : Float) (cap : Nat) (start : Point) :
    let finish := run problem minStep step cap start
    finish.converged = true ∧ ¬ minStep ≤ finish.step ∨
      finish.converged = false ∧ minStep ≤ finish.step ∧ finish.rounds = cap := by
  have hends := @rounds_ends problem minStep cap 0 step
    ⟨start, problem.cost start, [⟨start, problem.cost start⟩]⟩
  rwa [Nat.zero_add] at hends

/-- A search that converges is not changed by a larger cap. -/
theorem run_of_converged (hle : cap ≤ cap')
    (h : (run problem minStep step cap start).converged = true) :
    run problem minStep step cap' start = run problem minStep step cap start := by
  obtain ⟨more, rfl⟩ := Nat.exists_eq_add_of_le hle
  rw [run_add]
  rcases run_ends problem minStep step cap start with ⟨-, hsmall⟩ | ⟨hcut, -⟩
  · dsimp only
    rw [rounds_of_small hsmall, ← h]
  · rw [h] at hcut
    cases hcut

/-- A search that is cut short has used its rounds. Under a larger cap it goes on from there. -/
theorem run_of_cut (hcost : ∀ p, (problem.cost p).isNaN = false) (hle : cap ≤ cap')
    (h : (run problem minStep step cap start).converged = false) :
    (run problem minStep step cap start).rounds = cap ∧
      (run problem minStep step cap' start).walk.Below problem
        (run problem minStep step cap start).walk.cost ∧
      ((run problem minStep step cap' start).converged = true →
        cap < (run problem minStep step cap' start).rounds) := by
  obtain ⟨more, rfl⟩ := Nat.exists_eq_add_of_le hle
  have hbelow : (run problem minStep step cap start).walk.Below problem (problem.cost start) :=
    rounds_below (w := ⟨start, problem.cost start, [⟨start, problem.cost start⟩]⟩) hcost rfl cap 0
      step
  rw [run_add]
  rcases run_ends problem minStep step cap start with ⟨hconverged, -⟩ | ⟨-, hlarge, hrounds⟩
  · rw [h] at hconverged
    cases hconverged
  · refine ⟨hrounds, rounds_below hcost hbelow.cost_eq more _ _, fun hdone => ?_⟩
    -- a step that was large enough at the cap takes a round more before it is too small
    rcases rounds_optimal hdone with ⟨-, hsmall⟩ | ⟨hless, -⟩
    · exact absurd hlarge hsmall
    · exact Nat.lt_of_le_of_lt (Nat.le_of_eq hrounds.symm) hless

end

end Fit.PatternSearch

/-! ## Reports under a cap -/

theorem conclude_eq_cut {residue other : Float} {iterations n : Int} {finished : Bool}
    (h : conclude residue iterations finished = .error (.notConverged other n)) :
    residue.isFinite = true ∧ finished = false ∧ other = residue ∧ n = iterations := by
  have hconcluded := concluded residue iterations finished
  rw [h] at hconcluded
  cases hconcluded with
  | cut hfinite => exact ⟨hfinite, rfl, rfl, rfl⟩

theorem conclude_eq_diverged {residue : Float} {iterations n : Int} {finished : Bool}
    (h : conclude residue iterations finished = .error (.diverged n)) :
    residue.isFinite = false ∧ n = iterations := by
  have hconcluded := concluded residue iterations finished
  rw [h] at hconcluded
  cases hconcluded with
  | diverged hfinite => exact ⟨hfinite, rfl⟩

/-- What a report counts: a success and a divergence came within the cap, and a search that was cut short
has used it up. -/
structure FitReport.Capped (report : FitReport) (cap : Int) : Prop where
  fitted_le : ∀ r, report.result = .ok r → r.iterations ≤ cap
  cut_eq : ∀ residue n, report.result = .error (.unfit (.notConverged residue n)) → n = cap
  diverged_le : ∀ n, report.result = .error (.unfit (.diverged n)) → n ≤ cap

/-- Whether the report is that of a search cut short by the cap. -/
def FitReport.isCut (report : FitReport) : Bool :=
  match report.result with
  | .error (.unfit (.notConverged _ _)) => true
  | _ => false

theorem FitReport.isCut_iff {report : FitReport} :
    report.isCut = true ↔ ∃ residue n, report.result = .error (.unfit (.notConverged residue n)) := by
  unfold isCut
  constructor
  · intro h
    split at h
    · exact ⟨_, _, ‹_›⟩
    · cases h
  · rintro ⟨residue, n, h⟩
    rw [h]

/-- The fit was refused before its first iteration. -/
def FitReport.Refused (report : FitReport) : Prop :=
  ∃ e, report.result = .error e ∧ (∀ residue n, e ≠ .unfit (.notConverged residue n)) ∧
    ∀ n, e ≠ .unfit (.diverged n)

namespace FitReport.Refused

variable {report : FitReport}

theorem not_ok (h : report.Refused) (r : FitResult) : report.result ≠ .ok r := by
  obtain ⟨e, he, -⟩ := h
  rw [he]
  rintro ⟨⟩

theorem not_cut (h : report.Refused) (residue : Float) (n : Int) :
    report.result ≠ .error (.unfit (.notConverged residue n)) := by
  obtain ⟨e, he, hcut, -⟩ := h
  rw [he]
  exact fun heq => hcut residue n (Except.error.inj heq)

theorem not_diverged (h : report.Refused) (n : Int) :
    report.result ≠ .error (.unfit (.diverged n)) := by
  obtain ⟨e, he, -, hdiverged⟩ := h
  rw [he]
  exact fun heq => hdiverged n (Except.error.inj heq)

theorem capped (h : report.Refused) (cap : Int) : report.Capped cap where
  fitted_le r hr := absurd hr (h.not_ok r)
  cut_eq residue n hr := absurd hr (h.not_cut residue n)
  diverged_le n hr := absurd hr (h.not_diverged n)

end FitReport.Refused

section

variable {config config' : Config} {kind : ResidualKind} {d : Dataset} {c : Candidate}

/-- The two configurations are the same but for the cap on iterations. -/
def Config.SameButCap (config config' : Config) : Prop :=
  config'.toSettings = { config.toSettings with fitMaxIters := config'.fitMaxIters }

theorem Config.SameButCap.patternReport (h : config.SameButCap config') (kind : ResidualKind)
    (d : Dataset) (c : Candidate) :
    patternReport config' kind d c =
      reportOf config c (patternFinishWithin config kind d c config'.fitMaxIters.toNat) := by
  obtain ⟨settings, accepted⟩ := config'
  have h : settings = { config.toSettings with fitMaxIters := settings.fitMaxIters } := h
  generalize settings.fitMaxIters = cap at h
  subst h
  rfl

theorem Config.SameButCap.refl (config : Config) : config.SameButCap config := rfl

theorem Config.SameButCap.residualFunction_eq (h : config.SameButCap config') :
    config'.residualFunction = config.residualFunction := by
  rw [SameButCap] at h
  rw [h]

/-- Pattern search is refused before its first round, or its report is that of the search under the cap,
whatever the cap is. -/
theorem patternSearch_within (config : Config) (d : Dataset) (c : Candidate) :
    (Algorithm.patternSearch.fit config d c).Refused ∨
      ∃ kind, 0 < c.params.size ∧ ∀ config', config.SameButCap config' → Algorithm.patternSearch.fit config' d c =
        reportOf config c (patternFinishWithin config kind d c config'.fitMaxIters.toNat) := by
  have hends := Algorithm.ends_fit .patternSearch config d c
  generalize Algorithm.patternSearch.fit config d c = report at hends ⊢
  cases hends with
  | empty => exact .inl ⟨_, rfl, by rintro _ _ ⟨⟩, by rintro _ ⟨⟩⟩
  | unknown => exact .inl ⟨_, rfl, by rintro _ _ ⟨⟩, by rintro _ ⟨⟩⟩
  | missing => exact .inl ⟨_, rfl, by rintro _ _ ⟨⟩, by rintro _ ⟨⟩⟩
  | @pattern kind hsize hk hall =>
    refine .inr ⟨kind, hsize, fun config' hsame => ?_⟩
    rw [← hsame.residualFunction_eq] at hk
    rw [patternSearch_eq hsize hk hall, hsame.patternReport]

section

variable {cap cap' : Nat}

/-- A search counts its rounds correctly. -/
theorem capped_within (config : Config) (kind : ResidualKind) (d : Dataset)
    (hsize : 0 < c.params.size) (cap : Nat) :
    (reportOf config c (patternFinishWithin config kind d c cap)).Capped cap where
  fitted_le r h := by
    obtain ⟨-, -, rfl⟩ := conclude_eq_ok (result_reportAt_ok_iff.mp h)
    exact Int.ofNat_le.mpr (patternFinishWithin_rounds_le config kind d hsize cap)
  cut_eq residue n h := by
    obtain ⟨-, hcut, -, rfl⟩ := conclude_eq_cut (result_reportAt_error_iff.mp h)
    rw [patternFinishWithin_eq config kind d hsize] at hcut ⊢
    rcases PatternSearch.run_ends _ _ _ cap _ with ⟨hconverged, -⟩ | ⟨-, -, hrounds⟩
    · exact absurd hconverged (Bool.eq_false_iff.mp hcut)
    · exact congrArg Int.ofNat hrounds
  diverged_le n h := by
    obtain ⟨-, rfl⟩ := conclude_eq_diverged (result_reportAt_error_iff.mp h)
    exact Int.ofNat_le.mpr (patternFinishWithin_rounds_le config kind d hsize cap)

theorem finish_of_ok (hsize : 0 < c.params.size) (hle : cap ≤ cap') {r : FitResult}
    (h : (reportOf config c (patternFinishWithin config kind d c cap)).result = .ok r) :
    patternFinishWithin config kind d c cap' = patternFinishWithin config kind d c cap := by
  have hconverged := (conclude_eq_ok (result_reportAt_ok_iff.mp h)).2.1
  rw [patternFinishWithin_eq config kind d hsize] at hconverged
  rw [patternFinishWithin_eq config kind d hsize, patternFinishWithin_eq config kind d hsize,
    PatternSearch.run_of_converged hle hconverged]

theorem finish_of_cut (hsize : 0 < c.params.size) (hle : cap ≤ cap')
    (h : (patternFinishWithin config kind d c cap).converged = false) :
    let later := patternFinishWithin config kind d c cap'
    later.walk.Below (patternProblem config kind d c)
        (patternFinishWithin config kind d c cap).walk.cost ∧
      (later.converged = true → cap < later.rounds) := by
  have hcost := (wellPosed_patternProblem config kind d c).not_isNaN_cost
  rw [patternFinishWithin_eq config kind d hsize] at h
  simp only [patternFinishWithin_eq config kind d hsize]
  exact (PatternSearch.run_of_cut hcost hle h).2

/-- A residual that is no greater than a finite residue is finite. -/
theorem isFinite_of_below {w : PatternSearch.Walk} {residue : Float}
    (h : w.Below (patternProblem config kind d c) residue) (hresidue : residue.isFinite = true) :
    w.cost.isFinite = true := by
  rw [h.cost_eq]
  refine (costAt_cases kind c.expression _ d w.point).resolve_right fun hinfinite => ?_
  have hle := h.cost_le
  rw [h.cost_eq, show (patternProblem config kind d c).cost w.point = infinity from hinfinite] at hle
  exact not_infinity_le hresidue hle

/-- A search that did not converge goes on to a residue that is finite too and no greater. -/
theorem result_of_cut (hsize : 0 < c.params.size) (hle : cap ≤ cap') {residue : Float} {n : Int}
    (h : (reportOf config c (patternFinishWithin config kind d c cap)).result =
      .error (.unfit (.notConverged residue n))) :
    let result := (reportOf config c (patternFinishWithin config kind d c cap')).result
    ∃ other m, other ≤ residue ∧
      (result = .ok ⟨other, m⟩ ∧ cap < m ∨ result = .error (.unfit (.notConverged other m))) := by
  obtain ⟨hfinite, hcut, rfl, rfl⟩ := conclude_eq_cut (result_reportAt_error_iff.mp h)
  obtain ⟨hbelow, hmore⟩ := finish_of_cut hsize hle hcut
  have hlater := isFinite_of_below hbelow hfinite
  generalize patternFinishWithin config kind d c cap' = later at hbelow hmore hlater ⊢
  refine ⟨later.walk.cost, later.rounds, hbelow.cost_le, ?_⟩
  have hconcluded := concluded later.walk.cost later.rounds later.converged
  rw [reportOf]
  generalize conclude later.walk.cost later.rounds later.converged = outcome at hconcluded ⊢
  generalize later.converged = converged at hmore hconcluded
  cases hconcluded with
  | diverged hinfinite => simp [hinfinite] at hlater
  | cut => exact .inr rfl
  | fitted => exact .inl ⟨rfl, Int.ofNat_lt.mpr (hmore rfl)⟩

end

/-- The cap on iterations only cuts a pattern search short. No outcome counts more iterations than the cap,
and a search that did not converge has used them all. Under a larger cap, with the same settings otherwise,
a success is the same with the same values for the parameters. A search that did not converge in time comes
to a residue that is no greater, and if it succeeds there it takes more iterations than the smaller cap
allowed. -/
theorem patternSearch_capped (config : Config) (d : Dataset) (c : Candidate) :
    let report := fun config => Algorithm.patternSearch.fit config d c
    (report config).Capped config.fitMaxIters ∧
      ∀ config', config.SameButCap config' → config.fitMaxIters ≤ config'.fitMaxIters →
        (∀ r, (report config).result = .ok r → report config' = report config) ∧
          ∀ residue n, (report config).result = .error (.unfit (.notConverged residue n)) →
            ∃ other m, other ≤ residue ∧
              ((report config').result = .ok ⟨other, m⟩ ∧ config.fitMaxIters < m ∨
                (report config').result = .error (.unfit (.notConverged other m))) := by
  intro report
  rcases patternSearch_within config d c with hrefused | ⟨kind, hsize, hreport⟩
  · refine ⟨hrefused.capped _, fun config' _ _ => ⟨fun r h => ?_, fun residue n h => ?_⟩⟩
    · exact absurd h (hrefused.not_ok r)
    · exact absurd h (hrefused.not_cut residue n)
  · have hown : report config = _ := hreport config (.refl config)
    refine ⟨?_, fun config' hsame hle => ?_⟩
    · rw [hown, ← config.cap_eq, Int.toNat_natCast]
      exact capped_within config kind d hsize _
    · have hother : report config' = _ := hreport config' hsame
      have hle : config.fitMaxIters.toNat ≤ config'.fitMaxIters.toNat := Int.toNat_le_toNat hle
      rw [hown, hother]
      refine ⟨fun r h => ?_, fun residue n h => ?_⟩
      · rw [finish_of_ok hsize hle h]
      · rw [← config.cap_eq]
        exact result_of_cut hsize hle h

/-- A fit that takes three iterations, cut short after two and not cut short after three. -/
theorem patternSearch_capped_three :
    let d : Dataset := ⟨[0.0], [0.5], none, rfl, by decide⟩
    let settings (cap : Int) : Settings :=
      { paramValueMin := -1.0, paramValueMax := 1.0, minStep := 0.25, initialStepFraction := 0.25,
        fitMaxIters := cap }
    let two : Config := ⟨settings 2, by decide +kernel⟩
    let three : Config := ⟨settings 3, by decide +kernel⟩
    let many : Config := ⟨settings 50, by decide +kernel⟩
    let report (config : Config) :=
      Algorithm.patternSearch.fit config d ⟨.parameter "a", Params.empty.insert "a" 3.0⟩
    report many = report three ∧
      ∃ residue n, (report two).result = .error (.unfit (.notConverged residue n)) ∧ n = 2 ∧
        ∃ other m, other ≤ residue ∧ (report many).result = .ok ⟨other, m⟩ ∧ 2 < m := by
  intro d settings two three many report
  have hsucceeds : (report three).result.isOk = true := by decide +kernel
  have hmany : (report many).result.isOk = true := by decide +kernel
  have hcut : (report two).isCut = true := by decide +kernel
  constructor
  · obtain ⟨-, hlarger⟩ := patternSearch_capped three d
      ⟨.parameter "a", Params.empty.insert "a" 3.0⟩
    cases hresult : (report three).result with
    | ok r => exact (hlarger many rfl (by decide)).1 r hresult
    | error e =>
      rw [hresult] at hsucceeds
      cases hsucceeds
  · obtain ⟨hcapped, hlarger⟩ := patternSearch_capped two d
      ⟨.parameter "a", Params.empty.insert "a" 3.0⟩
    obtain ⟨residue, n, hresult⟩ := FitReport.isCut_iff.mp hcut
    obtain ⟨other, m, hle, ⟨hok, hmore⟩ | hother⟩ :=
      (hlarger many rfl (by decide)).2 residue n hresult
    · exact ⟨residue, n, hresult, hcapped.cut_eq residue n hresult, other, m, hle, hok, hmore⟩
    · rw [show (report many).result = _ from hother] at hmany
      cases hmany

end

end FormulaSearch
