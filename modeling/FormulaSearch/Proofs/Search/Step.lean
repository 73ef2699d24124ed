import FormulaSearch.Proofs.Expr.ClosedForm
import FormulaSearch.Proofs.Growth
import FormulaSearch.Proofs.Search

/-!
# What a step does

A step produces a candidate and, if it is small enough, has it fitted. A fit that comes to a result makes a
trial, and the trial takes the place of the best record if its residue is finite and no greater. What a step
does to record and counts is determined by its trial alone, whoever fits, and nothing that is printed or
logged on the way has a part in it.
-/

namespace FormulaSearch

/-! ## Trials -/

/-- A candidate as its fit has left it, and what the fit came to. -/
structure Trial where
  candidate : Candidate
  result : FitResult

namespace Trial

def residue (t : Trial) : Float := t.result.residue

/-- The record that a trial makes. -/
def record (t : Trial) : Best := ⟨t.candidate, t.result.residue, t.result.iterations⟩

/-- Whether a trial takes the place of a record; a residue that is as great is good enough. -/
def Accepted (b : Best) (t : Trial) : Prop := t.residue.isFinite = true ∧ t.residue ≤ b.residue

instance (b : Best) (t : Trial) : Decidable (t.Accepted b) := inferInstanceAs (Decidable (_ ∧ _))

end Trial

/-- The record after a trial. -/
def Best.next (b : Best) (t : Trial) : Best := if t.Accepted b then t.record else b

/-- The block of lines on a record. -/
def Best.block (b : Best) (symbolic : Symbolic) (closed : String) : List String :=
  [""] ++ Report.best b.iterations closed (b.candidate.tidyText symbolic) b.residue ++
    ["", "searching..."]

/-! ## Fitters that keep names -/

/-- The reported parameters have the names that the candidate's had. -/
class KeepsNames (φ : Type) [Fitter φ] : Prop where
  names_eq : ∀ (config : Config) (d : Dataset) (c : Candidate) (f : φ) (r : FitReport),
    (Fitter.attempt config d c f).1 = .reported r → r.params.names = c.params.names

theorem names_fit (config : Config) (d : Dataset) (c : Candidate) :
    (fit config d c).params.names = c.params.names := by
  obtain ⟨a, -, hfit⟩ | ⟨e, -, hfit⟩ := fit_cases config d c
  · rw [hfit]
    exact (a.ends_fit config d c).names_eq
  · rw [hfit]

instance : KeepsNames Optimizer where
  names_eq config d c _ r h := by
    cases h
    exact names_fit config d c

instance : KeepsNames ScriptedFits where
  names_eq config d c f r h := by
    dsimp only [Fitter.attempt] at h
    split at h
    · cases h
      rfl
    · cases h
      rfl
    · cases h

/-- The template of a plan lists the parameters of its formula. -/
def SearchPlan.WellNamed (plan : SearchPlan) : Prop := ∀ c, plan.template = some c → c.WellNamed

theorem SearchPlan.wellNamed_of_make {dataset : Dataset} {config : Config} {plan : SearchPlan}
    (h : make dataset config = .ok plan) : plan.WellNamed :=
  fun c hc => ((make_ready h).2.2 c hc).wellNamed

theorem SearchPlan.wellNamed_of_template {plan : SearchPlan} (h : plan.template = none) :
    plan.WellNamed := by
  intro c hc
  rw [h] at hc
  cases hc

namespace SearchState

variable {σ φ : Type}

/-! ## What has no part in the search -/

/-- Record, counts and source are as before. -/
structure Kept (s t : SearchState σ φ) : Prop where
  best_eq : t.best = s.best
  generated_eq : t.generated = s.generated
  fitted_eq : t.fitted = s.fitted
  source_eq : t.source = s.source

theorem Kept.trans {s t u : SearchState σ φ} (h : Kept s t) (h' : Kept t u) : Kept s u :=
  ⟨h'.best_eq.trans h.best_eq, h'.generated_eq.trans h.generated_eq,
    h'.fitted_eq.trans h.fitted_eq, h'.source_eq.trans h.source_eq⟩

theorem Aside.kept {s t : SearchState σ φ} (h : Aside s t) : Kept s t :=
  ⟨h.best_eq, h.generated_eq, h.fitted_eq, h.source_eq⟩

/-- The record's block is the last that has been printed, unless the search is quiet. -/
def Reported (plan : SearchPlan) (closed : String) (s : SearchState σ φ) : Prop :=
  plan.config.verbose = true →
    ∃ earlier, s.output = ((s.best.block s.symbolic closed).map .printed).reverse ++ earlier

theorem reportBest_of_closedText (plan : SearchPlan) {s : SearchState σ φ} {closed : String}
    (h : s.best.candidate.closedText = .ok closed) :
    ∃ t, s.reportBest plan = .ok t ∧ Kept s t ∧ t.Reported plan closed := by
  have hstats := s.aside_printStats plan
  have haside := hstats.trans (aside_print plan (s.best.block s.symbolic closed) _)
  refine ⟨(s.printStats plan).print plan (s.best.block s.symbolic closed), ?_, haside.kept,
    fun hverbose => ?_⟩
  · rw [reportBest, h, ok_bind]
    dsimp only
    rw [hstats.best_eq, hstats.symbolic_eq]
    rfl
  · rw [haside.best_eq, haside.symbolic_eq, print, if_pos hverbose]
    exact ⟨_, rfl⟩

/-! ## Comparing a trial -/

/-- What comparing a trial comes to: it is dropped, or it is stored and reported, or it is stored and has no
closed text. -/
inductive Compared (plan : SearchPlan) (t : Trial) (s : SearchState σ φ) :
    Except StepFailure StepOutcome × SearchState σ φ → Prop where
  | dropped {outcome : StepOutcome} {s' : SearchState σ φ} (hnot : ¬ t.Accepted s.best)
      (hne : outcome ≠ .newBest) (hkept : Kept s s') : Compared plan t s (.ok outcome, s')
  | stored {closed : String} {s' : SearchState σ φ} (haccepted : t.Accepted s.best)
      (hclosed : t.candidate.closedText = .ok closed) (hkept : Kept { s with best := t.record } s')
      (hreported : s'.Reported plan closed) : Compared plan t s (.ok .newBest, s')
  | unclosed {e : MissingParameter} {s' : SearchState σ φ} (haccepted : t.Accepted s.best)
      (hclosed : t.candidate.closedText = .error e)
      (hkept : Kept { s with best := t.record } s') : Compared plan t s (.error (.missing e), s')

theorem compare_of_accepted {plan : SearchPlan} {t : Trial} {s : SearchState σ φ}
    (h : t.Accepted s.best) : s.compare plan t.candidate t.result =
      let stored := { s with best := t.record }.log
        (.newBest s.generated t.candidate.text t.residue)
      match stored.reportBest plan with
      | .ok u => (.ok .newBest, u)
      | .error e => (.error (.missing e), stored) := by
  have hfinite : ¬ (!t.result.residue.isFinite) = true := by
    simpa [Trial.residue] using h.1
  rw [compare, if_neg hfinite, if_pos (show t.result.residue ≤ s.best.residue from h.2)]
  rfl

theorem compared_compare (plan : SearchPlan) (t : Trial) (s : SearchState σ φ) :
    Compared plan t s (s.compare plan t.candidate t.result) := by
  by_cases haccepted : t.Accepted s.best
  · rw [compare_of_accepted haccepted]
    have hkept := (aside_log (.newBest s.generated t.candidate.text t.residue)
      { s with best := t.record }).kept
    dsimp only
    generalize log _ _ = stored at hkept ⊢
    have hbest : stored.best.candidate = t.candidate := congrArg Best.candidate hkept.best_eq
    cases hclosed : t.candidate.closedText with
    | ok closed =>
      obtain ⟨u, hu, hkept', hreported⟩ := reportBest_of_closedText plan (hbest ▸ hclosed)
      rw [hu]
      exact .stored haccepted hclosed (hkept.trans hkept') hreported
    | error e =>
      have hreport : stored.reportBest plan = .error e := by
        rw [reportBest, hbest, hclosed]
        rfl
      rw [hreport]
      exact .unclosed haccepted hclosed hkept
  · rw [compare]
    split
    · exact .dropped haccepted (by decide) (s.aside_log _).kept
    · rename_i hfinite
      have hle : ¬ t.result.residue ≤ s.best.residue := by
        exact fun hle => haccepted ⟨by simpa [Trial.residue] using hfinite, hle⟩
      rw [if_neg hle]
      exact .dropped haccepted (by decide) ⟨rfl, rfl, rfl, rfl⟩

/-- Comparing a trial moves the record on. -/
theorem Compared.best_eq {plan : SearchPlan} {t : Trial} {s : SearchState σ φ}
    {out : Except StepFailure StepOutcome × SearchState σ φ} (h : Compared plan t s out) :
    out.2.best = s.best.next t := by
  rw [Best.next]
  cases h with
  | dropped hnot _ hkept => rw [if_neg hnot, hkept.best_eq]
  | stored haccepted _ hkept _ => rw [if_pos haccepted, hkept.best_eq]
  | unclosed haccepted _ hkept => rw [if_pos haccepted, hkept.best_eq]

/-- Comparing a trial changes nothing but the record. -/
theorem Compared.kept {plan : SearchPlan} {t : Trial} {s : SearchState σ φ}
    {out : Except StepFailure StepOutcome × SearchState σ φ} (h : Compared plan t s out) :
    Kept { s with best := s.best.next t } out.2 := by
  have hbest := h.best_eq
  cases h with
  | dropped _ _ hkept => exact { hkept with best_eq := hbest }
  | stored _ _ hkept _ => exact { hkept with best_eq := hbest }
  | unclosed _ _ hkept => exact { hkept with best_eq := hbest }

/-! ## One step -/

section

variable [RandomSource σ] {plan : SearchPlan}

/-- The next candidate is always found, and lists the parameters of its formula. -/
theorem exists_nextCandidate (hp : plan.WellNamed) (s : SearchState σ φ) :
    ∃ c u, s.nextCandidate plan = (.ok c, u) ∧ c.WellNamed ∧ u.best = s.best ∧
      u.generated = s.generated ∧ u.fitted = s.fitted := by
  rw [nextCandidate]
  split
  · rename_i template htemplate
    have hnamed := hp template htemplate
    split
    · exact ⟨_, _, rfl, (Params.names_withValues _ _).trans hnamed, rfl, rfl, rfl⟩
    · exact ⟨_, _, rfl, hnamed, rfl, rfl, rfl⟩
  · obtain ⟨c, hc, -⟩ := Candidate.exists_simplify_generate plan.config.toSettings s.source
    dsimp only
    rw [hc]
    exact ⟨_, _, rfl, (Candidate.simplify_wellNamed hc).1, rfl, rfl, rfl⟩

/-- One candidate more, and some fits more, since a state. -/
structure Advanced (plan : SearchPlan) (s : SearchState σ φ) (fits : Nat) (u : SearchState σ φ) :
    Prop where
  best_eq : u.best = s.best
  generated_eq : u.generated = s.generated + 1
  fitted_eq : u.fitted = s.fitted + fits
  source_eq : u.source = (s.ensureStarted.nextCandidate plan).2.source

theorem Advanced.kept {fits : Nat} {s u v : SearchState σ φ} (h : Advanced plan s fits u)
    (hkept : Kept u v) : Advanced plan s fits v where
  best_eq := hkept.best_eq.trans h.best_eq
  generated_eq := hkept.generated_eq.trans h.generated_eq
  fitted_eq := hkept.fitted_eq.trans h.fitted_eq
  source_eq := hkept.source_eq.trans h.source_eq

variable [Fitter φ] {s : SearchState σ φ}

/-- The trial of a step: its candidate is small enough, and the fit of it comes to a result. -/
def trial? (plan : SearchPlan) (s : SearchState σ φ) : Option Trial :=
  match s.ensureStarted.nextCandidate plan with
  | (.error _, _) => none
  | (.ok c, u) =>
    if plan.config.maxParams < c.paramCount then none else
      match (Fitter.attempt plan.config plan.dataset c u.fitter).1 with
      | .reported ⟨params, .ok r⟩ => some ⟨⟨c.expression, params⟩, r⟩
      | .reported ⟨_, .error _⟩ | .interrupted => none

section

variable {c : Candidate} {u : SearchState σ φ}
  (hnext : s.ensureStarted.nextCandidate plan = (.ok c, u))
include hnext

/-- A candidate with too many parameters is not tried. -/
theorem trial?_of_large (h : plan.config.maxParams < c.paramCount) : s.trial? plan = none := by
  rw [trial?, hnext]
  exact if_pos h

/-- A small candidate makes a trial if its fit comes to a result. -/
theorem trial?_of_small (h : (c.paramCount : Int) ≤ plan.config.maxParams) :
    s.trial? plan = match (Fitter.attempt plan.config plan.dataset c u.fitter).1 with
      | .reported ⟨params, .ok r⟩ => some ⟨⟨c.expression, params⟩, r⟩
      | .reported ⟨_, .error _⟩ | .interrupted => none := by
  rw [trial?, hnext]
  exact if_neg (Int.not_lt.mpr h)

end

/-- A trial is the next candidate with the parameters that its fit reports. -/
theorem trial?_eq_some {t : Trial} (h : s.trial? plan = some t) :
    ∃ c u params, s.ensureStarted.nextCandidate plan = (.ok c, u) ∧
      (c.paramCount : Int) ≤ plan.config.maxParams ∧
      (Fitter.attempt plan.config plan.dataset c u.fitter).1 = .reported ⟨params, .ok t.result⟩ ∧
      t.candidate = ⟨c.expression, params⟩ := by
  rw [trial?] at h
  split at h
  · cases h
  · rename_i c u hnext
    split at h
    · cases h
    · split at h
      · rename_i params r hattempt
        cases h
        exact ⟨c, u, params, hnext, by omega, hattempt, rfl⟩
      · cases h
      · cases h

/-- A step without a trial leaves the record; a step with one compares it. -/
theorem step_cases (hp : plan.WellNamed) (s : SearchState σ φ) :
    (s.trial? plan = none ∧ (s.step plan).1 ≠ .ok .newBest ∧
        Advanced plan s 0 (s.step plan).2) ∨
      ∃ t u, s.trial? plan = some t ∧ Advanced plan s 1 u ∧ Compared plan t u (s.step plan) := by
  obtain ⟨c, u, hnext, -, hbest, hgenerated, hfitted⟩ := exists_nextCandidate hp s.ensureStarted
  have hstarted := s.aside_ensureStarted
  have hadvanced (fits : Nat) : Advanced plan s fits
      { u with generated := u.generated + 1, fitted := u.fitted + fits } :=
    { best_eq := hbest.trans hstarted.best_eq
      generated_eq := congrArg (· + 1) (hgenerated.trans hstarted.generated_eq)
      fitted_eq := congrArg (· + fits) (hfitted.trans hstarted.fitted_eq)
      source_eq := by rw [hnext] }
  rw [step, hnext]
  dsimp only
  split
  · rename_i hmany
    exact .inl ⟨trial?_of_large hnext hmany, by simp, (hadvanced 0).kept ⟨rfl, rfl, rfl, rfl⟩⟩
  · rename_i hmany
    rw [trial?_of_small hnext (Int.not_lt.mp hmany), fitAndCompare]
    dsimp only
    generalize Fitter.attempt plan.config plan.dataset c u.fitter = attempt
    obtain ⟨attempt, fitter⟩ := attempt
    -- the fit fails in one of three ways, comes to a result, or is interrupted
    rcases attempt with ⟨params, (e | e | e) | r⟩ | _
    · exact .inl ⟨rfl, by simp, (hadvanced 0).kept ⟨rfl, rfl, rfl, rfl⟩⟩
    · exact .inl ⟨rfl, by simp, (hadvanced 0).kept ⟨rfl, rfl, rfl, rfl⟩⟩
    · exact .inl ⟨rfl, by simp, (hadvanced 0).kept ⟨rfl, rfl, rfl, rfl⟩⟩
    · refine .inr ⟨_, _, rfl, ?_, compared_compare plan ⟨⟨c.expression, params⟩, r⟩ _⟩
      exact (hadvanced 1).kept ⟨rfl, rfl, rfl, rfl⟩
    · exact .inl ⟨rfl, by simp, (hadvanced 0).kept ⟨rfl, rfl, rfl, rfl⟩⟩

/-- A step moves the record on by its trial and counts one candidate and its trial. -/
theorem advanced_step (hp : plan.WellNamed) (s : SearchState σ φ) :
    (s.step plan).2.best = (s.trial? plan).toList.foldl Best.next s.best ∧
      (s.step plan).2.generated = s.generated + 1 ∧
      (s.step plan).2.fitted = s.fitted + (s.trial? plan).toList.length ∧
      (s.step plan).2.source = (s.ensureStarted.nextCandidate plan).2.source := by
  rcases step_cases hp s with ⟨htrial, -, hadvanced⟩ | ⟨t, u, htrial, hadvanced, hcompared⟩
  · rw [htrial]
    exact ⟨hadvanced.best_eq, hadvanced.generated_eq, hadvanced.fitted_eq, hadvanced.source_eq⟩
  · rw [htrial]
    have hkept := hcompared.kept
    refine ⟨?_, hkept.generated_eq.trans hadvanced.generated_eq,
      hkept.fitted_eq.trans hadvanced.fitted_eq, hkept.source_eq.trans hadvanced.source_eq⟩
    rw [hcompared.best_eq, hadvanced.best_eq]
    rfl

/-- A trial has the names of its candidate. -/
theorem wellNamed_of_trial? [KeepsNames φ] (hp : plan.WellNamed) {t : Trial}
    (h : s.trial? plan = some t) : t.candidate.WellNamed := by
  obtain ⟨c, u, params, hnext, -, hattempt, hcandidate⟩ := trial?_eq_some h
  obtain ⟨c', u', hnext', hnamed, -⟩ := exists_nextCandidate hp s.ensureStarted
  obtain rfl : c' = c := by
    rw [hnext] at hnext'
    exact (Except.ok.inj (Prod.mk.inj hnext').1).symm
  rw [hcandidate]
  exact (KeepsNames.names_eq _ _ _ _ _ hattempt).trans hnamed

/-- A step announces a new best record exactly if its trial is accepted. -/
theorem newBest_iff [KeepsNames φ] (hp : plan.WellNamed) :
    (s.step plan).1 = .ok .newBest ↔ ∃ t, s.trial? plan = some t ∧ t.Accepted s.best := by
  rcases step_cases hp s with ⟨htrial, hne, -⟩ | ⟨t, u, htrial, hadvanced, hcompared⟩
  · simp [htrial, hne]
  · have hnamed := wellNamed_of_trial? hp htrial
    rw [htrial, ← hadvanced.best_eq]
    generalize s.step plan = out at hcompared
    cases hcompared with
    | dropped hnot hne _ =>
      simp [hnot, hne]
    | stored haccepted _ _ _ => simp [haccepted]
    | unclosed haccepted hclosed _ =>
      obtain ⟨closed, hok⟩ := Candidate.exists_closedText (c := t.candidate) fun n hn => by
        rwa [show t.candidate.params.names = _ from hnamed]
      rw [hok] at hclosed
      cases hclosed

/-- What a step announces has been reported with the closed text of its candidate. -/
theorem reported_of_newBest (hp : plan.WellNamed) (h : (s.step plan).1 = .ok .newBest) :
    ∃ closed, (s.step plan).2.best.candidate.closedText = .ok closed ∧
      (s.step plan).2.Reported plan closed := by
  rcases step_cases hp s with ⟨-, hne, -⟩ | ⟨t, u, -, -, hcompared⟩
  · exact absurd h hne
  · generalize s.step plan = out at h hcompared
    cases hcompared with
    | dropped _ hne _ => exact absurd (Except.ok.inj h) hne
    | stored _ hclosed hkept hreported =>
      exact ⟨_, by rw [hkept.best_eq]; exact hclosed, hreported⟩
    | unclosed _ _ _ => cases h

end

end SearchState

end FormulaSearch
