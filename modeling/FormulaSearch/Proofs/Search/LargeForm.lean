import FormulaSearch.Proofs.Expr.Missing
import FormulaSearch.Proofs.Search.Step

/-!
# Reports on large formulas

A report shows the best candidate twice: in closed form, and in a tidied form that a large formula does not
get. A large formula is shown as it stands, with the names of its parameters. So this text is read back as
the function that was fitted if and only if the formula has no parameters, while the closed text above it
always is.
-/

namespace FormulaSearch

namespace Expr

theorem evaluate_foldSigns (e : Formula) (p : Assignment) (x : Float) :
    e.foldSigns.evaluate p x = e.evaluate p x := by
  rw [evaluate, evaluate, column_foldSigns]

theorem evaluateAll_foldSigns (e : Formula) (p : Assignment) (xs : List Float) :
    e.foldSigns.evaluateAll p xs = e.evaluateAll p xs := by
  rw [evaluateAll, evaluateAll, column_foldSigns]

end Expr

namespace Candidate

/-- The formula is larger than those that are tidied. -/
def IsLarge (c : Candidate) : Prop := Expr.tidyLimit < c.expression.count

instance (c : Candidate) : Decidable c.IsLarge := inferInstanceAs (Decidable (_ < _))

/-- The parameters of the formula have names that the grammar allows. -/
def ReadableNames (c : Candidate) : Prop :=
  ∀ n ∈ c.expression.parameterNames, Grammar.IsLetterWithDigits n ∧ n ≠ variableName

variable {c : Candidate} (symbolic : Symbolic)

/-- What is shown of a large formula is read back as the formula with its parameters, whatever would be shown
of a smaller one. -/
theorem parse_tidyText (hfinite : c.AllFinite) (hnamed : c.ReadableNames) (hlarge : c.IsLarge) :
    parse (c.tidyText symbolic) = .ok c.expression.foldSigns := by
  have hprintable : Printable c.expression :=
    ⟨hfinite.constants, fun n hn => hnamed n (Expr.mem_parameterNames.mpr hn)⟩
  have hshown : c.tidyText symbolic = c.text := if_pos hlarge
  rw [hshown]
  exact parse_render (fun v hv => Decimal.constantText_readsAs false hv) hprintable

/-- A parameter of a large formula is left in what is shown. -/
theorem not_readsBack_tidyText (hfinite : c.AllFinite) (hnamed : c.ReadableNames)
    (hlarge : c.IsLarge) (hopen : c.expression.parameterNames ≠ []) :
    ¬ c.ReadsBack (c.tidyText symbolic) := by
  rintro ⟨e, hparse, hclosed, -⟩
  rw [parse_tidyText symbolic hfinite hnamed hlarge] at hparse
  cases hparse
  exact hopen (c.expression.parameterNames_foldSigns ▸ hclosed)

/-- What is shown of a large formula without parameters is its closed form. -/
theorem readsBack_tidyText (hfinite : c.AllFinite) (hlarge : c.IsLarge)
    (hnone : c.expression.parameterNames = []) : c.ReadsBack (c.tidyText symbolic) := by
  have hnamed : c.ReadableNames := by simp [ReadableNames, hnone]
  have hsame (p : Assignment) : ∀ n ∈ c.expression.parameterNames, p n = c.params.assignment n := by
    simp [hnone]
  refine ⟨_, parse_tidyText symbolic hfinite hnamed hlarge, ?_, fun p x => ?_, fun p xs => ?_⟩
  · rw [Expr.parameterNames_foldSigns, hnone]
  · rw [Expr.evaluate_foldSigns, evaluate, Expr.evaluate, Expr.evaluate,
      Expr.column_congr (hsame p)]
  · rw [Expr.evaluateAll_foldSigns, evaluateAll, Expr.evaluateAll, Expr.evaluateAll,
      Expr.column_congr (hsame p)]

/-- A candidate with a large formula and finite numbers is reported in two forms. The closed text is read
back as its function. The other text is read back as its formula with the parameters by name, which has the
values of the candidate under its parameters; it is read back as the function without them if and only if
there are none. -/
theorem tidyText_readsBack_iff {σ φ : Type} (hfinite : c.AllFinite) (hnamed : c.ReadableNames)
    (hlarge : c.IsLarge) :
    (∃ e, parse (c.tidyText symbolic) = .ok e ∧ e.parameterNames = c.expression.parameterNames ∧
        (∀ x, e.evaluate c.params.assignment x = c.evaluate x) ∧
        ∀ xs, e.evaluateAll c.params.assignment xs = c.evaluateAll xs) ∧
      (c.ReadsBack (c.tidyText symbolic) ↔ c.expression.parameterNames = []) ∧
      ∃ closed, c.closedText = .ok closed ∧ c.ReadsBack closed ∧
        ∀ (plan : SearchPlan) (s : SearchState σ φ), s.best.candidate = c →
          ∃ t, s.reportBest plan = .ok t ∧ t.best = s.best ∧ t.Reported plan closed := by
  obtain ⟨closed, hclosed, hreads⟩ := hfinite.readsBack
  refine ⟨⟨_, parse_tidyText symbolic hfinite hnamed hlarge, Expr.parameterNames_foldSigns _,
    Expr.evaluate_foldSigns _ _, Expr.evaluateAll_foldSigns _ _⟩, ⟨fun h => ?_, fun hnone => ?_⟩,
    closed, hclosed, hreads, fun plan s hs => ?_⟩
  · by_contra hopen
    exact not_readsBack_tidyText symbolic hfinite hnamed hlarge hopen h
  · exact readsBack_tidyText symbolic hfinite hlarge hnone
  · obtain ⟨t, ht, hkept, hreported⟩ :=
      SearchState.reportBest_of_closedText plan (s := s) (hs ▸ hclosed)
    exact ⟨t, ht, hkept.best_eq, hreported⟩

/-- A sum of 61 nodes without parameters that begins with a negative number. -/
theorem tidyText_readsBack_number :
    let c : Candidate := ⟨(List.replicate 30 .var).foldl (.binary .add) (.constant (-0.1)), .empty⟩
    c.AllFinite ∧ c.ReadableNames ∧ c.IsLarge ∧ c.ReadsBack c.tidyText := by
  intro c
  have hconstants : c.expression.constants = [-0.1] := rfl
  have hnames : c.expression.parameterNames = [] := by decide +kernel
  have hfinite : c.AllFinite := by
    refine ⟨fun v hv => ?_, by simp [hnames]⟩
    obtain rfl : v = -0.1 := by simpa [hconstants] using Expr.mem_constants.mpr hv
    decide +kernel
  have hnamed : c.ReadableNames := by simp [ReadableNames, hnames]
  have hlarge : c.IsLarge := by decide +kernel
  obtain ⟨-, hiff, -⟩ :=
    tidyText_readsBack_iff (σ := ScriptedDraws) (φ := Optimizer) .absent hfinite hnamed hlarge
  exact ⟨hfinite, hnamed, hlarge, hiff.mpr hnames⟩

/-- In a sum of 61 nodes that begins with the parameter `a`, the parameter is shown by its name, although its
value is known. -/
theorem tidyText_leaves_parameter :
    let c : Candidate :=
      ⟨(List.replicate 30 .var).foldl (.binary .add) (.parameter "a"), Params.empty.insert "a" 2.0⟩
    c.AllFinite ∧ c.IsLarge ∧ ¬ c.ReadsBack c.tidyText := by
  intro c
  have hnames : c.expression.parameterNames = ["a"] := by decide +kernel
  have hfinite : c.AllFinite := by
    refine ⟨fun v hv => ?_, fun n hn => ?_⟩
    · have hconstants : c.expression.constants = [] := rfl
      simpa [hconstants] using Expr.mem_constants.mpr hv
    · obtain rfl : n = "a" := by simpa [hnames] using hn
      exact ⟨2.0, rfl, by decide +kernel⟩
  have hnamed : c.ReadableNames := by
    intro n hn
    obtain rfl : n = "a" := by simpa [hnames] using hn
    exact ⟨⟨'a', [], rfl, rfl, by simp⟩, by decide⟩
  have hlarge : c.IsLarge := by decide +kernel
  exact ⟨hfinite, hlarge, not_readsBack_tidyText .absent hfinite hnamed hlarge (by simp [hnames])⟩

end Candidate

end FormulaSearch
