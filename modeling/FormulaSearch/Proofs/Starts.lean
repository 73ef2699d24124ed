import FormulaSearch.Proofs.Budget
import FormulaSearch.Proofs.Rounding.Interval
import FormulaSearch.Proofs.Search.Proposals
import FormulaSearch.Proofs.Template

/-!
# Starting values

The parameters of a candidate start at given values, at draws from the domain or at its middle. Given values
are checked. The draws lie in the domain if and only if its width does not overflow, and the middle does if
and only if the sum of its bounds does not.
-/

namespace FormulaSearch

/-! ## Domains -/

namespace Config

/-- The width of the domain is a finite number. -/
def WidthFits (config : Config) : Prop := config.domainWidth.isFinite = true

/-- The sum of the bounds of the domain is a finite number. -/
def SumFits (config : Config) : Prop := (config.paramValueMin + config.paramValueMax).isFinite = true

instance (config : Config) : Decidable config.WidthFits := inferInstanceAs (Decidable (_ = true))

instance (config : Config) : Decidable config.SumFits := inferInstanceAs (Decidable (_ = true))

/-- Whether a value lies in the domain. -/
def Contains (config : Config) (v : Float) : Prop :=
  isWithin config.paramValueMin config.paramValueMax v = true

theorem contains_midpoint_iff (config : Config) :
    config.Contains (Candidate.midpoint config.toSettings) ↔ config.SumFits :=
  Double.isWithin_middle_iff config.domain_isFinite.1 config.domain_isFinite.2 config.domain_le

end Config

/-- The values of a candidate's parameters lie in the domain. -/
def Candidate.StartsWithin (c : Candidate) (config : Config) : Prop :=
  c.params.within config.paramValueMin config.paramValueMax = true

instance (c : Candidate) (config : Config) : Decidable (c.StartsWithin config) :=
  inferInstanceAs (Decidable (_ = true))

theorem Candidate.startsWithin_iff_values {c : Candidate} {config : Config} :
    c.StartsWithin config ↔ ∀ v ∈ c.params.values, config.Contains v := by
  rw [StartsWithin, Params.within, List.all_eq_true]
  rfl

/-! ## Draws -/

section

variable {σ : Type} [RandomSource σ] {config : Config} {source s : σ}

theorem UnitDraws.contains_iff (hd : UnitDraws source) (h : Drawn source s) :
    config.Contains (RandomSource.uniform config.paramValueMin config.paramValueMax s).1 ↔
      config.WidthFits := by
  obtain ⟨h0, h1⟩ := hd s h
  exact Double.isWithin_draw_iff config.domain_isFinite.1 config.domain_isFinite.2 config.domain_le h0 h1

theorem UnitDraws.contains_uniforms_iff (hd : UnitDraws source) (h : Drawn source s) (n : Nat) :
    ∀ v ∈ (RandomSource.uniforms config.paramValueMin config.paramValueMax n s).1,
      config.Contains v ↔ config.WidthFits := by
  induction n generalizing s with
  | zero => exact fun _ hv => nomatch hv
  | succ n ih =>
    intro v hv
    rcases List.mem_cons.mp hv with rfl | hv
    · exact hd.contains_iff h
    · exact ih h.unit v hv

end

namespace Candidate

/-! ## Values of one kind -/

theorem forall_mem_iff_of_alike {values : List Float} {p : Float → Prop} {fits : Prop}
    (h : ∀ v ∈ values, p v ↔ fits) : (∀ v ∈ values, p v) ↔ values = [] ∨ fits := by
  constructor
  · intro hall
    refine or_iff_not_imp_left.mpr fun hne => ?_
    obtain ⟨v, hv⟩ := List.exists_mem_of_ne_nil values hne
    exact (h v hv).mp (hall v hv)
  · rintro (rfl | hfits) v hv
    · cases hv
    · exact (h v hv).mpr hfits

/-- Values that all lie in the domain on the same condition. -/
theorem startsWithin_iff_of_alike {c : Candidate} {config : Config} {fits : Prop}
    (h : ∀ v ∈ c.params.values, config.Contains v ↔ fits) :
    c.StartsWithin config ↔ c.paramCount = 0 ∨ fits := by
  rw [startsWithin_iff_values, paramCount, ← Params.length_values, List.length_eq_zero_iff]
  exact forall_mem_iff_of_alike h

/-- If the given values lie in the domain, it is the supplied ones that decide. -/
theorem startsWithin_iff_of_filled {c : Candidate} {config : Config} {given : Assignment}
    {names : List String} {supplied : List Float} (hfilled : Filled given names supplied c.params.entries)
    (hgiven : GivenWithin config.paramValueMin config.paramValueMax given names) :
    c.StartsWithin config ↔ ∀ v ∈ supplied, config.Contains v := by
  rw [startsWithin_iff_values, ← hfilled.supplied_eq]
  constructor
  · exact fun hall v hv => hall v (List.map_subset _ (List.filter_subset_self _) hv)
  · intro hsupplied v hv
    obtain ⟨entry, hentry, rfl⟩ := List.mem_map.mp hv
    cases hname : given entry.1 with
    | some w =>
      rw [hfilled.kept entry hentry w hname]
      refine hgiven entry.1 ?_ w hname
      rw [← hfilled.names_eq]
      exact List.mem_map_of_mem hentry
    | none =>
      exact hsupplied _ (List.mem_map_of_mem (List.mem_filter.mpr ⟨hentry, by simp [hname]⟩))

/-- The starting values of a template's candidate, by how the missing ones are supplied. -/
theorem startsWithin_ofTemplateWith {σ : Type} {config : Config} {t : Template}
    {supply : σ → Float × σ} {s u : σ} {c : Candidate} {fits : Prop}
    (h : ofTemplateWith config.toSettings t supply s = .ok (c, u))
    (hsupply : ∀ n, ∀ v ∈ (supplies supply n s).1, config.Contains v ↔ fits) :
    c.StartsWithin config ↔
      missing (valuesByName t.values) c.expression.parameterNames = [] ∨ fits := by
  have hcomes := comesTo_ofTemplateWith config t supply s
  have hbuilt := hcomes.built c u h
  obtain ⟨e, hparse, -, hgiven⟩ := hcomes.ok_iff.mp ⟨c, u, h⟩
  rw [hbuilt.parsed] at hparse
  cases hparse
  rw [startsWithin_iff_of_filled hbuilt.filled hgiven, forall_mem_iff_of_alike (hsupply _),
    ← List.length_eq_zero_iff, hbuilt.filled.length_supplied, List.length_eq_zero_iff]

variable {config : Config} {t : Template} {c : Candidate}

theorem startsWithin_ofTemplate (h : ofTemplate config.toSettings t = .ok c) :
    c.StartsWithin config ↔
      missing (valuesByName t.values) c.expression.parameterNames = [] ∨ config.SumFits := by
  obtain ⟨⟨c', u⟩, hc, rfl⟩ := map_eq_ok_iff.mp h
  refine startsWithin_ofTemplateWith hc fun n v hv => ?_
  rw [supplies_same] at hv
  rw [List.eq_of_mem_replicate hv]
  exact config.contains_midpoint_iff

section

variable {σ : Type} [RandomSource σ] {s : σ} (hd : UnitDraws s)
include hd

theorem startsWithin_ofTemplateAtRandom {u : σ}
    (h : ofTemplateAtRandom config.toSettings t s = .ok (c, u)) :
    c.StartsWithin config ↔
      missing (valuesByName t.values) c.expression.parameterNames = [] ∨ config.WidthFits := by
  refine startsWithin_ofTemplateWith h fun n => ?_
  rw [supplies_uniform]
  exact hd.contains_uniforms_iff .start n

theorem startsWithin_generateWithin (config : Config) (budget : Int) :
    (generateWithin config.toSettings budget s).1.StartsWithin config ↔
      (generateWithin config.toSettings budget s).1.paramCount = 0 ∨ config.WidthFits :=
  startsWithin_iff_of_alike
    (enters_generateWithin (P := fun v => config.Contains v ↔ config.WidthFits)
      (fun _ h => hd.contains_iff h) budget .start).2

theorem contains_generate_iff (config : Config) :
    ∀ v ∈ (generate config.toSettings s).1.params.values, config.Contains v ↔ config.WidthFits :=
  (enters_generate (P := fun v => config.Contains v ↔ config.WidthFits)
    (fun _ h => hd.contains_iff h) .start).2

end

end Candidate

/-! ## Candidates of a search -/

section

variable {σ φ : Type} [RandomSource σ] {dataset : Dataset} {config : Config} {plan : SearchPlan}
  (hplan : SearchPlan.make dataset config = .ok plan) {s u : SearchState σ φ} {c : Candidate}
  (h : s.nextCandidate plan = (.ok c, u))
include hplan h

/-- The first candidate from a template is the one that was planned. -/
theorem SearchState.startsWithin_first {t : Template}
    (ht : SearchPlan.templateOf? config.toSettings = some t) (hnew : s.templateUsed = false) :
    c.StartsWithin config ↔ Candidate.missing (Candidate.valuesByName t.values)
      c.expression.parameterNames = [] ∨ config.SumFits := by
  obtain ⟨-, -, -, -, ⟨hnone, -⟩ | ⟨t', c', ht', hc, -, htemplate⟩⟩ := SearchPlan.make_eq_ok hplan
  · rw [ht] at hnone
    cases hnone
  · rw [ht] at ht'
    cases ht'
    rw [nextCandidate_first htemplate hnew] at h
    cases h
    exact Candidate.startsWithin_ofTemplate hc

/-- Every other candidate starts at draws. -/
theorem SearchState.startsWithin_drawn (hd : UnitDraws s.source)
    (hdrawn : SearchPlan.templateOf? config.toSettings = none ∨ s.templateUsed = true) :
    c.StartsWithin config ↔ c.paramCount = 0 ∨ config.WidthFits := by
  refine Candidate.startsWithin_iff_of_alike fun v hv => ?_
  obtain ⟨-, rfl, -, -, ⟨-, htemplate⟩ | ⟨t, c', ht, -, -, htemplate⟩⟩ :=
    SearchPlan.make_eq_ok hplan
  · rw [nextCandidate, htemplate] at h
    dsimp only at h
    split at h
    · cases h
    · rename_i hsimplified
      cases h
      exact Candidate.contains_generate_iff hd _ v ((Candidate.simplify_eq_ok hsimplified).2 hv)
  · have hused := hdrawn.resolve_left (ht ▸ Option.some_ne_none t)
    rw [nextCandidate_later htemplate hused] at h
    cases h
    have hlength := length_uniforms plan.config.paramValueMin plan.config.paramValueMax
      c'.params.size s.source
    dsimp only at hv
    rw [show c'.paramCount = c'.params.size from rfl, Params.values_withValues hlength] at hv
    exact hd.contains_uniforms_iff .start _ v hv

end

/-- Where the parameters of candidates start. Those of a grown formula and of a template that is started at
random lie in the domain if and only if its width does not overflow or nothing is drawn; those of a template
started at the middle, if and only if the sum of the bounds does not overflow or all values are given. In a
search a template is started at the middle first and at random after that. -/
theorem startsWithin_iff {σ φ : Type} [RandomSource σ] (config : Config) (s : σ) (hd : UnitDraws s) :
    (∀ budget,
      (Candidate.generateWithin config.toSettings budget s).1.StartsWithin config ↔
        (Candidate.generateWithin config.toSettings budget s).1.paramCount = 0 ∨ config.WidthFits) ∧
    ((Candidate.generate config.toSettings s).1.StartsWithin config ↔
      (Candidate.generate config.toSettings s).1.paramCount = 0 ∨ config.WidthFits) ∧
    (∀ t c, Candidate.ofTemplate config.toSettings t = .ok c →
      (c.StartsWithin config ↔ Candidate.missing (Candidate.valuesByName t.values)
        c.expression.parameterNames = [] ∨ config.SumFits)) ∧
    (∀ t c u, Candidate.ofTemplateAtRandom config.toSettings t s = .ok (c, u) →
      (c.StartsWithin config ↔ Candidate.missing (Candidate.valuesByName t.values)
        c.expression.parameterNames = [] ∨ config.WidthFits)) ∧
    ∀ dataset plan, SearchPlan.make dataset config = .ok plan →
      ∀ (state after : SearchState σ φ) c, state.source = s →
        state.nextCandidate plan = (.ok c, after) →
        (∀ t, SearchPlan.templateOf? config.toSettings = some t → state.templateUsed = false →
          (c.StartsWithin config ↔ Candidate.missing (Candidate.valuesByName t.values)
            c.expression.parameterNames = [] ∨ config.SumFits)) ∧
        (SearchPlan.templateOf? config.toSettings = none ∨ state.templateUsed = true →
          (c.StartsWithin config ↔ c.paramCount = 0 ∨ config.WidthFits)) := by
  refine ⟨fun budget => Candidate.startsWithin_generateWithin hd config budget,
    Candidate.startsWithin_iff_of_alike (Candidate.contains_generate_iff hd config),
    fun t c h => Candidate.startsWithin_ofTemplate h,
    fun t c u h => Candidate.startsWithin_ofTemplateAtRandom hd h, ?_⟩
  rintro dataset plan hplan state after c rfl hnext
  exact ⟨fun t ht hnew => SearchState.startsWithin_first hplan hnext ht hnew,
    fun hdrawn => SearchState.startsWithin_drawn hplan hnext hd hdrawn⟩

/-- A domain that is too wide for its width to be a double: the middle of it is zero, a draw is not in it. -/
theorem startsWithin_iff_wide :
    let config : Config :=
      ⟨{ paramValueMin := -1.7e308, paramValueMax := 1.7e308 }, by decide +kernel⟩
    let source := ScriptedDraws.ofList [0.5]
    UnitDraws source ∧
      (∃ c, Candidate.ofTemplate config.toSettings ⟨"a", []⟩ = .ok c ∧ c.StartsWithin config) ∧
      ∃ c u, Candidate.ofTemplateAtRandom config.toSettings ⟨"a", []⟩ source = .ok (c, u) ∧
        ¬ c.StartsWithin config := by
  intro config source
  have hd : UnitDraws source := by
    intro s hs
    rcases drawn_singleton hs with rfl | rfl
    · decide +kernel
    · decide +kernel
  have hsum : config.SumFits := by decide +kernel
  have hwidth : ¬ config.WidthFits := by decide +kernel
  obtain ⟨-, -, htemplate, hrandom, -⟩ := @startsWithin_iff _ Unit _ config source hd
  have hc : Candidate.ofTemplate config.toSettings ⟨"a", []⟩ =
      .ok ⟨.parameter "a", Params.empty.insert "a" (Candidate.midpoint config.toSettings)⟩ := by
    rfl
  have hc' : Candidate.ofTemplateAtRandom config.toSettings ⟨"a", []⟩ source =
      .ok (⟨.parameter "a", Params.empty.insert "a"
        (RandomSource.uniform config.paramValueMin config.paramValueMax source).1⟩,
        (RandomSource.unit source).2) := by
    rfl
  refine ⟨hd, ⟨_, hc, (htemplate _ _ hc).mpr (.inr hsum)⟩, _, _, hc', fun h => ?_⟩
  rcases (hrandom _ _ _ hc').mp h with hnone | hfits
  · cases hnone
  · exact hwidth hfits

/-- The middle of a domain far from zero is infinite. -/
theorem midpoint_not_contained :
    let config : Config := ⟨{ paramValueMin := 1e308, paramValueMax := 1.7e308 }, by decide +kernel⟩
    ∃ c, Candidate.ofTemplate config.toSettings ⟨"a", []⟩ = .ok c ∧ ¬ c.StartsWithin config := by
  intro config
  refine ⟨⟨.parameter "a", Params.empty.insert "a" (Candidate.midpoint config.toSettings)⟩, rfl, ?_⟩
  decide +kernel

end FormulaSearch
