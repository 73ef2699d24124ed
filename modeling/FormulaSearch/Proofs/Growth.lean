import FormulaSearch.Proofs.Canonical

/-!
# Grown candidates

Growing a formula enters each parameter that it puts in, and its constants come from a table of finite
numbers. So a grown candidate can be simplified, and the constants of what it is simplified to are finite.
-/

namespace FormulaSearch

/-! ## Entering parameters -/

namespace Params

theorem names_subset_insert (p : Params) (name : String) (value : Float) :
    p.names ⊆ (p.insert name value).names := by
  rw [insert]
  split
  · exact List.Subset.refl _
  · simp [names]

theorem mem_names_insert (p : Params) (name : String) (value : Float) :
    name ∈ (p.insert name value).names := by
  rw [insert]
  split
  · assumption
  · simp [names]

end Params

/-- The fresh name is the first canonical name that is not used, and it comes no later than after as many
names as are used. -/
theorem freshName_cases (used : List String) : ∃ i ≤ used.length, freshName used = canonicalName i ∧
    canonicalName i ∉ used ∧ ∀ j < i, canonicalName j ∈ used := by
  have hfound : ∃ name, (canonicalNames (used.length + 1)).find? (!used.contains ·) = some name := by
    by_contra hnone
    -- more distinct names than are used cannot all be used
    have hall : ∀ name ∈ canonicalNames (used.length + 1), name ∈ used := by
      simpa [← Option.ne_none_iff_exists', List.find?_eq_none] using hnone
    have := (nodup_canonicalNames _).length_le_of_subset fun name => hall name
    rw [length_canonicalNames] at this
    omega
  obtain ⟨name, hname⟩ := hfound
  obtain ⟨hfree, i, hi, rfl, hbefore⟩ := List.find?_eq_some_iff_getElem.mp hname
  rw [getElem_canonicalNames] at hname hfree
  rw [length_canonicalNames] at hi
  refine ⟨i, by omega, by rw [freshName, hname]; rfl, by simpa using hfree, fun j hj => ?_⟩
  have hused := hbefore j hj
  rw [getElem_canonicalNames] at hused
  simpa using hused

/-- A parameter is entered under a name that is free. -/
theorem Params.add_freshName (p : Params) (value : Float) :
    p.add (freshName p.names) value = .ok (p.addFresh value).2 := by
  obtain ⟨i, -, hname, hfree, -⟩ := freshName_cases p.names
  rw [add, if_neg (by simpa [contains, hname] using hfree)]
  rfl

theorem isFinite_of_mem_constantTable : ∀ v ∈ constantTable, v.isFinite = true := by
  decide +kernel

theorem RandomSource.choose_mem {σ α : Type} [RandomSource σ] {xs : List α} (h : 0 < xs.length)
    (s : σ) : (choose xs h s).1 ∈ xs :=
  List.get_mem xs _

section

variable {σ : Type} [RandomSource σ] {settings : Settings}

/-! ## Growing -/

/-- What growing leaves: the parameters entered before and those of the formula, whose constants are
finite. -/
structure Entered (params : Params) (grown : Formula × Params × σ) : Prop where
  kept : params.names ⊆ grown.2.1.names
  listed : ∀ n ∈ grown.1.parameterNames, n ∈ grown.2.1.names
  isFinite : ∀ v, .constant v ∈ grown.1.preorder → v.isFinite = true

theorem DrawsLeaf.entered {params : Params} {s : σ} {out : Formula × Params × σ}
    (h : DrawsLeaf settings params s out) : Entered params out := by
  cases h with
  | var =>
    exact ⟨List.Subset.refl _, by simp [Expr.mem_parameterNames, Expr.preorder],
      by simp [Expr.preorder]⟩
  | parameter =>
    refine ⟨params.names_subset_insert _ _, fun n hn => ?_, by simp [Expr.preorder]⟩
    obtain rfl : n = freshName params.names := by
      simpa [Expr.mem_parameterNames, Expr.preorder, Params.addFresh] using hn
    exact params.mem_names_insert _ _
  | @constant t u _ value _ hvalue =>
    have hmem : value ∈ constantTable := by
      have hchosen : (RandomSource.choose constantTable (by decide) t).1 ∈ constantTable :=
        RandomSource.choose_mem _ t
      rwa [hvalue] at hchosen
    refine ⟨List.Subset.refl _, by simp [Expr.mem_parameterNames, Expr.preorder], fun v hv => ?_⟩
    obtain rfl : v = value := by simpa [Expr.preorder] using hv
    exact isFinite_of_mem_constantTable v hmem

theorem GrowsTo.entered {budget : Nat} {params : Params} {s : σ} {out : Formula × Params × σ}
    (h : GrowsTo settings budget params s out) : Entered params out := by
  induction h with
  | exhausted | leaf => exact (drawsLeaf_randomLeaf ..).entered
  | unary _ _ _ _ _ _ ih =>
    refine ⟨ih.kept, fun n hn => ih.listed n (Expr.mem_parameterNames_unary.mp hn), fun v hv => ?_⟩
    exact ih.isFinite v (by simpa [Expr.preorder] using hv)
  | binary _ _ _ _ _ _ _ _ _ ihl ihr =>
    refine ⟨fun n hn => ihr.kept (ihl.kept hn), fun n hn => ?_, fun v hv => ?_⟩
    · rcases Expr.mem_parameterNames_binary.mp hn with hn | hn
      · exact ihr.kept (ihl.listed n hn)
      · exact ihr.listed n hn
    · simp only [Expr.preorder, List.mem_cons, reduceCtorEq, List.mem_append, false_or] at hv
      exact hv.elim (ihl.isFinite v) (ihr.isFinite v)

/-! ## Candidates -/

namespace Candidate

theorem entered_generate (settings : Settings) (s : σ) :
    (∀ n ∈ (generate settings s).1.expression.parameterNames,
        n ∈ (generate settings s).1.params.names) ∧
      ∀ v, .constant v ∈ (generate settings s).1.expression.preorder → v.isFinite = true := by
  have hgrown (budget : Nat) (t : σ) := (growsTo_grow settings budget .empty t).entered
  exact ⟨(hgrown _ _).listed, (hgrown _ _).isFinite⟩

/-- A grown candidate can be simplified, to one with finite constants. -/
theorem exists_simplify_generate (settings : Settings) (s : σ) :
    ∃ c, (generate settings s).1.simplify = .ok c ∧
      ∀ v, .constant v ∈ c.expression.preorder → v.isFinite = true := by
  obtain ⟨hlisted, hfinite⟩ := entered_generate settings s
  obtain ⟨values, hvalues⟩ := exists_values hlisted
  refine ⟨_, simplify_eq hvalues, fun v hv => ?_⟩
  exact Expr.isFinite_of_simplify hfinite v (Expr.constant_mem_rename.mp hv)

end Candidate

end

end FormulaSearch
