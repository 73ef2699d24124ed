import FormulaSearch.Proofs.Candidate
import FormulaSearch.Proofs.Expr.Leaves
import FormulaSearch.Proofs.Expr.Renaming

/-!
# Canonical candidates

The simplification of a candidate gives its parameters the first canonical names, in the order of their
first occurrence, and keeps their values. It succeeds whenever every parameter of the formula has a value,
whatever the old names are, and a second simplification changes nothing.
-/

namespace FormulaSearch

/-! ## Canonical names -/

theorem nodup_canonicalNames (count : Nat) : (canonicalNames count).Nodup :=
  List.Nodup.map (fun _ _ => canonicalName_injective) List.nodup_range

namespace Candidate

/-- Canonical names stay as they are. -/
theorem canonicalRenaming_canonicalNames (count : Nat) :
    canonicalRenaming (canonicalNames count) = id := by
  funext name
  rw [canonicalRenaming]
  split
  · rename_i i hi
    obtain ⟨hlt, hname, -⟩ := List.idxOf?_eq_some_iff.mp hi
    rw [← getElem_canonicalNames hlt]
    exact hname
  · rfl

/-! ## Parameters under canonical names -/

/-- Parameters with the first canonical names and some values. -/
def canonicalParams (values : List Float) : Params :=
  ((canonicalNames values.length).zip values).foldl (fun p (n, v) => p.insert n v) .empty

theorem entries_canonicalParams (values : List Float) :
    (canonicalParams values).entries = (canonicalNames values.length).zip values := by
  have hnames : ((canonicalNames values.length).zip values).map Prod.fst =
      canonicalNames values.length :=
    List.map_fst_zip (by rw [length_canonicalNames])
  exact Params.entries_ofEntries (by rw [hnames]; exact nodup_canonicalNames _)

theorem names_canonicalParams (values : List Float) :
    (canonicalParams values).names = canonicalNames values.length := by
  rw [Params.names, entries_canonicalParams]
  exact List.map_fst_zip (by rw [length_canonicalNames])

theorem assignment_canonicalParams {values : List Float} {i : Nat} (h : i < values.length) :
    (canonicalParams values).assignment (canonicalName i) = some values[i] := by
  have hi : i < (canonicalNames values.length).length := by rwa [length_canonicalNames]
  refine Params.assignment_of_mem ?_
  rw [entries_canonicalParams, List.mem_iff_getElem]
  exact ⟨i, by simpa using ⟨hi, h⟩, by rw [List.getElem_zip, getElem_canonicalNames hi]⟩

theorem map_assignment_canonicalParams (values : List Float) :
    (canonicalNames values.length).map (canonicalParams values).assignment = values.map some := by
  refine List.ext_getElem (by simp [length_canonicalNames]) fun i _ hi => ?_
  have hi : i < values.length := by simpa using hi
  rw [List.getElem_map, List.getElem_map, getElem_canonicalNames, assignment_canonicalParams hi]

theorem mapM_renamed_eq {p : Assignment} {names : List String} {values : List Float} (first : Nat)
    (h : names.map p = values.map some) :
    (names.zipIdx first).mapM (fun (name, i) => (p.value name).map (canonicalName i, ·)) =
      .ok (((List.range' first values.length).map canonicalName).zip values) := by
  induction names generalizing values first with
  | nil =>
    cases values with
    | nil => rfl
    | cons v values => cases h
  | cons name names ih =>
    cases values with
    | nil => cases h
    | cons v values =>
      rw [List.map_cons, List.map_cons, List.cons.injEq] at h
      have hvalue : p.value name = .ok v := by rw [Assignment.value, h.1]
      rw [List.zipIdx_cons, List.mapM_cons, ih (first + 1) h.2]
      dsimp only
      rw [hvalue]
      rfl

/-- What simplification makes of a candidate whose remaining parameters have values. -/
theorem simplify_eq {c : Candidate} {values : List Float}
    (h : c.expression.simplify.parameterNames.map c.params.assignment = values.map some) :
    c.simplify = .ok
      ⟨c.expression.simplify.rename (canonicalRenaming c.expression.simplify.parameterNames),
        canonicalParams values⟩ := by
  have hentries : renamedEntries c.params.assignment c.expression.simplify.parameterNames =
      .ok ((canonicalNames values.length).zip values) := by
    rw [renamedEntries, mapM_renamed_eq 0 h, canonicalNames, List.range_eq_range']
  rw [simplify, hentries]
  rfl

/-- If the parameters of a formula are all listed, those that are left have values. -/
theorem exists_values {c : Candidate} (h : ∀ n ∈ c.expression.parameterNames, n ∈ c.params.names) :
    ∃ values : List Float,
      c.expression.simplify.parameterNames.map c.params.assignment = values.map some := by
  refine ⟨c.expression.simplify.parameterNames.map fun n => (c.params.assignment n).getD 0.0, ?_⟩
  rw [List.map_map]
  refine List.map_congr_left fun n hn => ?_
  have hoccurs := Expr.parameter_of_simplify (Expr.mem_parameterNames.mp hn)
  obtain ⟨v, hv⟩ := Params.exists_assignment (h n (Expr.mem_parameterNames.mpr hoccurs))
  simp [hv]

/-! ## Formulas under canonical names -/

section

variable {e : Formula}

theorem parameterNames_canonical (e : Formula) :
    (e.rename (canonicalRenaming e.parameterNames)).parameterNames =
      canonicalNames e.parameterNames.length := by
  rw [Expr.parameterNames_rename (canonicalRenaming_injective e.nodup_parameterNames),
    map_canonicalRenaming e.nodup_parameterNames]

/-- Under canonical names a formula has the values that it had before. -/
theorem column_canonical {p : Assignment} {values : List Float}
    (h : e.parameterNames.map p = values.map some) (x : Column) :
    (e.rename (canonicalRenaming e.parameterNames)).column (canonicalParams values).assignment x =
      e.column p x := by
  refine Expr.column_rename (fun n hn => ?_) x
  obtain ⟨i, hi, rfl⟩ := List.mem_iff_getElem.mp hn
  have hlength : e.parameterNames.length = values.length := by
    simpa using congrArg List.length h
  have hlt : i < values.length := hlength ▸ hi
  have hvalue : p e.parameterNames[i] = some values[i] := by
    have := congrArg (·[i]?) h
    simpa [List.getElem?_eq_getElem hi, List.getElem?_eq_getElem hlt] using this
  rw [canonicalRenaming_getElem e.nodup_parameterNames hi, Assignment.value, Assignment.value,
    hvalue, assignment_canonicalParams hlt]

/-- A simplified formula under canonical names, with values for its parameters, stays as it is. -/
theorem simplify_canonical_eq {values : List Float} (he : e.simplify = e)
    (hlength : e.parameterNames.length = values.length) :
    simplify ⟨e.rename (canonicalRenaming e.parameterNames), canonicalParams values⟩ =
      .ok ⟨e.rename (canonicalRenaming e.parameterNames), canonicalParams values⟩ := by
  have hsimplify : (e.rename (canonicalRenaming e.parameterNames)).simplify =
      e.rename (canonicalRenaming e.parameterNames) := by
    rw [Expr.simplify_rename, he]
  have hnames := parameterNames_canonical e
  generalize e.rename (canonicalRenaming e.parameterNames) = renamed at hsimplify hnames ⊢
  rw [hlength] at hnames
  have hvalues : renamed.simplify.parameterNames.map (canonicalParams values).assignment =
      values.map some := by
    rw [hsimplify, hnames, map_assignment_canonicalParams]
  rw [simplify_eq hvalues]
  dsimp only
  rw [hsimplify, hnames, canonicalRenaming_canonicalNames, Expr.rename_id]

end

/-! ## Simplified candidates -/

/-- A candidate that lists the parameters of its formula is simplified to one that lists exactly the
parameters of its own: the first canonical names, one for each parameter that is left of the original.
It is the simplified formula under other names, has its values everywhere, and is not changed by a second
simplification. -/
theorem simplify_canonical {c : Candidate}
    (h : ∀ n ∈ c.expression.parameterNames, n ∈ c.params.names) :
    ∃ s, c.simplify = .ok s ∧
      s.params.names = s.expression.parameterNames ∧
      s.expression.parameterNames =
        canonicalNames c.expression.simplify.parameterNames.length ∧
      c.expression.simplify.parameterNames.length ≤ c.expression.parameterNames.length ∧
      (∃ f, Set.InjOn f {n | n ∈ c.expression.simplify.parameterNames} ∧
        s.expression = c.expression.simplify.rename f) ∧
      (∀ x, s.evaluate x = c.expression.simplify.evaluate c.params.assignment x) ∧
      (∀ xs, s.evaluateAll xs = c.expression.simplify.evaluateAll c.params.assignment xs) ∧
      s.simplify = .ok s := by
  obtain ⟨values, hvalues⟩ := exists_values h
  have hlength : c.expression.simplify.parameterNames.length = values.length := by
    simpa using congrArg List.length hvalues
  have hnames := parameterNames_canonical c.expression.simplify
  refine ⟨_, simplify_eq hvalues, ?_, hnames, ?_, ⟨_, ?_, rfl⟩, fun x => ?_, fun xs => ?_, ?_⟩
  · rw [names_canonicalParams, hnames, hlength]
  · exact Expr.length_parameterNames_le fun n => Expr.parameter_of_simplify
  · exact fun m hm n hn =>
      canonicalRenaming_injective c.expression.simplify.nodup_parameterNames m hm n hn
  · rw [evaluate, Expr.evaluate, Expr.evaluate, column_canonical hvalues]
  · rw [evaluateAll, Expr.evaluateAll, Expr.evaluateAll, column_canonical hvalues]
  · exact simplify_canonical_eq (Expr.simplify_simplify _) hlength

/-- The formula `b / (a - 0)`, whose parameters exchange their names, with an unused parameter. -/
theorem simplify_exchanged :
    let c : Candidate :=
      ⟨.binary .div (.parameter "b") (.binary .sub (.parameter "a") (.constant 0.0)),
        ((Params.empty.insert "a" 1.0).insert "c" 3.0).insert "b" 2.0⟩
    (∀ n ∈ c.expression.parameterNames, n ∈ c.params.names) ∧
      ∃ s, c.simplify = .ok s ∧ s.params.names = ["a", "b"] ∧ s.simplify = .ok s := by
  intro c
  have h : ∀ n ∈ c.expression.parameterNames, n ∈ c.params.names := by decide +kernel
  obtain ⟨s, hs, hnames, hcanonical, -, -, -, -, hagain⟩ := simplify_canonical h
  refine ⟨h, s, hs, ?_, hagain⟩
  rw [hnames, hcanonical]
  decide +kernel

end Candidate

end FormulaSearch
