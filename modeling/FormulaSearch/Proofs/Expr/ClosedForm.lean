import FormulaSearch.Proofs.Candidate
import FormulaSearch.Proofs.Expr.Occurrence
import FormulaSearch.Proofs.Expr.RoundTrip

/-!
# The closed form of a candidate

Putting its value in the place of each parameter leaves a formula without parameters that has the values of
the candidate everywhere. If all these numbers are finite, the closed text is the text of that formula, and
it is read back with the signs of constants folded, which changes no value.
-/

namespace FormulaSearch

namespace Expr

/-! ## Values in the place of parameters -/

/-- The second formula has constants with a property, no parameter, and the values that the first one has
under the assignment. -/
structure Closes (P : Float → Prop) (p : Assignment) (e e' : Formula) : Prop where
  constants : ∀ v, constant v ∈ e'.preorder → P v
  closed : ∀ n, parameter n ∉ e'.preorder
  column_eq : ∀ q x, e'.column q x = e.column p x

section

variable {P : Float → Prop} {p : Assignment}

theorem closes_constant {v : Float} (h : P v) : Closes P p (constant v) (constant v) where
  constants w hw := by
    obtain rfl : w = v := by simpa [preorder] using hw
    exact h
  closed n := by simp [preorder]
  column_eq _ _ := rfl

theorem closes_var : Closes P p var var := ⟨by simp [preorder], by simp [preorder], fun _ _ => rfl⟩

theorem closes_parameter {n : String} {v : Float} (hn : p n = some v) (h : P v) :
    Closes P p (parameter n) (constant v) where
  constants := (closes_constant (p := p) h).constants
  closed := (closes_constant (p := p) h).closed
  column_eq q x := by rw [column, column, Assignment.value, hn]; rfl

theorem Closes.unary {e e' : Formula} (op : UnaryOp) (h : Closes P p e e') :
    Closes P p (.unary op e) (.unary op e') where
  constants v hv := h.constants v (by simpa [preorder] using hv)
  closed n := by simpa [preorder] using h.closed n
  column_eq q x := by rw [column, column, h.column_eq]

theorem Closes.binary {l l' r r' : Formula} (op : BinaryOp) (hl : Closes P p l l')
    (hr : Closes P p r r') : Closes P p (.binary op l r) (.binary op l' r') where
  constants v hv := by
    simp only [preorder, List.mem_cons, reduceCtorEq, List.mem_append, false_or] at hv
    exact hv.elim (hl.constants v) (hr.constants v)
  closed n := by simpa [preorder] using ⟨hl.closed n, hr.closed n⟩
  column_eq q x := by rw [column, column, hl.column_eq, hr.column_eq]

/-- A formula whose parameters have values can be closed. -/
theorem exists_close {e : Formula} (hc : ∀ v, constant v ∈ e.preorder → P v)
    (hv : ∀ n ∈ e.parameterNames, ∃ v, p n = some v ∧ P v) :
    ∃ e', e.close p = .ok e' ∧ Closes P p e e' := by
  induction e with
  | constant v => exact ⟨_, rfl, closes_constant (hc v (List.mem_singleton_self _))⟩
  | var => exact ⟨_, rfl, closes_var⟩
  | parameter n =>
    obtain ⟨v, hn, h⟩ := hv n (mem_parameterNames.mpr (List.mem_singleton_self _))
    exact ⟨_, by rw [close, Assignment.value, hn]; rfl, closes_parameter hn h⟩
  | unary op e ih =>
    obtain ⟨e', he, hcloses⟩ := ih (fun v h => hc v (List.mem_cons_of_mem _ h))
      fun n hn => hv n (mem_parameterNames_unary.mpr hn)
    exact ⟨_, by rw [close, he]; rfl, hcloses.unary op⟩
  | binary op l r ihl ihr =>
    obtain ⟨l', hl, hcl⟩ := ihl
      (fun v h => hc v (List.mem_cons_of_mem _ (List.mem_append_left _ h)))
      fun n hn => hv n (mem_parameterNames_binary.mpr (.inl hn))
    obtain ⟨r', hr, hcr⟩ := ihr
      (fun v h => hc v (List.mem_cons_of_mem _ (List.mem_append_right _ h)))
      fun n hn => hv n (mem_parameterNames_binary.mpr (.inr hn))
    exact ⟨_, by rw [close, hl, hr]; rfl, hcl.binary op hcr⟩

end

theorem occurring_negate (e : Formula) : (negate e).occurring = e.occurring := by
  cases e <;> rfl

/-- Folding signs keeps the parameters in their places. -/
theorem occurring_foldSigns (e : Formula) : e.foldSigns.occurring = e.occurring := by
  induction e with
  | constant v | var | parameter m => rfl
  | unary op e ih =>
    by_cases hop : op = .neg
    · subst hop
      rw [foldSigns, occurring_negate, ih, occurring_unary]
    · rw [foldSigns_unary hop, occurring_unary, occurring_unary, ih]
  | binary op l r ihl ihr =>
    rw [foldSigns, occurring_binary, occurring_binary, ihl, ihr]

theorem parameterNames_foldSigns (e : Formula) : e.foldSigns.parameterNames = e.parameterNames := by
  rw [parameterNames_eq, occurring_foldSigns, parameterNames_eq]

end Expr

/-! ## Candidates -/

namespace Candidate

/-- A candidate that lists the parameters of its formula has a closed text. -/
theorem exists_closedText {c : Candidate}
    (h : ∀ n ∈ c.expression.parameterNames, n ∈ c.params.names) :
    ∃ text, c.closedText = .ok text := by
  have hvalues (n : String) (hn : n ∈ c.expression.parameterNames) :
      ∃ v, c.params.assignment n = some v ∧ True := by
    simpa using Params.exists_assignment (h n hn)
  obtain ⟨e, he, -⟩ := Expr.exists_close (P := fun _ => True) (fun _ _ => trivial) hvalues
  exact ⟨_, by rw [closedText, Expr.closedText, he]; rfl⟩

/-- The constants of the formula are finite, and every parameter in it has a finite value. -/
structure AllFinite (c : Candidate) : Prop where
  constants : ∀ v, .constant v ∈ c.expression.preorder → v.isFinite = true
  values : ∀ n ∈ c.expression.parameterNames,
    ∃ v, c.params.assignment n = some v ∧ v.isFinite = true

/-- The closed text is read as a formula without parameters that has the candidate's values. -/
def ReadsBack (c : Candidate) (text : String) : Prop :=
  ∃ e, parse text = .ok e ∧ e.parameterNames = [] ∧
    (∀ p x, e.evaluate p x = c.evaluate x) ∧ ∀ p xs, e.evaluateAll p xs = c.evaluateAll xs

/-- A candidate of finite numbers has a closed text, which is read back. -/
theorem AllFinite.readsBack {c : Candidate} (h : c.AllFinite) :
    ∃ text, c.closedText = .ok text ∧ c.ReadsBack text := by
  obtain ⟨e, he, hcloses⟩ := Expr.exists_close h.constants h.values
  have hprintable : Printable e := ⟨hcloses.constants, fun n hn => absurd hn (hcloses.closed n)⟩
  have hparse := parse_render (fun v hv => Decimal.constantText_readsAs true hv) hprintable
  refine ⟨e.render (constantText true) true, by rw [closedText, Expr.closedText, he]; rfl,
    e.foldSigns, hparse, ?_, fun p x => ?_, fun p xs => ?_⟩
  · rw [Expr.parameterNames_foldSigns]
    refine List.eq_nil_iff_forall_not_mem.mpr fun n hn => ?_
    exact hcloses.closed n (Expr.mem_parameterNames.mp hn)
  · rw [evaluate, Expr.evaluate, Expr.evaluate, Expr.column_foldSigns, hcloses.column_eq]
  · rw [evaluateAll, Expr.evaluateAll, Expr.evaluateAll, Expr.column_foldSigns,
      hcloses.column_eq]

end Candidate

end FormulaSearch
