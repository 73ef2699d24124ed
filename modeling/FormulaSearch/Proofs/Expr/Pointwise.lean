import FormulaSearch.Proofs.Expr.Occurrence

/-!
# Evaluation at many points

The column of a formula at many samples is the table of its values at each of them, or one value that stands
for all. Only a power looks at how its exponent is given. If no exponent contains the variable, each is a
single value at one sample and at many, so evaluation at many points is evaluation at each point.
-/

namespace FormulaSearch

/-! ## Tables -/

namespace Column

/-- The column is the table of a function at the samples; one value stands for a function that has no other
there. -/
inductive Tabulates (f : Float → Float) (xs : List Float) : Column → Prop where
  | single {v : Float} (h : ∀ x ∈ xs, f x = v) : Tabulates f xs (.single v)
  | many : Tabulates f xs (.many (xs.map f))

variable {f g : Float → Float} {xs : List Float} {a b : Column}

theorem Tabulates.spread_eq (h : a.Tabulates f xs) : a.spread xs.length = xs.map f := by
  cases h with
  | single h => exact (List.map_eq_replicate_iff.mpr h).symm
  | many => rfl

theorem Tabulates.map (h : a.Tabulates f xs) (k : Float → Float) :
    (a.map k).Tabulates (fun x => k (f x)) xs := by
  cases h with
  | single h => exact .single fun x hx => congrArg k (h x hx)
  | many =>
    rw [Column.map, List.map_map]
    exact .many

theorem Tabulates.zipWith (ha : a.Tabulates f xs) (hb : b.Tabulates g xs)
    (k : Float → Float → Float) : (zipWith k a b).Tabulates (fun x => k (f x) (g x)) xs := by
  cases ha with
  | single ha =>
    cases hb with
    | single hb => exact .single fun x hx => congrArg₂ k (ha x hx) (hb x hx)
    | many =>
      rw [Column.zipWith, List.map_map, List.map_congr_left fun x hx => ?_]
      · exact .many
      · exact congrArg (k · (g x)) (ha x hx).symm
  | many =>
    cases hb with
    | single hb =>
      rw [Column.zipWith, List.map_map, List.map_congr_left fun x hx => ?_]
      · exact .many
      · exact congrArg (k (f x)) (hb x hx).symm
    | many =>
      rw [Column.zipWith, List.zipWith_map, List.zipWith_self]
      exact .many

end Column

theorem BinaryOp.apply_of_ne_pow {op : BinaryOp} (h : op ≠ .pow) (single : Bool) :
    op.apply single = op.apply true := by
  cases op <;> first | rfl | exact absurd rfl h

namespace Expr

/-! ## Formulas without the variable in an exponent -/

/-- No exponent contains the variable. -/
def FixedExponents (e : Formula) : Prop := ∀ l r, binary .pow l r ∈ e.preorder → var ∉ r.preorder

theorem FixedExponents.child {op : UnaryOp} {e : Formula} (h : (unary op e).FixedExponents) :
    e.FixedExponents :=
  fun l r hmem => h l r (List.mem_cons_of_mem _ hmem)

theorem FixedExponents.left {op : BinaryOp} {l r : Formula} (h : (binary op l r).FixedExponents) :
    l.FixedExponents :=
  fun l' r' hmem => h l' r' (List.mem_cons_of_mem _ (List.mem_append_left _ hmem))

theorem FixedExponents.right {op : BinaryOp} {l r : Formula} (h : (binary op l r).FixedExponents) :
    r.FixedExponents :=
  fun l' r' hmem => h l' r' (List.mem_cons_of_mem _ (List.mem_append_right _ hmem))

/-- A formula without the variable has the same values at all samples. -/
theorem column_of_no_var {e : Formula} (h : var ∉ e.preorder) (p : Assignment) (x y : Column) :
    e.column p x = e.column p y := by
  induction e with
  | constant v | parameter n => rfl
  | var => exact absurd (List.mem_singleton_self _) h
  | unary op e ih => rw [column, column, ih fun hmem => h (List.mem_cons_of_mem _ hmem)]
  | binary op l r ihl ihr =>
    rw [column, column,
      ihl fun hmem => h (List.mem_cons_of_mem _ (List.mem_append_left _ hmem)),
      ihr fun hmem => h (List.mem_cons_of_mem _ (List.mem_append_right _ hmem))]

/-- The values at single samples are those of a function, and at many samples its table. -/
theorem exists_tabulates {p : Assignment} {e : Formula} (hfixed : e.FixedExponents)
    (hcovered : ∀ n ∈ e.parameterNames, ∃ v, p n = some v) (xs : List Float) :
    ∃ f : Float → Float, (∀ x, e.column p (.single x) = .ok (.single (f x))) ∧
      ∃ c, e.column p (.many xs) = .ok c ∧ c.Tabulates f xs := by
  induction e with
  | constant v => exact ⟨fun _ => v, fun _ => rfl, _, rfl, .single fun _ _ => rfl⟩
  | var =>
    refine ⟨id, fun _ => rfl, .many (xs.map id), ?_, .many⟩
    rw [List.map_id]
    rfl
  | parameter n =>
    obtain ⟨v, hv⟩ := hcovered n (mem_parameterNames.mpr (List.mem_singleton_self _))
    have hcolumn (x : Column) : (parameter n).column p x = .ok (.single v) := by
      rw [column, Assignment.value, hv]
      rfl
    exact ⟨fun _ => v, fun x => hcolumn (.single x), _, hcolumn _, .single fun _ _ => rfl⟩
  | unary op e ih =>
    obtain ⟨f, hf, c, hc, htable⟩ := ih hfixed.child fun n hn =>
      hcovered n (mem_parameterNames_unary.mpr hn)
    refine ⟨fun x => op.apply (f x), fun x => ?_, c.map op.apply, ?_, htable.map _⟩
    · rw [column, hf]
      rfl
    · rw [column, hc]
      rfl
  | binary op l r ihl ihr =>
    obtain ⟨f, hf, a, ha, hleft⟩ := ihl hfixed.left fun n hn =>
      hcovered n (mem_parameterNames_binary.mpr (.inl hn))
    obtain ⟨g, hg, b, hb, hright⟩ := ihr hfixed.right fun n hn =>
      hcovered n (mem_parameterNames_binary.mpr (.inr hn))
    refine ⟨fun x => op.apply true (f x) (g x), fun x => ?_, .combine op a b, ?_, ?_⟩
    · rw [column, hf, ok_bind, hg]
      rfl
    · rw [column, ha, ok_bind, hb]
      rfl
    · -- at many samples, too, the exponent of a power is a single value
      have hsame : op.apply b.isSingle = op.apply true := by
        by_cases hop : op = .pow
        · subst hop
          have hexponent := hfixed l r List.mem_cons_self
          rw [column_of_no_var hexponent p _ (.single 0.0), hg] at hb
          cases hb
          rfl
        · exact BinaryOp.apply_of_ne_pow hop _
      rw [Column.combine, hsame]
      exact hleft.zipWith hright _

/-- Evaluation at many points gives as many values, each of which is the value at its point, if no exponent
contains the variable and every parameter of the formula has a value. A formula without the variable has the
same value at all of them. -/
theorem evaluateAll_pointwise {e : Formula} {p : Assignment}
    (hfixed : ∀ l r, binary .pow l r ∈ e.preorder → var ∉ r.preorder)
    (hcovered : ∀ n ∈ e.parameterNames, ∃ v, p n = some v) (xs : List Float) :
    ∃ values, e.evaluateAll p xs = .ok values ∧ values.length = xs.length ∧
      (∀ i (hx : i < xs.length) (hv : i < values.length),
        e.evaluate p xs[i] = .ok values[i]) ∧
      (var ∉ e.preorder → ∃ v, values = List.replicate xs.length v) := by
  obtain ⟨f, hf, c, hc, htable⟩ := exists_tabulates hfixed hcovered xs
  refine ⟨xs.map f, ?_, List.length_map _, fun i hx hv => ?_, fun hvar => ⟨f 0.0, ?_⟩⟩
  · rw [evaluateAll, hc, Except.map, htable.spread_eq]
  · rw [evaluate, hf, List.getElem_map]
    rfl
  · refine List.map_eq_replicate_iff.mpr fun x _ => ?_
    have hsame := column_of_no_var hvar p (.single x) (.single 0.0)
    rw [hf, hf] at hsame
    exact Column.single.inj (Except.ok.inj hsame)

/-- The parabola `a * x ^ 2` at two samples, where its base is not a single value but its exponent is. -/
theorem evaluateAll_pointwise_square :
    let e : Formula := .binary .mul (.parameter "a") (.binary .pow .var (.constant 2.0))
    let p : Assignment := fun n => [("a", -3.0)].lookup n
    (∀ l r, binary .pow l r ∈ e.preorder → var ∉ r.preorder) ∧
      (∀ n ∈ e.parameterNames, ∃ v, p n = some v) ∧
      e.evaluateAll p [2.0, -0.5] = .ok [-12.0, -0.75] ∧ e.evaluate p 2.0 = .ok (-12.0) ∧
      e.evaluate p (-0.5) = .ok (-0.75) := by
  intro e p
  have hfixed : ∀ l r, binary .pow l r ∈ e.preorder → var ∉ r.preorder := by
    intro l r hmem
    obtain ⟨-, rfl⟩ : l = var ∧ r = constant 2.0 := by simpa [e, preorder] using hmem
    simp [preorder]
  have hcovered : ∀ n ∈ e.parameterNames, ∃ v, p n = some v := by
    intro n hn
    obtain rfl : n = "a" := by simpa [e, mem_parameterNames, preorder] using hn
    exact ⟨-3.0, rfl⟩
  obtain ⟨values, hvalues, -, hpoints, -⟩ := evaluateAll_pointwise hfixed hcovered [2.0, -0.5]
  have htable : (e.evaluateAll p [2.0, -0.5]).toOption = some [-12.0, -0.75] := by decide +kernel
  rw [hvalues] at htable
  obtain rfl : values = [-12.0, -0.75] := Option.some.inj htable
  exact ⟨hfixed, hcovered, hvalues, hpoints 0 (by decide) (by decide),
    hpoints 1 (by decide) (by decide)⟩

end Expr

end FormulaSearch
