import FormulaSearch.Proofs.Growth

/-!
# Grown formulas keep to their budget

A formula that is grown within a budget has at most so many operators, and exactly so many if no leaf
comes early, which bounds its size, its depth and the parameters that are entered for it. These stand
behind the parameters entered before, in the order in which they occur in the formula. Each of them occurs
once, under the first canonical name that was free when it was entered.
-/

namespace FormulaSearch

/-! ## Operators of an expression -/

namespace Expr

variable {α : Type}

/-- The number of nodes that are operators. -/
def operators : Expr α → Nat
  | constant _ | var | parameter _ => 0
  | unary _ e => e.operators + 1
  | binary _ l r => l.operators + r.operators + 1

/-- The names of the parameter leaves, from left to right. -/
def occurrences (e : Expr α) : List String := e.nodes.filterMap parameterName?

theorem occurrences_unary (op : UnaryOp) (e : Expr α) :
    (unary op e).occurrences = e.occurrences := by
  rw [occurrences, occurrences, nodes_eq_preorder, nodes_eq_preorder, preorder,
    List.filterMap_cons_none rfl]

theorem occurrences_binary (op : BinaryOp) (l r : Expr α) :
    (binary op l r).occurrences = l.occurrences ++ r.occurrences := by
  simp only [occurrences, nodes_eq_preorder, preorder]
  rw [List.filterMap_cons_none rfl, List.filterMap_append]

/-- Every operator has at most two operands, so a leaf more than operators is the most there can be. -/
theorem count_le_operators (e : Expr α) : e.count ≤ 2 * e.operators + 1 := by
  induction e with
  | constant v | var | parameter n => simp [count, operators]
  | unary op e ih =>
    simp only [count, operators]
    omega
  | binary op l r ihl ihr =>
    simp only [count, operators]
    omega

theorem depth_le_operators (e : Expr α) : e.depth ≤ e.operators + 1 := by
  induction e with
  | constant v | var | parameter n => simp [depth, operators]
  | unary op e ih =>
    simp only [depth, operators]
    omega
  | binary op l r ihl ihr =>
    simp only [depth, operators]
    omega

theorem length_occurrences_le (e : Expr α) : e.occurrences.length ≤ e.operators + 1 := by
  induction e with
  | constant v | var => exact Nat.zero_le _
  | parameter n => exact Nat.le_refl _
  | unary op e ih =>
    rw [occurrences_unary, operators]
    omega
  | binary op l r ihl ihr =>
    rw [occurrences_binary, operators, List.length_append]
    omega

/-- Names that differ are all first occurrences. -/
theorem foldl_firstOccurrences_of_nodup {names seen : List String} (h : (seen ++ names).Nodup) :
    names.foldl (fun seen n => if seen.contains n then seen else seen ++ [n]) seen =
      seen ++ names := by
  induction names generalizing seen with
  | nil => simp
  | cons n names ih =>
    have hnew : n ∉ seen := by
      intro hmem
      rw [List.nodup_append] at h
      exact h.2.2 n hmem n List.mem_cons_self rfl
    rw [List.foldl_cons, if_neg (by simpa using hnew), ih (by simpa using h)]
    simp

theorem parameterNames_of_nodup {e : Expr α} (h : e.occurrences.Nodup) :
    e.parameterNames = e.occurrences := by
  have hnew : ([] ++ e.occurrences).Nodup := by simpa using h
  have := foldl_firstOccurrences_of_nodup hnew
  simpa [parameterNames, firstOccurrences, occurrences] using this

end Expr

/-! ## Entering fresh parameters -/

/-- The name is the first canonical name that is not used. -/
def IsFirstFree (used : List String) (name : String) : Prop :=
  ∃ i, name = canonicalName i ∧ name ∉ used ∧ ∀ j < i, canonicalName j ∈ used

/-- Each of the entries has the first name that is free behind the entries before it. -/
def EnteredFresh (used : List String) (added : List (String × Float)) : Prop :=
  ∀ before entry after, added = before ++ entry :: after →
    IsFirstFree (used ++ before.map Prod.fst) entry.1

theorem enteredFresh_nil (used : List String) : EnteredFresh used [] := by
  intro before entry after h
  simp at h

theorem enteredFresh_singleton {used : List String} {entry : String × Float}
    (h : IsFirstFree used entry.1) : EnteredFresh used [entry] := by
  intro before entry' after heq
  cases before with
  | nil =>
    obtain ⟨rfl, -⟩ := List.cons.inj heq
    simpa using h
  | cons b before => simp at heq

theorem EnteredFresh.append {used : List String} {added more : List (String × Float)}
    (h : EnteredFresh used added) (hmore : EnteredFresh (used ++ added.map Prod.fst) more) :
    EnteredFresh used (added ++ more) := by
  intro before entry after heq
  rcases List.append_eq_append_iff.mp heq with ⟨rest, rfl, hrest⟩ | ⟨rest, rfl, hrest⟩
  · have := hmore rest entry after hrest
    simpa using this
  · cases rest with
    | nil =>
      have := hmore [] entry after (by simpa using hrest.symm)
      simpa using this
    | cons e rest =>
      obtain ⟨rfl, rfl⟩ := List.cons.inj hrest
      exact h before entry rest rfl

theorem Params.exists_addFresh (p : Params) (value : Float) :
    (p.addFresh value).2.entries = p.entries ++ [((p.addFresh value).1, value)] ∧
      IsFirstFree p.names (p.addFresh value).1 := by
  obtain ⟨i, -, hname, hfree, hused⟩ := freshName_cases p.names
  rw [← hname] at hfree
  exact ⟨entries_insert hfree value, i, hname, hfree, hused⟩

/-! ## Growing -/

section

variable {σ : Type} [RandomSource σ] {settings : Settings}

/-- What growing within a budget makes: parameters are entered behind the old ones, each under the first
free name, and they are the ones that occur in the formula, in this order. -/
structure Grown (budget : Nat) (params : Params) (grown : Formula × Params × σ)
    (added : List (String × Float)) : Prop where
  entries_eq : grown.2.1.entries = params.entries ++ added
  fresh : EnteredFresh params.names added
  occurrences_eq : grown.1.occurrences = added.map Prod.fst
  operators_le : grown.1.operators ≤ budget

omit [RandomSource σ] in
theorem Grown.names_eq {budget : Nat} {params : Params} {grown : Formula × Params × σ}
    {added : List (String × Float)} (h : Grown budget params grown added) :
    grown.2.1.names = params.names ++ added.map Prod.fst := by
  rw [Params.names, h.entries_eq, List.map_append]
  rfl

theorem DrawsLeaf.exists_grown {params : Params} {s : σ} {out : Formula × Params × σ}
    (h : DrawsLeaf settings params s out) (budget : Nat) : ∃ added, Grown budget params out added := by
  cases h with
  | var => exact ⟨[], by simp, enteredFresh_nil _, rfl, Nat.zero_le _⟩
  | @parameter _ _ _ value =>
    obtain ⟨hentries, hfree⟩ := params.exists_addFresh value
    exact ⟨_, hentries, enteredFresh_singleton hfree, rfl, Nat.zero_le _⟩
  | constant => exact ⟨[], by simp, enteredFresh_nil _, rfl, Nat.zero_le _⟩

theorem GrowsTo.exists_grown {budget : Nat} {params : Params} {s : σ} {out : Formula × Params × σ}
    (h : GrowsTo settings budget params s out) : ∃ added, Grown budget params out added := by
  induction h with
  | exhausted | leaf => exact (drawsLeaf_randomLeaf ..).exists_grown _
  | unary _ _ _ _ _ _ ih =>
    obtain ⟨added, h⟩ := ih
    refine ⟨added, h.entries_eq, h.fresh, ?_, Nat.succ_le_succ h.operators_le⟩
    rw [Expr.occurrences_unary]
    exact h.occurrences_eq
  | binary _ _ _ _ _ _ hle _ _ ihl ihr =>
    obtain ⟨added, hl⟩ := ihl
    obtain ⟨more, hr⟩ := ihr
    have hoperators := hl.operators_le
    have hoperators' := hr.operators_le
    refine ⟨added ++ more, ?_, ?_, ?_, ?_⟩
    · rw [hr.entries_eq, hl.entries_eq, List.append_assoc]
    · refine hl.fresh.append ?_
      rw [← hl.names_eq]
      exact hr.fresh
    · rw [Expr.occurrences_binary, List.map_append, ← hl.occurrences_eq, ← hr.occurrences_eq]
    · dsimp only [Expr.operators] at hoperators hoperators' ⊢
      omega

/-- Every draw of the source from the unit interval lies in it. -/
def UnitDraws (source : σ) : Prop :=
  ∀ s, Drawn source s → 0.0 ≤ (RandomSource.unit s).1 ∧ (RandomSource.unit s).1 < 1.0

theorem DrawsLeaf.operators_eq {params : Params} {s : σ} {out : Formula × Params × σ}
    (h : DrawsLeaf settings params s out) : out.1.operators = 0 := by
  cases h with
  | var | parameter | constant => rfl

/-- If no leaf comes by chance, growing uses up the whole budget. -/
theorem GrowsTo.operators_eq {source : σ} (hd : UnitDraws source)
    (hleaf : settings.leafProbability ≤ 0.0) {budget : Nat} {params : Params} {s : σ}
    {out : Formula × Params × σ} (h : GrowsTo settings budget params s out) (hs : Drawn source s) :
    out.1.operators = budget := by
  induction h with
  | exhausted => exact (drawsLeaf_randomLeaf ..).operators_eq
  | leaf _ _ hroll hlt =>
    have hnonneg := (hd _ hs).1
    rw [hroll] at hnonneg
    exact absurd (Double.le_trans hleaf hnonneg) (Double.not_le_of_lt hlt)
  | unary hroll _ hroll' _ hop _ ih => exact congrArg (· + 1) (ih (hs.operator hroll hroll' hop))
  | binary hroll _ hroll' _ hop hcut hle hleft _ ihl ihr =>
    have hrest := (hs.operator hroll hroll' hop).of_between hcut
    have hcount := ihl hrest
    have hcount' := ihr (hleft.drawn hrest)
    dsimp only [Expr.operators] at hcount hcount' ⊢
    omega

/-- A formula grown within a budget has at most so many operators, and exactly so many if no leaf comes by
chance; a negative budget is none. The old parameters stay where they are. Behind them stand the ones that
occur in the formula, in the order in which they occur and each once, under the first names that were
free. -/
theorem generate_keeps_budget (settings : Settings) (budget : Int) (params : Params) (source : σ) :
    let grown := generate settings budget params source
    ∃ added : List (String × Float),
      grown.2.1.entries = params.entries ++ added ∧
      grown.1.parameterNames = added.map Prod.fst ∧
      (∀ name ∈ added.map Prod.fst, grown.1.occurrences.count name = 1) ∧
      EnteredFresh params.names added ∧
      (grown.1.operators : Int) ≤ max budget 0 ∧
      (settings.leafProbability ≤ 0.0 → UnitDraws source →
        (grown.1.operators : Int) = max budget 0) ∧
      (grown.1.count : Int) ≤ 2 * max budget 0 + 1 ∧
      (grown.1.depth : Int) ≤ max budget 0 + 1 ∧
      (added.length : Int) ≤ max budget 0 + 1 := by
  intro grown
  have hgrows := growsTo_grow settings budget.toNat params source
  obtain ⟨added, h⟩ := hgrows.exists_grown
  have hoccurrences : grown.1.occurrences = added.map Prod.fst := h.occurrences_eq
  have hoperators : grown.1.operators ≤ budget.toNat := h.operators_le
  -- the names of all parameters differ, so those of the new ones do
  have hnodup : grown.1.occurrences.Nodup := by
    have hall : (params.names ++ added.map Prod.fst).Nodup := h.names_eq ▸ grown.2.1.distinct
    rw [hoccurrences]
    exact (List.nodup_append.mp hall).2.1
  have hcount := grown.1.count_le_operators
  have hdepth := grown.1.depth_le_operators
  have hlength : added.length ≤ grown.1.operators + 1 := by
    have := grown.1.length_occurrences_le
    rwa [hoccurrences, List.length_map] at this
  refine ⟨added, h.entries_eq, ?_, ?_, h.fresh, by omega, ?_, by omega, by omega, by omega⟩
  · rw [Expr.parameterNames_of_nodup hnodup, hoccurrences]
  · intro name hname
    exact List.count_eq_one_of_mem hnodup (hoccurrences ▸ hname)
  · intro hleaf hd
    have : grown.1.operators = budget.toNat := hgrows.operators_eq hd hleaf .start
    omega

/-- Three operators for a source that always draws a half, with the name `a` taken. -/
theorem generate_keeps_budget_half :
    let settings : Settings := { leafProbability := 0.0 }
    let params := Params.empty.insert "a" 1.0
    let source := ScriptedDraws.ofList [0.5]
    settings.leafProbability ≤ 0.0 ∧ UnitDraws source ∧
      (generate settings 3 params source).1.operators = 3 ∧
      "a" ∉ (generate settings 3 params source).1.parameterNames := by
  intro settings params source
  have hleaf : settings.leafProbability ≤ 0.0 := by decide +kernel
  have hd : UnitDraws source := by
    intro s hs
    rcases drawn_singleton hs with rfl | rfl
    · decide +kernel
    · decide +kernel
  obtain ⟨added, -, hnames, -, hfresh, -, hexact, -⟩ := generate_keeps_budget settings 3 params source
  have hoperators := hexact hleaf hd
  refine ⟨hleaf, hd, by omega, ?_⟩
  rw [hnames]
  intro hmem
  obtain ⟨entry, hentry, hname⟩ := List.mem_map.mp hmem
  obtain ⟨before, after, heq⟩ := List.append_of_mem hentry
  obtain ⟨i, -, hfree, -⟩ := hfresh before entry after heq
  rw [hname] at hfree
  exact hfree (List.mem_append_left _ (by decide))

end

end FormulaSearch
