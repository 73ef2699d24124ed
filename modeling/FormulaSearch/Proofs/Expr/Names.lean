import FormulaSearch.CanonicalName
import FormulaSearch.Expr.Basic

/-!
# Names of parameters

The canonical names are distinct, a formula lists each parameter once, and renaming the parameters of a
formula renames the list, as long as no two of them get the same name.
-/

namespace FormulaSearch

/-! ## Canonical names -/

theorem toString_injective {m n : Nat} (h : toString m = toString n) : m = n := by
  have hlists : Nat.toDigits 10 m = Nat.toDigits 10 n := by
    simpa only [Nat.toString_eq_repr, Nat.toList_repr] using congrArg String.toList h
  have hvalues := congrArg (Nat.ofDigitChars 10 · 0) hlists
  simpa only [Nat.ofDigitChars_ten_toDigits] using hvalues

theorem nameSuffix_injective {m n : Nat} (h : nameSuffix m = nameSuffix n) : m = n := by
  have hne (k : Nat) : toString k ≠ "" := by
    intro hk
    have := congrArg String.toList hk
    simp [Nat.toString_eq_repr] at this
  simp only [nameSuffix] at h
  split at h <;> split at h
  · omega
  · exact absurd h.symm (hne n)
  · exact absurd h (hne m)
  · exact toString_injective h

theorem nameLetters_injective {i j : Nat} (hi : i < nameLetters.length)
    (hj : j < nameLetters.length) (h : nameLetters.getD i 'a' = nameLetters.getD j 'a') : i = j := by
  have hnodup : nameLetters.Nodup := by decide
  simp only [List.getD_eq_getElem?_getD, List.getElem?_eq_getElem hi, List.getElem?_eq_getElem hj,
    Option.getD_some] at h
  exact (List.getElem_inj hnodup).mp h

/-- No two places have the same canonical name. -/
theorem canonicalName_injective {i j : Nat} (h : canonicalName i = canonicalName j) : i = j := by
  have hlists := congrArg String.toList h
  simp only [canonicalName, String.toList_append, Char.toString, String.toList_singleton,
    List.singleton_append, List.cons.injEq] at hlists
  obtain ⟨hletter, hsuffix⟩ := hlists
  have hmod := nameLetters_injective (Nat.mod_lt _ (by decide)) (Nat.mod_lt _ (by decide)) hletter
  have hdiv := nameSuffix_injective (String.toList_inj.mp hsuffix)
  rw [← Nat.div_add_mod i nameLetters.length, hmod, hdiv, Nat.div_add_mod]

theorem length_canonicalNames (count : Nat) : (canonicalNames count).length = count := by
  simp [canonicalNames]

theorem getElem_canonicalNames {count i : Nat} (h : i < (canonicalNames count).length) :
    (canonicalNames count)[i] = canonicalName i := by
  simp [canonicalNames]

namespace Expr

variable {α : Type}

/-! ## First occurrences -/

/-- What is collected behind some names already seen. -/
theorem foldl_firstOccurrences (names seen : List String) (hseen : seen.Nodup) :
    (names.foldl (fun seen n => if seen.contains n then seen else seen ++ [n]) seen).Nodup ∧
      ∀ n, n ∈ names.foldl (fun seen n => if seen.contains n then seen else seen ++ [n]) seen ↔
        n ∈ seen ∨ n ∈ names := by
  induction names generalizing seen with
  | nil => simp [hseen]
  | cons m names ih =>
    rw [List.foldl_cons]
    split
    · rename_i hm
      obtain ⟨hnodup, hmem⟩ := ih seen hseen
      have hm : m ∈ seen := by simpa using hm
      refine ⟨hnodup, fun n => ?_⟩
      rw [hmem, List.mem_cons]
      constructor
      · rintro (h | h)
        · exact .inl h
        · exact .inr (.inr h)
      · rintro (h | rfl | h)
        · exact .inl h
        · exact .inl hm
        · exact .inr h
    · rename_i hm
      have hm : m ∉ seen := by simpa using hm
      obtain ⟨hnodup, hmem⟩ := ih (seen ++ [m]) (by
        rw [List.nodup_append]
        exact ⟨hseen, by simp, by simp; intro a ha; rintro rfl; exact hm ha⟩)
      refine ⟨hnodup, fun n => ?_⟩
      rw [hmem, List.mem_append, List.mem_singleton, List.mem_cons, or_assoc]

theorem nodup_firstOccurrences (names : List String) : (firstOccurrences names).Nodup :=
  (foldl_firstOccurrences names [] List.nodup_nil).1

theorem mem_firstOccurrences {names : List String} {n : String} :
    n ∈ firstOccurrences names ↔ n ∈ names := by
  rw [firstOccurrences, (foldl_firstOccurrences names [] List.nodup_nil).2]
  simp

/-- Names that are renamed apart keep their first occurrences. -/
theorem foldl_firstOccurrences_map {f : String → String} (names seen : List String)
    (hf : ∀ m ∈ seen ++ names, ∀ n ∈ seen ++ names, f m = f n → m = n) :
    (names.map f).foldl (fun seen n => if seen.contains n then seen else seen ++ [n]) (seen.map f) =
      (names.foldl (fun seen n => if seen.contains n then seen else seen ++ [n]) seen).map f := by
  induction names generalizing seen with
  | nil => rfl
  | cons m names ih =>
    rw [List.map_cons, List.foldl_cons, List.foldl_cons]
    have hmem : f m ∈ seen.map f ↔ m ∈ seen := by
      constructor
      · intro h
        obtain ⟨n, hn, heq⟩ := List.mem_map.mp h
        rwa [← hf n (by simp [hn]) m (by simp) heq]
      · exact List.mem_map_of_mem
    by_cases hm : m ∈ seen
    · rw [if_pos (by simpa using hmem.mpr hm), if_pos (by simpa using hm)]
      refine ih seen fun n hn n' hn' => hf n ?_ n' ?_
      · exact List.mem_append.mpr ((List.mem_append.mp hn).imp_right (List.mem_cons_of_mem m))
      · exact List.mem_append.mpr ((List.mem_append.mp hn').imp_right (List.mem_cons_of_mem m))
    · rw [if_neg (by simpa using mt hmem.mp hm), if_neg (by simpa using hm)]
      have := ih (seen ++ [m]) (by simpa using hf)
      rwa [List.map_append, List.map_singleton] at this

theorem firstOccurrences_map {f : String → String} {names : List String}
    (hf : ∀ m ∈ names, ∀ n ∈ names, f m = f n → m = n) :
    firstOccurrences (names.map f) = (firstOccurrences names).map f :=
  foldl_firstOccurrences_map names [] hf

/-! ## Renaming -/

theorem rename_id (e : Expr α) : e.rename id = e := by
  induction e with
  | constant v | var | parameter n => rfl
  | unary op e ih => rw [rename, ih]
  | binary op l r ihl ihr => rw [rename, ihl, ihr]

theorem count_rename (f : String → String) (e : Expr α) : (e.rename f).count = e.count := by
  induction e with
  | constant v | var | parameter n => rfl
  | unary op e ih => simp [rename, count, ih]
  | binary op l r ihl ihr => simp [rename, count, ihl, ihr]

theorem visit_rename (f : String → String) (n : Nat) (stack : List (Expr α)) :
    visit n (stack.map (rename f)) = (visit n stack).map (rename f) := by
  induction n generalizing stack with
  | zero => simp [visit]
  | succ n ih =>
    cases stack with
    | nil => rfl
    | cons e stack =>
      cases e with
      | constant v | var | parameter m => exact congrArg (_ :: ·) (ih stack)
      | unary op e => exact congrArg (_ :: ·) (ih (e :: stack))
      | binary op l r => exact congrArg (_ :: ·) (ih (l :: r :: stack))

theorem parameterName?_rename (f : String → String) (e : Expr α) :
    (e.rename f).parameterName? = e.parameterName?.map f := by
  cases e <;> rfl

/-- Renaming apart renames the list of parameters. -/
theorem parameterNames_rename {f : String → String} {e : Expr α}
    (hf : ∀ m ∈ e.parameterNames, ∀ n ∈ e.parameterNames, f m = f n → m = n) :
    (e.rename f).parameterNames = e.parameterNames.map f := by
  have hnodes : (e.rename f).nodes = e.nodes.map (rename f) := by
    rw [nodes, count_rename, nodes, ← visit_rename]
    rfl
  rw [parameterNames, hnodes, List.filterMap_map, parameterNames]
  have hnames : e.nodes.filterMap (parameterName? ∘ rename f) =
      (e.nodes.filterMap parameterName?).map f := by
    rw [List.map_filterMap]
    exact congrArg (List.filterMap · e.nodes) (funext (parameterName?_rename f))
  rw [hnames]
  refine firstOccurrences_map fun m hm n hn => hf m ?_ n ?_
  · exact mem_firstOccurrences.mpr hm
  · exact mem_firstOccurrences.mpr hn

end Expr

end FormulaSearch
