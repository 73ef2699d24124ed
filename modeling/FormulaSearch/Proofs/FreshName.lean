import FormulaSearch.Proofs.Expr.RoundTrip
import FormulaSearch.Proofs.Growth

/-!
# Canonical names are fresh

The stream of canonical names goes on without end and without repetition, and each of its names is read as
a parameter. So a search along it for a name that is free comes to an end, after no more names than are taken
and one more, and what it finds can be added.
-/

namespace FormulaSearch

open Grammar Decimal

/-! ## Names that are read as parameters -/

theorem isDigit_of_mem_nameSuffix {round : Nat} {d : Char} (h : d ∈ (nameSuffix round).toList) :
    d.isDigit = true := by
  rw [nameSuffix] at h
  split at h
  · simp at h
  · rw [Nat.toString_eq_repr, Nat.repr, String.toList_ofList] at h
    exact Nat.isDigit_of_mem_toDigits (by decide) (by decide) h

theorem isAlpha_nameLetters {c : Char} (h : c ∈ nameLetters) : c.isAlpha = true ∧ c ≠ 'x' := by
  have hall : nameLetters.all (fun c => c.isAlpha && c != 'x') = true := by decide
  simpa using List.all_eq_true.mp hall c h

theorem toList_canonicalName (i : Nat) : ∃ c ∈ nameLetters,
    (canonicalName i).toList = c :: (nameSuffix (i / nameLetters.length)).toList := by
  have hi : i % nameLetters.length < nameLetters.length := Nat.mod_lt _ (by decide)
  refine ⟨nameLetters[i % nameLetters.length], List.getElem_mem hi, ?_⟩
  rw [canonicalName, String.toList_append, List.getD_eq_getElem _ _ hi, Char.toString,
    String.toList_singleton, List.singleton_append]

theorem isLetterWithDigits_canonicalName (i : Nat) : IsLetterWithDigits (canonicalName i) := by
  obtain ⟨c, hc, hlist⟩ := toList_canonicalName i
  exact ⟨c, _, hlist, (isAlpha_nameLetters hc).1, fun d hd => isDigit_of_mem_nameSuffix hd⟩

theorem canonicalName_ne_variableName (i : Nat) : canonicalName i ≠ variableName := by
  obtain ⟨c, hc, hlist⟩ := toList_canonicalName i
  intro h
  rw [h] at hlist
  exact (isAlpha_nameLetters hc).2 (List.cons.inj hlist).1.symm

/-- A letter with digits behind it is read as a parameter, unless it is the variable. -/
theorem parse_parameterName {name : String} (hl : IsLetterWithDigits name) (hx : name ≠ variableName) :
    parse name = .ok (.parameter name) := by
  have he : Printable (.parameter name) := by
    constructor
    · simp [Expr.preorder]
    · simpa [Expr.preorder] using ⟨hl, hx⟩
  exact parse_render (fun v hv => constantText_readsAs false hv) he

/-! ## Searching for a free name -/

/-- A search along the canonical names from a place on stops at a name, after looking at so many. Nothing
but a free name stops it. -/
inductive SearchStops (used : List String) : Nat → Nat → String → Prop where
  | free {i : Nat} (h : canonicalName i ∉ used) : SearchStops used i 1 (canonicalName i)
  | taken {i looks : Nat} {name : String} (h : canonicalName i ∈ used)
    (rest : SearchStops used (i + 1) looks name) : SearchStops used i (looks + 1) name

theorem SearchStops.unique {used : List String} {i looks looks' : Nat} {name name' : String}
    (h : SearchStops used i looks name) (h' : SearchStops used i looks' name') :
    looks = looks' ∧ name = name' := by
  induction h generalizing looks' with
  | free hfree =>
    cases h' with
    | free => exact ⟨rfl, rfl⟩
    | taken htaken => exact absurd htaken hfree
  | taken htaken _ ih =>
    cases h' with
    | free hfree => exact absurd htaken hfree
    | taken _ rest =>
      obtain ⟨rfl, rfl⟩ := ih rest
      exact ⟨rfl, rfl⟩

/-- Names that are taken are passed by. -/
theorem SearchStops.pass {used : List String} {i k looks : Nat} {name : String}
    (htaken : ∀ j < k, canonicalName (i + j) ∈ used) (h : SearchStops used (i + k) looks name) :
    SearchStops used i (looks + k) name := by
  induction k generalizing i with
  | zero => exact h
  | succ k ih =>
    refine .taken (htaken 0 (by omega)) (ih (fun j hj => ?_) ?_)
    · have := htaken (j + 1) (by omega)
      rwa [Nat.add_comm j, ← Nat.add_assoc] at this
    · rwa [Nat.add_right_comm]

/-- The canonical names differ from each other and from the variable, and each is read as the parameter of
that name. A search for a free one stops at the first, which it meets after at most as many as are taken, and
which can be entered. -/
theorem canonicalName_stream :
    Function.Injective canonicalName ∧
      (∀ i, canonicalName i ≠ variableName ∧
        parse (canonicalName i) = .ok (.parameter (canonicalName i))) ∧
      ∀ p : Params, ∃ i ≤ p.size, freshName p.names = canonicalName i ∧
        canonicalName i ∉ p.names ∧ (∀ j < i, canonicalName j ∈ p.names) ∧
        (∀ looks name, SearchStops p.names 0 looks name ↔
          looks = i + 1 ∧ name = freshName p.names) ∧
        ∀ v, ∃ q, p.add (freshName p.names) v = .ok q ∧
          q.entries = p.entries ++ [(freshName p.names, v)] := by
  refine ⟨fun _ _ => canonicalName_injective, fun i => ?_, fun p => ?_⟩
  · have hx := canonicalName_ne_variableName i
    exact ⟨hx, parse_parameterName (isLetterWithDigits_canonicalName i) hx⟩
  · obtain ⟨i, hi, hname, hfree, htaken⟩ := freshName_cases p.names
    rw [← Params.size_eq_length_names] at hi
    have hstops : SearchStops p.names 0 (i + 1) (canonicalName i) := by
      have := SearchStops.pass (i := 0) (by simpa using htaken) (.free (by simpa using hfree))
      rwa [Nat.zero_add, Nat.add_comm] at this
    refine ⟨i, hi, hname, hfree, htaken, fun looks name => ?_, fun v => ?_⟩
    · rw [hname]
      constructor
      · exact fun h => h.unique hstops
      · rintro ⟨rfl, rfl⟩
        exact hstops
    · exact ⟨_, p.add_freshName v, Params.entries_insert (hname ▸ hfree) v⟩

end FormulaSearch
