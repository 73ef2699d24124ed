import FormulaSearch.Proofs.Expr.Occurrence

/-!
# Missing parameters

A formula is evaluated from left to right, and its parameters are listed by a traversal with a stack. Both
meet the nodes in pre-order. So evaluation fails exactly if a listed parameter has no value, it reports the
first of these in the order of the list, and nothing but the values of the listed parameters matters.
-/

namespace FormulaSearch

/-! ## The first name without a value -/

/-- The name has no value, and those before it have one. -/
def FirstMissing (p : Assignment) (names : List String) (n : String) : Prop :=
  p n = none ∧ ∃ before after, names = before ++ n :: after ∧ ∀ m ∈ before, ∃ v, p m = some v

theorem firstMissing_iff {p : Assignment} {names : List String} {n : String} :
    FirstMissing p names n ↔ names.find? (fun m => (p m).isNone) = some n := by
  rw [FirstMissing, List.find?_eq_some_iff_append]
  simp [Option.isSome_iff_exists]

theorem none_missing_iff {p : Assignment} {names : List String} :
    names.find? (fun m => (p m).isNone) = none ↔ ∀ n ∈ names, ∃ v, p n = some v := by
  simp [List.find?_eq_none, Option.ne_none_iff_exists']

/-- A computation fails exactly if one of the names has no value, and reports the first of these. -/
structure FailsAtFirst {α : Type} (p : Assignment) (names : List String)
    (r : Except MissingParameter α) : Prop where
  fails_iff : (∃ fault, r = .error fault) ↔ ∃ n ∈ names, p n = none
  first : ∀ fault, r = .error fault → FirstMissing p names fault.name

theorem FailsAtFirst.map {α β : Type} {p : Assignment} {names : List String}
    {r : Except MissingParameter α} (h : FailsAtFirst p names r) (f : α → β) :
    FailsAtFirst p names (r.map f) := by
  obtain ⟨hfails, hfirst⟩ := h
  cases r with
  | ok a => exact ⟨by simpa [Except.map] using hfails, nofun⟩
  | error fault =>
    refine ⟨by simpa [Except.map] using hfails, fun fault' h => ?_⟩
    cases h
    exact hfirst fault rfl

namespace Expr

/-! ## Traversal -/

section

variable {α : Type}

/-- Once every node has been met, the stack is empty. -/
theorem visit_count_add (e : Expr α) (n : Nat) : visit (e.count + n) [e] = e.preorder := by
  rw [visit_cons]
  cases n <;> simp [visit]

theorem length_preorder (e : Expr α) : e.preorder.length = e.count := by
  induction e with
  | constant v | var | parameter n => rfl
  | unary op e ih => rw [preorder, List.length_cons, ih, count]
  | binary op l r ihl ihr =>
    rw [preorder, List.length_cons, List.length_append, ihl, ihr, count]

/-- The first member with a property is found at its first occurrence. -/
theorem find?_foldl_firstOccurrences (q : String → Bool) (names seen : List String) :
    (names.foldl (fun seen n => if seen.contains n then seen else seen ++ [n]) seen).find? q =
      (seen ++ names).find? q := by
  induction names generalizing seen with
  | nil => rw [List.foldl_nil, List.append_nil]
  | cons m names ih =>
    rw [List.foldl_cons]
    split
    · rename_i hm
      have hm : m ∈ seen := by simpa using hm
      rw [ih, List.find?_append, List.find?_append, List.find?_cons]
      cases hq : q m with
      | false => rfl
      | true =>
        have hsome : (seen.find? q).isSome = true := List.find?_isSome.mpr ⟨m, hm, hq⟩
        obtain ⟨n, hn⟩ := Option.isSome_iff_exists.mp hsome
        rw [hn]
        rfl
    · rw [ih, List.append_assoc, List.singleton_append]

theorem find?_parameterNames (e : Expr α) (q : String → Bool) :
    e.parameterNames.find? q = e.occurring.find? q := by
  rw [parameterNames_eq, firstOccurrences, find?_foldl_firstOccurrences, List.nil_append]

end

/-! ## Evaluation -/

/-- Operands are evaluated from left to right, as their parameters occur. -/
theorem column_of_missing {p : Assignment} {e : Formula} {n : String}
    (h : e.occurring.find? (fun m => (p m).isNone) = some n) (x : Column) :
    e.column p x = .error ⟨n⟩ := by
  induction e with
  | constant v | var => cases h
  | parameter m =>
    rw [occurring_parameter, List.find?_singleton] at h
    cases hm : p m with
    | none =>
      rw [hm] at h
      cases h
      rw [column, Assignment.value, hm]
      rfl
    | some v =>
      rw [hm] at h
      cases h
  | unary op e ih =>
    rw [column, ih h]
    rfl
  | binary op l r ihl ihr =>
    rw [occurring_binary, List.find?_append] at h
    cases hl : l.occurring.find? (fun m => (p m).isNone) with
    | some m =>
      rw [hl, Option.some_or] at h
      rw [column, ihl (hl.trans h)]
      rfl
    | none =>
      obtain ⟨a, ha⟩ := exists_column (none_missing_iff.mp ((l.find?_parameterNames _).trans hl)) x
      rw [hl, Option.none_or] at h
      rw [column, ha, ok_bind, ihr h]
      rfl

theorem column_fails (e : Formula) (p : Assignment) (x : Column) :
    FailsAtFirst p e.parameterNames (e.column p x) := by
  cases hfind : e.parameterNames.find? (fun m => (p m).isNone) with
  | some n =>
    have hfirst := firstMissing_iff.mpr hfind
    rw [find?_parameterNames] at hfind
    rw [column_of_missing hfind]
    refine ⟨⟨fun _ => ?_, fun _ => ⟨_, rfl⟩⟩, fun fault h => ?_⟩
    · obtain ⟨hn, before, after, hnames, -⟩ := hfirst
      exact ⟨n, by simp [hnames], hn⟩
    · cases h
      exact hfirst
  | none =>
    have hvalues := none_missing_iff.mp hfind
    obtain ⟨c, hc⟩ := exists_column hvalues x
    rw [hc]
    refine ⟨⟨nofun, fun ⟨n, hn, hnone⟩ => ?_⟩, nofun⟩
    obtain ⟨v, hv⟩ := hvalues n hn
    rw [hnone] at hv
    cases hv

/-- The value at one point is read off a column. -/
theorem evaluate_eq_map (e : Formula) (p : Assignment) (x : Float) :
    e.evaluate p x = (e.column p (.single x)).map
      fun | .single v => v
          | .many vs => vs.headD 0.0 := by
  rw [evaluate]
  cases e.column p (.single x) with
  | error fault => rfl
  | ok c => cases c <;> rfl

/-- The values depend on the parameters that occur. -/
theorem column_congr {p q : Assignment} {e : Formula} (h : ∀ n ∈ e.parameterNames, p n = q n)
    (x : Column) : e.column p x = e.column q x := by
  have hrename := column_rename (f := id) (p := p) (q := q)
    (fun n hn => by rw [Assignment.value, Assignment.value, id, h n hn]) x
  rwa [rename_id] at hrename

/-- Evaluation, at one point or at any number of them, fails exactly if a parameter of the formula has no
value, and it reports the first of these in the order in which the formula lists its parameters. Two
assignments that agree on these give the same. The traversal behind the list meets the nodes in
pre-order, as many as the formula has, and stops. -/
theorem evaluation_fails_at_first (e : Formula) :
    (∀ p x, FailsAtFirst p e.parameterNames (e.evaluate p x)) ∧
      (∀ p xs, FailsAtFirst p e.parameterNames (e.evaluateAll p xs)) ∧
      (∀ p q : Assignment, (∀ n ∈ e.parameterNames, p n = q n) →
        (∀ x, e.evaluate p x = e.evaluate q x) ∧ ∀ xs, e.evaluateAll p xs = e.evaluateAll q xs) ∧
      (∀ n, visit (e.count + n) [e] = e.preorder) ∧ e.preorder.length = e.count := by
  refine ⟨fun p x => ?_, fun p xs => (e.column_fails p _).map _, fun p q h =>
    ⟨fun x => ?_, fun xs => ?_⟩, e.visit_count_add, e.length_preorder⟩
  · rw [evaluate_eq_map]
    exact (e.column_fails p _).map _
  · rw [evaluate, evaluate, column_congr h]
  · rw [evaluateAll, evaluateAll, column_congr h]

end Expr

end FormulaSearch
