import FormulaSearch.Proofs.Expr.Occurrence
import FormulaSearch.Proofs.Expr.Passes

/-!
# Leaves of a simplified expression

Simplification keeps the variable and the parameters in their order as far as it keeps them, and it puts
in no constant that is not zero, one or folded. So no parameter is new, and if the constants were finite
they still are.
-/

namespace FormulaSearch

open FoldingDomain

namespace Expr

variable {α : Type}

/-- The leaves that are not constants, from left to right. -/
def atoms : Expr α → List (Expr α)
  | constant _ => []
  | var => [var]
  | parameter n => [parameter n]
  | unary _ e => e.atoms
  | binary _ l r => l.atoms ++ r.atoms

/-- The constants, from left to right. -/
def constants : Expr α → List α
  | constant v => [v]
  | var | parameter _ => []
  | unary _ e => e.constants
  | binary _ l r => l.constants ++ r.constants

theorem parameter_mem_atoms {e : Expr α} {n : String} :
    parameter n ∈ e.atoms ↔ parameter n ∈ e.preorder := by
  induction e with
  | constant v | var | parameter m => simp [atoms, preorder]
  | unary op e ih => simp [atoms, preorder, ih]
  | binary op l r ihl ihr => simp [atoms, preorder, ihl, ihr]

theorem mem_constants {e : Expr α} {v : α} : v ∈ e.constants ↔ constant v ∈ e.preorder := by
  induction e with
  | constant w | var | parameter m => simp [constants, preorder]
  | unary op e ih => simp [constants, preorder, ih]
  | binary op l r ihl ihr => simp [constants, preorder, ihl, ihr]

/-! ## Leaves of a chain -/

section

variable {op : BinaryOp}

theorem atoms_operands (e : Expr α) : (e.operands op).flatMap atoms = e.atoms := by
  induction e with
  | binary op' l r ihl ihr =>
    rw [operands]
    split
    · rw [List.flatMap_append, ihl, ihr, atoms]
    · exact List.flatMap_singleton atoms _
  | _ => exact List.flatMap_singleton atoms _

theorem constants_operands (e : Expr α) : (e.operands op).flatMap constants = e.constants := by
  induction e with
  | binary op' l r ihl ihr =>
    rw [operands]
    split
    · rw [List.flatMap_append, ihl, ihr, constants]
    · exact List.flatMap_singleton constants _
  | _ => exact List.flatMap_singleton constants _

theorem atoms_foldl (d : Expr α) (ds : List (Expr α)) :
    (ds.foldl (binary op) d).atoms = (d :: ds).flatMap atoms := by
  induction ds generalizing d with
  | nil => exact (List.flatMap_singleton atoms d).symm
  | cons d' ds ih => simp [ih, atoms]

theorem constants_foldl (d : Expr α) (ds : List (Expr α)) :
    (ds.foldl (binary op) d).constants = (d :: ds).flatMap constants := by
  induction ds generalizing d with
  | nil => exact (List.flatMap_singleton constants d).symm
  | cons d' ds ih => simp [ih, constants]

end

theorem atoms_filter (es : List (Expr α)) :
    (es.filter (·.constant?.isNone)).flatMap atoms = es.flatMap atoms := by
  induction es with
  | nil => rfl
  | cons e es ih =>
    cases e with
    | constant v => exact ih
    | _ => exact congrArg (atoms _ ++ ·) ih

theorem atoms_replaceConstants (merged : α) (es : List (Expr α)) :
    (replaceConstants merged es).flatMap atoms = es.flatMap atoms := by
  induction es with
  | nil => rfl
  | cons e es ih =>
    cases e with
    | constant v => exact atoms_filter es
    | _ => exact congrArg (atoms _ ++ ·) ih

theorem constants_replaceConstants {merged : α} {es : List (Expr α)} :
    ∀ v ∈ (replaceConstants merged es).flatMap constants,
      v ∈ es.flatMap constants ∨ v = merged := by
  induction es with
  | nil => simp [replaceConstants]
  | cons e es ih =>
    cases e with
    | constant w => grind [replaceConstants, constants]
    | _ => grind [replaceConstants, constants]

/-! ## What the rules keep -/

section

variable [FoldingDomain α]

/-- Zero, one and everything folded have the property. -/
structure FoldsInto (P : α → Prop) : Prop where
  zero : P FoldingDomain.zero
  one : P FoldingDomain.one
  unary? : ∀ {op v w}, FoldingDomain.unary? op v = some w → P w
  binary? : ∀ {op a b w}, FoldingDomain.binary? op a b = some w → P w

/-- The second expression has leaves of the first, in their order, and otherwise only constants with the
property. -/
structure Prunes (P : α → Prop) (e e' : Expr α) : Prop where
  atoms : e'.atoms.Sublist e.atoms
  constants : ∀ v ∈ e'.constants, v ∈ e.constants ∨ P v

theorem foldlM_folded {P : α → Prop} (hP : FoldsInto P) {op : BinaryOp} {others : List α}
    {first second merged : α}
    (h : (second :: others).foldlM (binary? op) first = some merged) : P merged := by
  induction others generalizing first second with
  | nil =>
    obtain ⟨v, hv, hdone⟩ := Option.bind_eq_some_iff.mp h
    cases hdone
    exact hP.binary? hv
  | cons third others ih =>
    obtain ⟨v, -, hrest⟩ := Option.bind_eq_some_iff.mp h
    exact ih hrest

theorem mergeChain?_prunes {P : α → Prop} (hP : FoldsInto P) {op : BinaryOp} {e e' : Expr α}
    (h : mergeChain? op e = some e') : Prunes P e e' := by
  obtain ⟨first, second, others, merged, -, hmerged, hchain⟩ := mergeChain?_eq_some h
  obtain ⟨d, ds, hds, rfl⟩ := chain?_eq_some hchain
  constructor
  · rw [atoms_foldl, ← hds, atoms_replaceConstants, atoms_operands]
  · rw [constants_foldl, ← hds, ← constants_operands e]
    intro v hv
    refine (constants_replaceConstants v hv).imp_right ?_
    rintro rfl
    exact foldlM_folded hP hmerged

theorem identity?_prunes {P : α → Prop} (hP : FoldsInto P) {op : BinaryOp} {l r e : Expr α}
    (h : identity? op l r = some e) : Prunes P (binary op l r) e := by
  rcases identity?_cases h with rfl | rfl | rfl | rfl | rfl
  · exact ⟨List.sublist_append_left .., fun v hv => .inl (List.mem_append_left _ hv)⟩
  · exact ⟨List.sublist_append_right .., fun v hv => .inl (List.mem_append_right _ hv)⟩
  · exact ⟨List.sublist_append_right .., fun v hv => .inl (List.mem_append_right _ hv)⟩
  · exact ⟨List.nil_sublist _, fun v hv => .inr (List.mem_singleton.mp hv ▸ hP.zero)⟩
  · exact ⟨List.nil_sublist _, fun v hv => .inr (List.mem_singleton.mp hv ▸ hP.one)⟩

theorem prunes_respected {P : α → Prop} (hP : FoldsInto P) : Respected (Prunes P) where
  refl e := ⟨List.Sublist.refl _, fun _ hv => .inl hv⟩
  trans h h' := ⟨h'.atoms.trans h.atoms, fun v hv => (h'.constants v hv).elim (h.constants v) .inr⟩
  unary op e e' h := ⟨h.atoms, h.constants⟩
  binary op l l' r r' hl hr := by
    refine ⟨hl.atoms.append hr.atoms, fun v hv => ?_⟩
    rcases List.mem_append.mp hv with hv | hv
    · exact (hl.constants v hv).imp_left (List.mem_append_left _)
    · exact (hr.constants v hv).imp_left (List.mem_append_right _)
  reduceUnary op e := by
    rcases reduceUnary_cases op e with h | ⟨v, w, rfl, hfold, h⟩ | ⟨-, h⟩
    · rw [h]
      exact ⟨List.Sublist.refl _, fun _ hv => .inl hv⟩
    · rw [h]
      exact ⟨List.nil_sublist _, fun u hu => .inr (List.mem_singleton.mp hu ▸ hP.unary? hfold)⟩
    · generalize reduceUnary op e = inner at h ⊢
      rw [h]
      exact ⟨List.Sublist.refl _, fun _ hv => .inl hv⟩
  reduceBinary op l r := by
    rcases reduceBinary_cases op l r with h | ⟨a, b, w, rfl, rfl, hfold, h⟩ | h | h
    · rw [h]
      exact ⟨List.Sublist.refl _, fun _ hv => .inl hv⟩
    · rw [h]
      exact ⟨List.nil_sublist _, fun u hu => .inr (List.mem_singleton.mp hu ▸ hP.binary? hfold)⟩
    · exact identity?_prunes hP h
    · exact mergeChain?_prunes hP h

/-- The parameters of a simplified expression are among those of the original. -/
theorem parameter_of_simplify {e : Expr α} {n : String} (h : parameter n ∈ e.simplify.preorder) :
    parameter n ∈ e.preorder := by
  have hall : FoldsInto fun _ : α => True := ⟨trivial, trivial, fun _ => trivial, fun _ => trivial⟩
  exact parameter_mem_atoms.mp
    (((prunes_respected hall).simplify e).atoms.subset (parameter_mem_atoms.mpr h))

end

/-! ## Leaves of a simplified formula -/

/-- A folded double is finite, and so are zero and one. -/
theorem foldsInto_isFinite : FoldsInto fun v : Float => v.isFinite = true := by
  have hfinite {v w : Float} (hv : finite? v = some w) : w.isFinite = true := by
    rw [finite?, Option.ite_none_right_eq_some] at hv
    exact Option.some.inj hv.2 ▸ hv.1
  exact ⟨by decide, by decide, hfinite, hfinite⟩

/-- Simplification puts in finite constants only. -/
theorem mem_constants_of_simplify {e : Formula} {v : Float} (h : v ∈ e.simplify.constants) :
    v ∈ e.constants ∨ v.isFinite = true :=
  ((prunes_respected foldsInto_isFinite).simplify e).constants v h

theorem isFinite_of_simplify {e : Formula} (h : ∀ v, constant v ∈ e.preorder → v.isFinite = true) :
    ∀ v, constant v ∈ e.simplify.preorder → v.isFinite = true := by
  intro v hv
  rcases mem_constants_of_simplify (mem_constants.mpr hv) with hv | hv
  · exact h v (mem_constants.mp hv)
  · exact hv

/-- The occurrences of the variable and of parameters in a simplified formula are some of those in the
original, in their order, so there are no more of them and no more distinct parameters. A constant of the
simplified formula is one of the original or finite, so all are finite if those of the original were. -/
theorem simplify_prunes (e : Formula) :
    e.simplify.atoms.Sublist e.atoms ∧
      e.simplify.atoms.length ≤ e.atoms.length ∧
      e.simplify.parameterNames.length ≤ e.parameterNames.length ∧
      (∀ v ∈ e.simplify.constants, v ∈ e.constants ∨ v.isFinite = true) ∧
      ((∀ v ∈ e.constants, v.isFinite = true) →
        ∀ v ∈ e.simplify.constants, v.isFinite = true) := by
  have hatoms : e.simplify.atoms.Sublist e.atoms :=
    ((prunes_respected foldsInto_isFinite).simplify e).atoms
  refine ⟨hatoms, hatoms.length_le, ?_, fun v => mem_constants_of_simplify, fun hfinite v hv => ?_⟩
  · exact length_parameterNames_le fun n => parameter_of_simplify
  · exact (mem_constants_of_simplify hv).elim (hfinite v) id

/-- The constants of a sum are merged around its two occurrences of a parameter and one of the variable. -/
theorem simplify_prunes_sum :
    let e : Formula := binary .add (binary .add (constant 2.0) (parameter "a"))
      (binary .add (binary .add var (constant 3.0)) (parameter "a"))
    (∀ v ∈ e.constants, v.isFinite = true) ∧
      e.simplify.atoms.Sublist [parameter "a", var, parameter "a"] ∧
      ∀ v ∈ e.simplify.constants, v.isFinite = true := by
  intro e
  have hfinite : ∀ v ∈ e.constants, v.isFinite = true := by
    intro v hv
    have hv : v = 2.0 ∨ v = 3.0 := by simpa [e, constants] using hv
    rcases hv with rfl | rfl <;> decide
  obtain ⟨hatoms, -, -, -, hconstants⟩ := simplify_prunes e
  exact ⟨hfinite, hatoms, hconstants hfinite⟩

end Expr

end FormulaSearch
