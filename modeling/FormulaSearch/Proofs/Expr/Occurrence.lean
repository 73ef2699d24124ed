import Mathlib.Data.List.Nodup
import FormulaSearch.Expr.Eval
import FormulaSearch.Proofs.Expr.Names
import FormulaSearch.Proofs.Failure

/-!
# What occurs in an expression

The nodes that are met with a stack are the subtrees in pre-order, so a parameter is listed exactly if it
occurs. The values of a formula depend on nothing but the values of the parameters that occur in it,
whatever these are called.
-/

namespace FormulaSearch

namespace Expr

variable {α : Type}

/-! ## Nodes -/

/-- The tree on top of the stack is met before the trees below it. -/
theorem visit_cons (e : Expr α) (stack : List (Expr α)) (n : Nat) :
    visit (e.count + n) (e :: stack) = e.preorder ++ visit n stack := by
  induction e generalizing stack n with
  | constant v | var | parameter m =>
    rw [count, Nat.add_comm, visit]
    rfl
  | unary op e ih =>
    rw [count, Nat.add_right_comm, visit, preorder, List.cons_append, ih]
  | binary op l r ihl ihr =>
    rw [count, Nat.add_right_comm, visit, preorder, List.cons_append, List.append_assoc,
      Nat.add_assoc, ihl, ihr]

theorem nodes_eq_preorder (e : Expr α) : e.nodes = e.preorder := by
  have := visit_cons e [] 0
  simpa [nodes, visit] using this

/-- The names of the parameters at their occurrences. -/
def occurring (e : Expr α) : List String := e.preorder.filterMap parameterName?

theorem occurring_parameter (n : String) : (parameter n : Expr α).occurring = [n] := rfl

theorem occurring_unary (op : UnaryOp) (e : Expr α) : (unary op e).occurring = e.occurring := rfl

theorem occurring_binary (op : BinaryOp) (l r : Expr α) :
    (binary op l r).occurring = l.occurring ++ r.occurring :=
  List.filterMap_append

theorem parameterNames_eq (e : Expr α) : e.parameterNames = firstOccurrences e.occurring := by
  rw [parameterNames, nodes_eq_preorder, occurring]

theorem parameterName?_eq_some_iff {e : Expr α} {n : String} :
    e.parameterName? = some n ↔ e = parameter n := by
  cases e <;> simp [parameterName?]

/-- The parameters that are listed are those that occur. -/
theorem mem_parameterNames {e : Expr α} {n : String} :
    n ∈ e.parameterNames ↔ parameter n ∈ e.preorder := by
  simp [parameterNames_eq, occurring, mem_firstOccurrences, parameterName?_eq_some_iff]

theorem mem_parameterNames_unary {op : UnaryOp} {e : Expr α} {n : String} :
    n ∈ (unary op e).parameterNames ↔ n ∈ e.parameterNames := by
  simp [mem_parameterNames, preorder]

theorem mem_parameterNames_binary {op : BinaryOp} {l r : Expr α} {n : String} :
    n ∈ (binary op l r).parameterNames ↔ n ∈ l.parameterNames ∨ n ∈ r.parameterNames := by
  simp [mem_parameterNames, preorder]

theorem nodup_parameterNames (e : Expr α) : e.parameterNames.Nodup := nodup_firstOccurrences _

/-- An expression in which no other parameters occur has no more of them. -/
theorem length_parameterNames_le {e e' : Expr α}
    (h : ∀ n, parameter n ∈ e'.preorder → parameter n ∈ e.preorder) :
    e'.parameterNames.length ≤ e.parameterNames.length := by
  refine e'.nodup_parameterNames.length_le_of_subset fun n hn => ?_
  exact mem_parameterNames.mpr (h n (mem_parameterNames.mp hn))

/-- A renaming keeps the constants. -/
theorem constant_mem_rename {f : String → String} {e : Expr α} {v : α} :
    constant v ∈ (e.rename f).preorder ↔ constant v ∈ e.preorder := by
  induction e with
  | constant w | var | parameter n => simp [rename, preorder]
  | unary op e ih => simp [rename, preorder, ih]
  | binary op l r ihl ihr => simp [rename, preorder, ihl, ihr]

/-! ## Values -/

/-- A renamed formula has the values of the original if each parameter that occurs has its value under the
new name. -/
theorem column_rename {f : String → String} {p q : Assignment} {e : Formula}
    (h : ∀ n ∈ e.parameterNames, p.value (f n) = q.value n) (x : Column) :
    (e.rename f).column p x = e.column q x := by
  induction e with
  | constant v | var => rfl
  | parameter n =>
    have hn : n ∈ (parameter n : Formula).parameterNames :=
      mem_parameterNames.mpr (List.mem_singleton_self _)
    rw [rename, column, column, h n hn]
  | unary op e ih =>
    rw [rename, column, column, ih fun n hn => h n (mem_parameterNames_unary.mpr hn)]
  | binary op l r ihl ihr =>
    rw [rename, column, column, ihl fun n hn => h n (mem_parameterNames_binary.mpr (.inl hn)),
      ihr fun n hn => h n (mem_parameterNames_binary.mpr (.inr hn))]

/-- A formula has values where each parameter that occurs has one. -/
theorem exists_column {p : Assignment} {e : Formula} (h : ∀ n ∈ e.parameterNames, ∃ v, p n = some v)
    (x : Column) : ∃ c, e.column p x = .ok c := by
  induction e with
  | constant v | var => exact ⟨_, rfl⟩
  | parameter n =>
    obtain ⟨v, hv⟩ := h n (mem_parameterNames.mpr (List.mem_singleton_self _))
    exact ⟨_, by rw [column, Assignment.value, hv]; rfl⟩
  | unary op e ih =>
    obtain ⟨c, hc⟩ := ih fun n hn => h n (mem_parameterNames_unary.mpr hn)
    exact ⟨_, by rw [column, hc]; rfl⟩
  | binary op l r ihl ihr =>
    obtain ⟨a, ha⟩ := ihl fun n hn => h n (mem_parameterNames_binary.mpr (.inl hn))
    obtain ⟨b, hb⟩ := ihr fun n hn => h n (mem_parameterNames_binary.mpr (.inr hn))
    exact ⟨_, by rw [column, ha, hb]; rfl⟩

end Expr

end FormulaSearch
