import Mathlib.Data.Option.NAry
import FormulaSearch.Proofs.Expr.Passes

/-!
# Simplification keeps values

In an arithmetic where the simplifier folds constants exactly and its rules for zero and one hold, a
simplified expression has the value of the original wherever the original has one. Operators are strict
and may lack a value, so a rule that drops an operand can only add values. The merging of constants in
a chain of sums or products is the one rule that moves operands: the values of the operands, those
that are missing included, are joined by an operation that may be regrouped and reordered.
-/

namespace FormulaSearch

open FoldingDomain

/-! ## Exact arithmetic -/

/-- An arithmetic of strict, possibly partial operators that folding computes exactly. -/
class ExactArithmetic (α : Type) [FoldingDomain α] where
  unary : UnaryOp → α → Option α
  binary : BinaryOp → α → α → Option α
  add : α → α → α
  mul : α → α → α
  binary_add : ∀ a b : α, binary .add a b = some (add a b)
  binary_mul : ∀ a b : α, binary .mul a b = some (mul a b)
  add_assoc : ∀ a b c : α, add (add a b) c = add a (add b c)
  add_comm : ∀ a b : α, add a b = add b a
  mul_assoc : ∀ a b c : α, mul (mul a b) c = mul a (mul b c)
  mul_comm : ∀ a b : α, mul a b = mul b a
  add_zero : ∀ a : α, add a zero = a
  sub_zero : ∀ a : α, binary .sub a zero = some a
  zero_sub : ∀ a : α, binary .sub zero a = unary .neg a
  neg_neg : ∀ a : α, (unary .neg a).bind (unary .neg) = some a
  mul_one : ∀ a : α, mul a one = a
  mul_zero : ∀ a : α, mul a zero = zero
  div_one : ∀ a : α, binary .div a one = some a
  pow_one : ∀ a : α, binary .pow a one = some a
  pow_zero : ∀ a : α, binary .pow a zero = some one
  eq_zero : ∀ a : α, isZero a = true → a = zero
  eq_one : ∀ a : α, isOne a = true → a = one
  unary?_exact : ∀ (op : UnaryOp) (a v : α), unary? op a = some v → unary op a = some v
  binary?_exact : ∀ (op : BinaryOp) (a b v : α), binary? op a b = some v → binary op a b = some v

namespace Expr

open ExactArithmetic

variable {α : Type} [FoldingDomain α] [ExactArithmetic α]

/-- The exact value of an expression, if it has one. -/
def value (p : String → Option α) (x : α) : Expr α → Option α
  | constant v => some v
  | var => some x
  | parameter n => p n
  | unary op e => (e.value p x).bind (ExactArithmetic.unary op)
  | binary op l r =>
    (l.value p x).bind fun a => (r.value p x).bind fun b => ExactArithmetic.binary op a b

/-- The second expression has the value of the first wherever the first has one. -/
def KeepsValue (e e' : Expr α) : Prop :=
  ∀ p x v, e.value p x = some v → e'.value p x = some v

namespace KeepsValue

variable {e e' e'' l l' r r' : Expr α}

theorem refl (e : Expr α) : KeepsValue e e := fun _ _ _ h => h

theorem trans (h : KeepsValue e e') (h' : KeepsValue e' e'') : KeepsValue e e'' :=
  fun p x v hv => h' p x v (h p x v hv)

theorem unary (op : UnaryOp) (h : KeepsValue e e') :
    KeepsValue (.unary op e) (.unary op e') := by
  intro p x v hv
  obtain ⟨a, ha, hop⟩ := Option.bind_eq_some_iff.mp hv
  exact Option.bind_eq_some_iff.mpr ⟨a, h p x a ha, hop⟩

theorem binary (op : BinaryOp) (hl : KeepsValue l l') (hr : KeepsValue r r') :
    KeepsValue (.binary op l r) (.binary op l' r') := by
  intro p x v hv
  obtain ⟨a, ha, hb⟩ := Option.bind_eq_some_iff.mp hv
  obtain ⟨b, hb, hop⟩ := Option.bind_eq_some_iff.mp hb
  exact Option.bind_eq_some_iff.mpr
    ⟨a, hl p x a ha, Option.bind_eq_some_iff.mpr ⟨b, hr p x b hb, hop⟩⟩

end KeepsValue

theorem value_binary_eq_some_iff {op : BinaryOp} {l r : Expr α} {p : String → Option α} {x v : α} :
    (binary op l r).value p x = some v ↔
      ∃ a b, l.value p x = some a ∧ r.value p x = some b ∧
        ExactArithmetic.binary op a b = some v := by
  simp only [value, Option.bind_eq_some_iff]
  constructor
  · rintro ⟨a, ha, b, hb, h⟩
    exact ⟨a, b, ha, hb, h⟩
  · rintro ⟨a, b, ha, hb, h⟩
    exact ⟨a, ha, b, hb, h⟩

/-! ## Constants -/

/-- A test for a constant holds of that constant only. -/
theorem eq_constant_zero {e : Expr α} (h : e.isZero = true) : e = constant zero := by
  cases e with
  | constant v => rw [eq_zero v h]
  | _ => cases h

theorem eq_constant_one {e : Expr α} (h : e.isOne = true) : e = constant one := by
  cases e with
  | constant v => rw [eq_one v h]
  | _ => cases h

theorem fold?_keepsValue {op : BinaryOp} {l r e : Expr α} (h : fold? op l r = some e) :
    KeepsValue (binary op l r) e := by
  intro p x v hv
  unfold fold? at h
  split at h
  · obtain ⟨w, hw, rfl⟩ := Option.map_eq_some_iff.mp h
    rw [← hv]
    exact (binary?_exact op _ _ w hw).symm
  · cases h

theorem reduceUnary_keepsValue (op : UnaryOp) (child : Expr α) :
    KeepsValue (unary op child) (reduceUnary op child) := by
  unfold reduceUnary
  split
  · rename_i c
    split
    · rename_i w hw
      intro p x v hv
      rw [← hv]
      exact (unary?_exact op c w hw).symm
    · exact .refl _
  · rename_i inner
    split
    · rename_i hop
      subst hop
      intro p x v hv
      obtain ⟨b, hb, hv⟩ := Option.bind_eq_some_iff.mp hv
      obtain ⟨a, ha, hb⟩ := Option.bind_eq_some_iff.mp hb
      -- two changes of sign lead from the value of the inner expression back to it
      have := ExactArithmetic.neg_neg a
      rw [hb, Option.bind_some, hv] at this
      rw [ha, ← this]
    · exact .refl _
  · exact .refl _

/-! ## The rules for zero and one -/

theorem value_of_isZero {e : Expr α} {p : String → Option α} {x v : α} (h : e.isZero = true)
    (hv : e.value p x = some v) : v = zero := by
  rw [eq_constant_zero h] at hv
  exact (Option.some.inj hv).symm

theorem value_of_isOne {e : Expr α} {p : String → Option α} {x v : α} (h : e.isOne = true)
    (hv : e.value p x = some v) : v = one := by
  rw [eq_constant_one h] at hv
  exact (Option.some.inj hv).symm

theorem zero_mul (a : α) : mul zero a = zero := by
  rw [ExactArithmetic.mul_comm, ExactArithmetic.mul_zero]

theorem one_mul (a : α) : mul one a = a := by
  rw [ExactArithmetic.mul_comm, ExactArithmetic.mul_one]

theorem zero_add (a : α) : add zero a = a := by
  rw [ExactArithmetic.add_comm, ExactArithmetic.add_zero]

theorem identity?_keepsValue {op : BinaryOp} {l r e : Expr α} (h : identity? op l r = some e) :
    KeepsValue (binary op l r) e := by
  intro p x v hv
  obtain ⟨a, b, ha, hb, hop⟩ := value_binary_eq_some_iff.mp hv
  cases identity_of_eq_some h with
  | addZero hr => rw [ha, ← hop, binary_add, value_of_isZero hr hb, ExactArithmetic.add_zero]
  | zeroAdd hl => rw [hb, ← hop, binary_add, value_of_isZero hl ha, Expr.zero_add]
  | subZero hr => rw [ha, ← hop, value_of_isZero hr hb, ExactArithmetic.sub_zero]
  | zeroSub hl =>
    rw [value, hb, ← hop, value_of_isZero hl ha, ExactArithmetic.zero_sub, Option.bind_some]
  | zeroMul hl => rw [value, ← hop, binary_mul, value_of_isZero hl ha, Expr.zero_mul]
  | mulZero hr => rw [value, ← hop, binary_mul, value_of_isZero hr hb, ExactArithmetic.mul_zero]
  | mulOne hr => rw [ha, ← hop, binary_mul, value_of_isOne hr hb, ExactArithmetic.mul_one]
  | oneMul hl => rw [hb, ← hop, binary_mul, value_of_isOne hl ha, Expr.one_mul]
  | divOne hr => rw [ha, ← hop, value_of_isOne hr hb, ExactArithmetic.div_one]
  | powOne hr => rw [ha, ← hop, value_of_isOne hr hb, ExactArithmetic.pow_one]
  | powZero hr => rw [value, ← hop, value_of_isZero hr hb, ExactArithmetic.pow_zero]

/-! ## Chains -/

/-- An operator that is total, may be regrouped and reordered, and has a neutral element. -/
structure Regroups (op : BinaryOp) (f : α → α → α) (unit : α) : Prop where
  binary_eq : ∀ a b, ExactArithmetic.binary op a b = some (f a b)
  assoc : ∀ a b c, f (f a b) c = f a (f b c)
  comm : ∀ a b, f a b = f b a
  unit_right : ∀ a, f a unit = a

theorem regroups_add : Regroups .add (add : α → α → α) zero :=
  ⟨binary_add, ExactArithmetic.add_assoc, ExactArithmetic.add_comm, ExactArithmetic.add_zero⟩

theorem regroups_mul : Regroups .mul (mul : α → α → α) one :=
  ⟨binary_mul, ExactArithmetic.mul_assoc, ExactArithmetic.mul_comm, ExactArithmetic.mul_one⟩

/-- The values of some operands joined, if all of them have one. -/
def joined (f : α → α → α) (unit : α) (p : String → Option α) (x : α) (es : List (Expr α)) :
    Option α :=
  (es.map (value p x)).foldr (Option.map₂ f) (some unit)

theorem joined_cons {f : α → α → α} {unit : α} {p : String → Option α} {x : α} (e : Expr α)
    (es : List (Expr α)) :
    joined f unit p x (e :: es) = Option.map₂ f (e.value p x) (joined f unit p x es) := rfl

namespace Regroups

variable {op : BinaryOp} {f : α → α → α} {unit : α} {p : String → Option α} {x : α}

theorem value_binary (h : Regroups op f unit) (l r : Expr α) :
    (binary op l r).value p x = Option.map₂ f (l.value p x) (r.value p x) := by
  rw [value]
  cases l.value p x <;> cases r.value p x <;> simp [h.binary_eq]

theorem map₂_assoc (h : Regroups op f unit) (a b c : Option α) :
    Option.map₂ f (Option.map₂ f a b) c = Option.map₂ f a (Option.map₂ f b c) :=
  Option.map₂_assoc h.assoc

theorem left_comm (h : Regroups op f unit) (a b c : α) : f a (f b c) = f b (f a c) := by
  rw [← h.assoc, h.comm a b, h.assoc]

theorem map₂_left_comm (h : Regroups op f unit) (a b c : Option α) :
    Option.map₂ f a (Option.map₂ f b c) = Option.map₂ f b (Option.map₂ f a c) :=
  Option.map₂_left_comm h.left_comm

theorem map₂_unit (h : Regroups op f unit) (a : Option α) : Option.map₂ f a (some unit) = a := by
  cases a <;> simp [h.unit_right]

theorem unit_map₂ (h : Regroups op f unit) (a : Option α) : Option.map₂ f (some unit) a = a := by
  rw [Option.map₂_comm h.comm, h.map₂_unit]

theorem joined_append (h : Regroups op f unit) (ds es : List (Expr α)) :
    joined f unit p x (ds ++ es) = Option.map₂ f (joined f unit p x ds) (joined f unit p x es) := by
  induction ds with
  | nil => exact (h.unit_map₂ _).symm
  | cons d ds ih =>
    rw [List.cons_append, joined_cons, ih, ← h.map₂_assoc, ← joined_cons]

theorem joined_single (h : Regroups op f unit) (e : Expr α) :
    joined f unit p x [e] = e.value p x :=
  h.map₂_unit _

/-- The operands of a chain join to its value. -/
theorem joined_operands (h : Regroups op f unit) (e : Expr α) :
    joined f unit p x (e.operands op) = e.value p x := by
  induction e with
  | binary op' l r ihl ihr =>
    rw [operands]
    split
    · rename_i hop
      rw [h.joined_append, ihl, ihr, hop, h.value_binary]
    · exact h.joined_single _
  | _ => exact h.joined_single _

theorem value_foldl (h : Regroups op f unit) (e : Expr α) (es : List (Expr α)) :
    (es.foldl (binary op) e).value p x = joined f unit p x (e :: es) := by
  induction es generalizing e with
  | nil => exact (h.joined_single e).symm
  | cons d es ih =>
    rw [List.foldl_cons, ih, joined_cons, h.value_binary, h.map₂_assoc, ← joined_cons,
      ← joined_cons]

/-- A rebuilt chain has the joined value of its operands. -/
theorem value_chain? (h : Regroups op f unit) {es : List (Expr α)} {e : Expr α}
    (he : chain? op es = some e) : e.value p x = joined f unit p x es := by
  cases es with
  | nil => cases he
  | cons d es =>
    cases he
    exact h.value_foldl d es

/-- Constants and other operands can be joined apart. -/
theorem joined_constants (h : Regroups op f unit) (es : List (Expr α)) :
    joined f unit p x es =
      Option.map₂ f (some ((es.filterMap constant?).foldr f unit))
        (joined f unit p x (es.filter (·.constant?.isNone))) := by
  induction es with
  | nil => exact (h.map₂_unit _).symm
  | cons e es ih =>
    rw [joined_cons, ih]
    cases e with
    | constant v => exact (h.map₂_assoc _ _ _).symm
    | _ => exact h.map₂_left_comm _ _ _

/-- A constant in the place of the constants is joined with the other operands. -/
theorem joined_replaceConstants (h : Regroups op f unit) (merged : α) {es : List (Expr α)}
    (hes : es.filterMap constant? ≠ []) :
    joined f unit p x (replaceConstants merged es) =
      Option.map₂ f (some merged) (joined f unit p x (es.filter (·.constant?.isNone))) := by
  induction es with
  | nil => exact absurd rfl hes
  | cons e es ih =>
    cases e with
    | constant v => rfl
    | _ =>
      simp only [replaceConstants]
      rw [joined_cons, ih (by simpa [constant?] using hes)]
      exact h.map₂_left_comm _ _ _

/-- Folding constants from left to right joins them. -/
theorem foldlM_eq (h : Regroups op f unit) {a merged : α} {others : List α}
    (hm : others.foldlM (binary? op) a = some merged) : (a :: others).foldr f unit = merged := by
  induction others generalizing a with
  | nil =>
    cases hm
    exact h.unit_right _
  | cons c others ih =>
    obtain ⟨v, hv, hrest⟩ := Option.bind_eq_some_iff.mp hm
    have hf : some (f a c) = some v := by
      rw [← h.binary_eq, binary?_exact op _ _ _ hv]
    rw [List.foldr_cons, List.foldr_cons, ← h.assoc, Option.some.inj hf]
    exact ih hrest

theorem mergeChain?_keepsValue (h : Regroups op f unit) {e e' : Expr α}
    (he : mergeChain? op e = some e') : KeepsValue e e' := by
  intro p x v hv
  obtain ⟨first, second, others, merged, hconstants, hm, hc⟩ := mergeChain?_eq_some he
  -- both the chain and its replacement are the merged constant joined with the other operands
  have hne : (e.operands op).filterMap constant? ≠ [] := by simp [hconstants]
  rw [h.value_chain? hc, h.joined_replaceConstants merged hne, ← h.foldlM_eq hm,
    ← hconstants, ← h.joined_constants, h.joined_operands, hv]

end Regroups

/-! ## Passes -/

theorem reduceBinary_keepsValue (op : BinaryOp) (l r : Expr α) :
    KeepsValue (binary op l r) (reduceBinary op l r) := by
  have hmerge (h : isAssociative op = true) :
      KeepsValue (binary op l r) ((mergeChain? op (binary op l r)).getD (binary op l r)) := by
    cases hm : mergeChain? op (binary op l r) with
    | none => exact .refl _
    | some e =>
      cases op with
      | add => exact regroups_add.mergeChain?_keepsValue hm
      | mul => exact regroups_mul.mergeChain?_keepsValue hm
      | sub | div | pow => cases h
  unfold reduceBinary
  split
  · exact fold?_keepsValue ‹_›
  · split
    · exact identity?_keepsValue ‹_›
    · split
      · exact hmerge ‹_›
      · exact .refl _

theorem keepsValue_respected : Respected (KeepsValue (α := α)) where
  refl := KeepsValue.refl
  trans := KeepsValue.trans
  unary op _ _ h := h.unary op
  binary op _ _ _ _ hl hr := hl.binary op hr
  reduceUnary := reduceUnary_keepsValue
  reduceBinary := reduceBinary_keepsValue

theorem simplifyFrom_keepsValue (n : Nat) (e : Expr α) : KeepsValue e (simplifyFrom n e) :=
  keepsValue_respected.simplifyFrom n e

/-- Wherever an expression has a value, the simplified expression has the same value. -/
theorem value_simplify {e : Expr α} {p : String → Option α} {x v : α}
    (h : e.value p x = some v) : e.simplify.value p x = some v :=
  simplifyFrom_keepsValue e.count e p x v h

end Expr

/-! ## The rationals -/

namespace ExactRational

/-- A change of sign and the absolute value; the other operators have no rational value. -/
def unary : UnaryOp → Rat → Option Rat
  | .neg, a => some (-a)
  | .abs, a => some (if 0 ≤ a then a else -a)
  | _, _ => none

/-- Division lacks a value at zero, and a power has one for natural exponents. -/
def binary : BinaryOp → Rat → Rat → Option Rat
  | .add, a, b => some (a + b)
  | .sub, a, b => some (a - b)
  | .mul, a, b => some (a * b)
  | .div, a, b => if b = 0 then none else some (a / b)
  | .pow, a, b => if b.den = 1 ∧ 0 ≤ b.num then some (a ^ b.num.toNat) else none

end ExactRational

instance : FoldingDomain Rat where
  zero := 0
  one := 1
  isZero a := a == 0
  isOne a := a == 1
  same a b := a == b
  same_self a := by simp
  unary? := ExactRational.unary
  binary? := ExactRational.binary

instance : ExactArithmetic Rat where
  unary := ExactRational.unary
  binary := ExactRational.binary
  add := (· + ·)
  mul := (· * ·)
  binary_add _ _ := rfl
  binary_mul _ _ := rfl
  add_assoc := Rat.add_assoc
  add_comm := Rat.add_comm
  mul_assoc := Rat.mul_assoc
  mul_comm := Rat.mul_comm
  add_zero := Rat.add_zero
  sub_zero a := by
    show some (a - 0) = some a
    rw [Rat.sub_eq_add_neg, Rat.neg_zero, Rat.add_zero]
  zero_sub a := by
    show some (0 - a) = some (-a)
    rw [Rat.sub_eq_add_neg, Rat.zero_add]
  neg_neg a := congrArg some (Rat.neg_neg a)
  mul_one := Rat.mul_one
  mul_zero := Rat.mul_zero
  div_one a := by
    have hinv : (1 : Rat)⁻¹ = 1 := by
      have := Rat.mul_inv_cancel 1 (by decide)
      rwa [Rat.one_mul] at this
    show some (a / 1) = some a
    rw [Rat.div_def, hinv, Rat.mul_one]
  pow_one a := congrArg some (Rat.pow_one a)
  pow_zero a := congrArg some (Rat.pow_zero a)
  eq_zero _ h := eq_of_beq h
  eq_one _ h := eq_of_beq h
  unary?_exact _ _ _ h := h
  binary?_exact _ _ _ _ h := h

namespace Expr

/-- The constants of the sum `(2 + x) + (3 + x ^ 1)` are merged, and its value is kept. -/
theorem value_simplify_sum :
    let e : Expr Rat := .binary .add (.binary .add (.constant 2) .var)
      (.binary .add (.constant 3) (.binary .pow .var (.constant 1)))
    e.simplify.count < e.count ∧ e.simplify.value (fun _ => none) (1 / 2) = some 6 :=
  ⟨by decide +kernel, value_simplify (by decide +kernel)⟩

end Expr

end FormulaSearch
