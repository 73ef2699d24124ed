import FormulaSearch.Generate

/-!
# How a formula is grown

A formula is grown by what the source draws, and each way in which the draws can turn out is a rule: a leaf is
the variable, a new parameter or a constant of the table, and a formula is such a leaf, or an operator whose
operands are grown from what is left of the budget, one after the other. Growing follows these rules, and the
rules leave it no choice. So whatever growing keeps is shown by induction on them, once for each rule.
-/

namespace FormulaSearch

variable {σ : Type} [RandomSource σ]

/-! ## Draws -/

/-- The states that a source of randomness can come to. -/
inductive Drawn (source : σ) : σ → Prop where
  | start : Drawn source source
  | unit {s : σ} (h : Drawn source s) : Drawn source (RandomSource.unit s).2
  | bounded {s : σ} (n : Nat) (h : Drawn source s) : Drawn source (RandomSource.below n s).2

/-- A script of one draw is at it or behind it. -/
theorem drawn_singleton {v : Float} {s : ScriptedDraws} (h : Drawn (.ofList [v]) s) :
    s = ⟨[v], [v]⟩ ∨ s = ⟨[v], []⟩ := by
  induction h with
  | start => exact .inl rfl
  | unit _ ih | bounded _ _ ih =>
    rcases ih with rfl | rfl
    · exact .inr rfl
    · exact .inr rfl

/-- Every draw from an interval is a number. -/
def NumericDraws (source : σ) (lower upper : Float) : Prop :=
  ∀ s, Drawn source s → (RandomSource.uniform lower upper s).1.isNaN = false

theorem Drawn.uniform {source s : σ} (h : Drawn source s) (lower upper : Float) :
    Drawn source (RandomSource.uniform lower upper s).2 := h.unit

theorem Drawn.of_unit {source s t : σ} {v : Float} (h : Drawn source s)
    (heq : RandomSource.unit s = (v, t)) : Drawn source t := by
  have := h.unit
  rwa [heq] at this

theorem Drawn.of_uniform {source s t : σ} {lower upper v : Float} (h : Drawn source s)
    (heq : RandomSource.uniform lower upper s = (v, t)) : Drawn source t := by
  have := h.uniform lower upper
  rwa [heq] at this

theorem Drawn.of_choose {source s t : σ} {α : Type} {xs : List α} {hxs : 0 < xs.length} {x : α}
    (h : Drawn source s) (heq : RandomSource.choose xs hxs s = (x, t)) : Drawn source t := by
  have : Drawn source (RandomSource.choose xs hxs s).2 := h.bounded xs.length
  rwa [heq] at this

theorem Drawn.of_between {source s t : σ} {lower upper n : Nat} (h : Drawn source s)
    (heq : RandomSource.between lower upper s = (n, t)) : Drawn source t := by
  have : Drawn source (RandomSource.between lower upper s).2 := h.bounded (upper - lower + 1)
  rwa [heq] at this

theorem Drawn.uniforms {source s : σ} (h : Drawn source s) (lower upper : Float) (n : Nat) :
    Drawn source (RandomSource.uniforms lower upper n s).2 := by
  induction n generalizing s with
  | zero => exact h
  | succ n ih => exact ih (h.uniform lower upper)

theorem NumericDraws.uniforms {source s : σ} {lower upper : Float}
    (hd : NumericDraws source lower upper) (h : Drawn source s) (n : Nat) :
    ∀ v ∈ (RandomSource.uniforms lower upper n s).1, v.isNaN = false := by
  induction n generalizing s with
  | zero =>
    intro v hv
    cases hv
  | succ n ih =>
    intro v hv
    rcases List.mem_cons.mp hv with rfl | hv
    · exact hd s h
    · exact ih (h.uniform lower upper) v hv

theorem length_uniforms (lower upper : Float) (n : Nat) (s : σ) :
    (RandomSource.uniforms lower upper n s).1.length = n := by
  induction n generalizing s with
  | zero => rfl
  | succ n ih => exact congrArg (· + 1) (ih _)

/-! ## Leaves -/

section

open RandomSource

/-- What drawing a leaf can come to. -/
inductive DrawsLeaf (settings : Settings) (params : Params) (s : σ) : Formula × Params × σ → Prop where
  | var {t : σ} {roll : Float} (hroll : unit s = (roll, t)) :
    DrawsLeaf settings params s (.var, params, t)
  | parameter {t u : σ} {roll value : Float} (hroll : unit s = (roll, t))
    (hvalue : uniform settings.paramValueMin settings.paramValueMax t = (value, u)) :
    DrawsLeaf settings params s (.parameter (params.addFresh value).1, (params.addFresh value).2, u)
  | constant {t u : σ} {roll value : Float} (hroll : unit s = (roll, t))
    (hvalue : choose constantTable (by decide) t = (value, u)) :
    DrawsLeaf settings params s (.constant value, params, u)

theorem drawsLeaf_randomLeaf (settings : Settings) (params : Params) (s : σ) :
    DrawsLeaf settings params s (randomLeaf settings params s) := by
  rw [randomLeaf]
  dsimp only
  split
  · exact .var rfl
  · split
    · exact .parameter rfl rfl
    · exact .constant rfl rfl

/-! ## Growing -/

/-- What growing within a budget comes to, by what is drawn: the end of the budget or the first draw makes a
leaf, the second draw decides between one operand and two, and two share the rest of the budget at a cut. -/
inductive GrowsTo (settings : Settings) : Nat → Params → σ → Formula × Params × σ → Prop where
  | exhausted (params : Params) (s : σ) : GrowsTo settings 0 params s (randomLeaf settings params s)
  | leaf (remaining : Nat) (params : Params) {s t : σ} {roll : Float}
    (hroll : unit s = (roll, t)) (hleaf : roll < settings.leafProbability) :
    GrowsTo settings (remaining + 1) params s (randomLeaf settings params t)
  | unary {remaining : Nat} {params params' : Params} {s t u v w : σ} {roll roll' : Float}
    {op : UnaryOp} {child : Formula}
    (hroll : unit s = (roll, t)) (hleaf : ¬ roll < settings.leafProbability)
    (hroll' : unit t = (roll', u)) (hunary : roll' < settings.unaryProbability)
    (hop : choose UnaryOp.all (by decide) u = (op, v))
    (hchild : GrowsTo settings remaining params v (child, params', w)) :
    GrowsTo settings (remaining + 1) params s (.unary op child, params', w)
  | binary {remaining cut : Nat} {params params' params'' : Params} {s t u v w x y : σ}
    {roll roll' : Float} {op : BinaryOp} {left right : Formula}
    (hroll : unit s = (roll, t)) (hleaf : ¬ roll < settings.leafProbability)
    (hroll' : unit t = (roll', u)) (hunary : ¬ roll' < settings.unaryProbability)
    (hop : choose BinaryOp.all (by decide) u = (op, v))
    (hcut : between 0 remaining v = (cut, w)) (hle : cut ≤ remaining)
    (hleft : GrowsTo settings cut params w (left, params', x))
    (hright : GrowsTo settings (remaining - cut) params' x (right, params'', y)) :
    GrowsTo settings (remaining + 1) params s (.binary op left right, params'', y)

variable {settings : Settings}

theorem growsTo_grow (settings : Settings) (budget : Nat) (params : Params) (s : σ) :
    GrowsTo settings budget params s (grow settings budget params s) := by
  fun_induction grow settings budget params s with
  | case1 params s => exact .exhausted params s
  | case2 params s remaining roll t hroll hleaf => exact .leaf remaining params hroll hleaf
  | case3 params s remaining roll t hroll hleaf roll' u hroll' hunary op v hop child params' w hchild
      ih =>
    rw [hchild] at ih
    exact .unary hroll hleaf hroll' hunary hop ih
  | case4 params s remaining roll t hroll hleaf roll' u hroll' hunary op v hop cut w hcut hle left
      params' x hleft right params'' y hright ihl ihr =>
    rw [hleft] at ihl
    rw [hright] at ihr
    exact .binary hroll hleaf hroll' hunary hop hcut hle ihl ihr

/-- The source that is left once an operator has been drawn. -/
theorem Drawn.operator {source s t u v : σ} {roll roll' : Float} {α : Type} {ops : List α}
    {hops : 0 < ops.length} {op : α} (h : Drawn source s)
    (hroll : RandomSource.unit s = (roll, t)) (hroll' : RandomSource.unit t = (roll', u))
    (hop : choose ops hops u = (op, v)) : Drawn source v :=
  ((h.of_unit hroll).of_unit hroll').of_choose hop

theorem DrawsLeaf.drawn {params : Params} {source s : σ} {out : Formula × Params × σ}
    (h : DrawsLeaf settings params s out) (hs : Drawn source s) : Drawn source out.2.2 := by
  cases h with
  | var hroll => exact hs.of_unit hroll
  | parameter hroll hvalue => exact (hs.of_unit hroll).of_uniform hvalue
  | constant hroll hvalue => exact (hs.of_unit hroll).of_choose hvalue

/-- Growing only draws from the source. -/
theorem GrowsTo.drawn {budget : Nat} {params : Params} {source s : σ} {out : Formula × Params × σ}
    (h : GrowsTo settings budget params s out) (hs : Drawn source s) : Drawn source out.2.2 := by
  induction h with
  | exhausted => exact (drawsLeaf_randomLeaf ..).drawn hs
  | leaf _ _ hroll _ => exact (drawsLeaf_randomLeaf ..).drawn (hs.of_unit hroll)
  | unary hroll _ hroll' _ hop _ ih => exact ih (hs.operator hroll hroll' hop)
  | binary hroll _ hroll' _ hop hcut _ _ _ ihl ihr =>
    exact ihr (ihl ((hs.operator hroll hroll' hop).of_between hcut))

end

end FormulaSearch
