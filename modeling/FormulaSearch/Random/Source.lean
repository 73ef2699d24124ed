/-!
# Sources of randomness

A source gives a number of the unit interval, or a natural number below a bound, and the source to go on
with. All other draws are built from these two.
-/

namespace FormulaSearch

/-- A stream of random numbers as a state. -/
class RandomSource (σ : Type) where
  /-- A draw from the unit interval. -/
  unit : σ → Float × σ
  /-- A draw below a bound. -/
  below : Nat → σ → Nat × σ
  below_lt : ∀ (n : Nat) (s : σ), 0 < n → (below n s).1 < n

namespace RandomSource

variable {σ : Type} [RandomSource σ]

/-- A draw from an interval: its width is scaled by a draw from the unit interval. -/
def uniform (lower upper : Float) (s : σ) : Float × σ :=
  let (u, s) := unit s
  (lower + (upper - lower) * u, s)

/-- A natural number between two bounds, both included. -/
def between (lower upper : Nat) (s : σ) : Nat × σ :=
  let (k, s) := below (upper - lower + 1) s
  (lower + k, s)

theorem between_le (lower upper : Nat) (s : σ) (h : lower ≤ upper) :
    (between lower upper s).1 ≤ upper := by
  have := below_lt (upper - lower + 1) s (by omega)
  simp only [between]
  omega

/-- A member of a list. -/
def choose {α : Type} (xs : List α) (h : 0 < xs.length) (s : σ) : α × σ :=
  let draw := below xs.length s
  (xs.get ⟨draw.1, below_lt xs.length s h⟩, draw.2)

/-- One draw per element, in order. -/
def uniforms (lower upper : Float) : Nat → σ → List Float × σ
  | 0, s => ([], s)
  | n + 1, s =>
    let (v, s) := uniform lower upper s
    let (vs, s) := uniforms lower upper n s
    (v :: vs, s)

end RandomSource

/-! ## Scripted draws -/

/-- Draws that are known in advance, from the next one on; at the end they start over. -/
structure ScriptedDraws where
  draws : List Float
  ahead : List Float

namespace ScriptedDraws

def ofList (draws : List Float) : ScriptedDraws := ⟨draws, draws⟩

/-- The next draw; a script without draws gives zero. -/
def next (s : ScriptedDraws) : Float × ScriptedDraws :=
  match s.ahead with
  | v :: rest => (v, { s with ahead := rest })
  | [] =>
    match s.draws with
    | v :: rest => (v, { s with ahead := rest })
    | [] => (0.0, s)

/-- The part of a bound that a draw cuts off, as a whole number below the bound. -/
def portion (bound : Nat) (draw : Float) : Nat :=
  min (draw * Float.ofNat bound).toUInt64.toNat (bound - 1)

instance : RandomSource ScriptedDraws where
  unit := next
  below bound s := (portion bound s.next.1, s.next.2)
  below_lt bound _ h := by simp only [portion]; omega

end ScriptedDraws

end FormulaSearch
