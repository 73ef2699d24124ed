import FormulaSearch.CanonicalName
import FormulaSearch.Decimal.Notation
import FormulaSearch.Expr.Eval

/-!
# Parameters

The parameters of a formula are an ordered list of names with values, each name at most once. The list
is the whole state, so lookup, order and membership cannot disagree. An operation that fails gives no
new list, so the old one stays as it was.
-/

namespace FormulaSearch

/-- Why an operation on parameters is refused. -/
inductive ParamsError where
  | duplicate (name : String)
  | unknown (name : String)
  | wrongCount (expected got : Nat)
deriving DecidableEq, Repr

/-- A value moved into an interval; a value that is no number stays as it is. -/
def clampTo (lower upper v : Float) : Float :=
  let raised := if lower > v then lower else v
  if upper < raised then upper else raised

/-- Whether a value lies in an interval. -/
def isWithin (lower upper v : Float) : Bool := lower ≤ v && v ≤ upper

/-- Parameters with distinct names, in the order in which they were added. -/
structure Params where
  entries : List (String × Float)
  distinct : (entries.map Prod.fst).Nodup

namespace Params

def empty : Params := ⟨[], List.nodup_nil⟩

instance : Inhabited Params := ⟨empty⟩

/-! ## Reading -/

def names (p : Params) : List String := p.entries.map Prod.fst

def values (p : Params) : List Float := p.entries.map Prod.snd

def size (p : Params) : Nat := p.entries.length

def contains (p : Params) (name : String) : Bool := p.names.contains name

def get? (p : Params) (name : String) : Option Float := p.entries.lookup name

/-- The position of a name in the order. -/
def position? (p : Params) (name : String) : Option Nat := p.names.idxOf? name

/-- The values as an assignment. -/
def assignment (p : Params) : Assignment := p.get?

/-- Whether every value lies in an interval. -/
def within (p : Params) (lower upper : Float) : Bool := p.values.all (isWithin lower upper)

/-- Whether two lists have the same names in the same order with the same values. -/
def agrees (p q : Params) : Bool :=
  p.names == q.names && (p.values.zip q.values).all fun (a, b) => sameConstant a b

/-- The parameters as text, values in full. -/
def text (p : Params) : String :=
  "Params(" ++ ", ".intercalate (p.entries.map fun (n, v) => n ++ "=" ++ Decimal.fullText v) ++ ")"

/-! ## Writing -/

/-- Appends a parameter unless the name is taken. -/
def insert (p : Params) (name : String) (value : Float) : Params :=
  if h : name ∈ p.entries.map Prod.fst then p else
    ⟨p.entries ++ [(name, value)], by
      rw [List.map_append, List.nodup_append]
      refine ⟨p.distinct, by simp, fun a ha b hb hab => ?_⟩
      simp only [List.map_cons, List.map_nil, List.mem_singleton] at hb
      exact h (hb ▸ hab ▸ ha)⟩

/-- Appends a parameter with a new name. -/
def add (p : Params) (name : String) (value : Float) : Except ParamsError Params :=
  if p.contains name then .error (.duplicate name) else .ok (p.insert name value)

/-- Parameters from a list of names and values. -/
def ofList (entries : List (String × Float)) : Except ParamsError Params :=
  entries.foldlM (fun p (n, v) => p.add n v) empty

/-- Changes each value by a function of its name and value. -/
def mapValues (f : String → Float → Float) (p : Params) : Params :=
  ⟨p.entries.map fun (n, v) => (n, f n v), by
    simpa [List.map_map, Function.comp_def] using p.distinct⟩

/-- Gives a parameter a new value. -/
def set (p : Params) (name : String) (value : Float) : Except ParamsError Params :=
  if p.contains name then .ok (p.mapValues fun n v => if n = name then value else v)
  else .error (.unknown name)

/-- Moves every value into an interval. -/
def clamp (p : Params) (lower upper : Float) : Params := p.mapValues fun _ => clampTo lower upper

/-- The names with other values in their order; too few values leave the last ones as they are. -/
def overwrite : List (String × Float) → List Float → List (String × Float)
  | (n, _) :: entries, v :: values => (n, v) :: overwrite entries values
  | entries, _ => entries

theorem map_fst_overwrite (entries : List (String × Float)) (values : List Float) :
    (overwrite entries values).map Prod.fst = entries.map Prod.fst := by
  fun_induction overwrite entries values <;> simp_all

/-- The parameters with other values in their order. -/
def withValues (p : Params) (values : List Float) : Params :=
  ⟨overwrite p.entries values, by rw [map_fst_overwrite]; exact p.distinct⟩

/-- Gives all parameters new values, one for each. -/
def setValues (p : Params) (values : List Float) : Except ParamsError Params :=
  if values.length = p.size then .ok (p.withValues values)
  else .error (.wrongCount p.size values.length)

/-- Appends a parameter under the first free canonical name. -/
def addFresh (p : Params) (value : Float) : String × Params :=
  let name := freshName p.names
  (name, p.insert name value)

end Params

end FormulaSearch
