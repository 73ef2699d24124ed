import FormulaSearch.Dataset.Basic
import FormulaSearch.Expr.Eval
import FormulaSearch.Text.Quoted

/-!
# Residuals

How far a formula is from a dataset: the sum of the squares, or of the magnitudes, of the differences
between predicted and observed outputs. A prediction that is not finite makes the residual infinite.
Sums are taken pairwise in blocks, which fixes the rounding.
-/

namespace FormulaSearch

/-! ## Pairwise sums -/

/-- Cuts values into groups of eight and fewer than eight that are left. -/
def inEights : List Float → List (List Float) × List Float
  | a :: b :: c :: d :: e :: f :: g :: h :: rest =>
    let (groups, left) := inEights rest
    ([a, b, c, d, e, f, g, h] :: groups, left)
  | few => ([], few)

/-- The sum of eight values as a balanced tree. -/
def sumOfEight : List Float → Float
  | [a, b, c, d, e, f, g, h] => ((a + b) + (c + d)) + ((e + f) + (g + h))
  | vs => vs.foldl (· + ·) 0.0

/-- The sum of a block: groups of eight are added value by value, their totals as a tree, and what is
left one by one. -/
def sumBlock (vs : List Float) : Float :=
  match inEights vs with
  | ([], few) => few.foldl (· + ·) 0.0
  | (first :: groups, left) =>
    left.foldl (· + ·) (sumOfEight (groups.foldl (List.zipWith (· + ·)) first))

/-- The most values in a block. -/
def blockLimit : Nat := 128

/-- The sum of values, halved until the halves are blocks; `depth` bounds the halvings. -/
def sumHalves : Nat → List Float → Float
  | 0, vs => sumBlock vs
  | depth + 1, vs =>
    if vs.length ≤ blockLimit then sumBlock vs else
      let half := vs.length / 2 - vs.length / 2 % 8
      sumHalves depth (vs.take half) + sumHalves depth (vs.drop half)

/-- The sum of values. -/
def pairwiseSum (vs : List Float) : Float := 0.0 + sumHalves vs.length vs

/-! ## Kinds of residual -/

/-- A name that is not one of the names to choose from. -/
structure UnknownChoice where
  subject : String
  name : String
  choices : List String
deriving DecidableEq, Repr

def UnknownChoice.message (e : UnknownChoice) : String :=
  "Unknown " ++ e.subject ++ ": " ++ Text.quoted e.name ++ " (choose from "
    ++ ", ".intercalate e.choices ++ ")"

inductive ResidualKind where
  | leastSquares
  | absolute
deriving DecidableEq, Repr

/-- Columns of different lengths, neither of which is a single value. -/
structure LengthMismatch where
  left : Nat
  right : Nat
deriving DecidableEq, Repr

def LengthMismatch.message (e : LengthMismatch) : String :=
  "operands could not be broadcast together with shapes (" ++ toString e.left ++ ",) ("
    ++ toString e.right ++ ",) "

namespace ResidualKind

def all : List ResidualKind := [leastSquares, absolute]

def name : ResidualKind → String
  | leastSquares => "least_squares"
  | absolute => "absolute"

/-- The kind with a name. -/
def ofName (s : String) : Except UnknownChoice ResidualKind :=
  match all.find? (·.name == s) with
  | some kind => .ok kind
  | none => .error ⟨"residual function", s, all.map name⟩

/-- What one sample adds. -/
def term (kind : ResidualKind) (predicted observed : Float) : Float :=
  let difference := predicted - observed
  match kind with
  | leastSquares => difference * difference
  | absolute => difference.abs

/-- The total over samples. -/
def total (kind : ResidualKind) (predicted observed : List Float) : Float :=
  pairwiseSum (List.zipWith kind.term predicted observed)

/-- The total over two columns, a single value standing for as many as the other column has. -/
def totalOfColumns (kind : ResidualKind) (predicted observed : List Float) :
    Except LengthMismatch Float :=
  match predicted, observed with
  | [p], os => .ok (pairwiseSum (os.map (kind.term p)))
  | ps, [o] => .ok (pairwiseSum (ps.map (kind.term · o)))
  | ps, os =>
    if ps.length = os.length then .ok (kind.total ps os) else .error ⟨ps.length, os.length⟩

end ResidualKind

/-- Infinity, the residual of a formula that does not fit at all. -/
def infinity : Float := 1.0 / 0.0

/-- The residual of predictions, infinite unless all of them and the total are finite. -/
def residualOf (kind : ResidualKind) (predicted observed : List Float) : Float :=
  if predicted.all Float.isFinite then
    let value := kind.total predicted observed
    if value.isFinite then value else infinity
  else infinity

/-- The residual of a formula under an assignment. -/
def residual (kind : ResidualKind) (e : Formula) (p : Assignment) (d : Dataset) :
    Except MissingParameter Float :=
  (e.evaluateAll p d.xs).map fun predicted => residualOf kind predicted d.ys

end FormulaSearch
