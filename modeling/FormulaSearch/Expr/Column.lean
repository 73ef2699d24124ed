import FormulaSearch.Expr.Operator

/-!
# Columns of values

A subexpression has one value for all samples or one value per sample. Operators act sample by sample,
and a single value stands for as many equal ones as are needed.
-/

namespace FormulaSearch

inductive Column where
  | single (value : Float)
  | many (values : List Float)

namespace Column

/-- Whether the column holds exactly one value. -/
def isSingle : Column → Bool
  | single _ => true
  | many vs => vs.length == 1

def map (f : Float → Float) : Column → Column
  | single v => single (f v)
  | many vs => many (vs.map f)

def zipWith (f : Float → Float → Float) : Column → Column → Column
  | single a, single b => single (f a b)
  | single a, many bs => many (bs.map (f a))
  | many as, single b => many (as.map (f · b))
  | many as, many bs => many (List.zipWith f as bs)

/-- Applies an operator to two columns. -/
def combine (op : BinaryOp) (a b : Column) : Column :=
  zipWith (op.apply b.isSingle) a b

/-- The values for `size` samples. -/
def spread (size : Nat) : Column → List Float
  | single v => List.replicate size v
  | many vs => vs

end Column

end FormulaSearch
