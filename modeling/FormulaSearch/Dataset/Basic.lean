/-!
# Datasets

A dataset is a nonempty list of samples, each an input with an observed output, in file order.
-/

namespace FormulaSearch

structure Dataset where
  xs : List Float
  ys : List Float
  source : Option String
  sameLength : xs.length = ys.length
  nonempty : xs ≠ []

/-- Why columns do not make a dataset. -/
inductive DatasetError where
  | notOneDimensional
  | lengthsDiffer (xs ys : Nat)
  | empty
deriving DecidableEq, Repr

def DatasetError.message : DatasetError → String
  | notOneDimensional => "dataset columns must be one-dimensional"
  | lengthsDiffer xs ys =>
    "x has " ++ toString xs ++ " samples but y has " ++ toString ys
  | empty => "dataset must contain at least one sample"

namespace Dataset

/-- A dataset from two columns. -/
def ofColumns (xs ys : List Float) (source : Option String) : Except DatasetError Dataset :=
  if sameLength : xs.length = ys.length then
    if nonempty : xs = [] then .error .empty
    else .ok { xs, ys, source, sameLength, nonempty }
  else .error (.lengthsDiffer xs.length ys.length)

/-- A dataset from samples. -/
def ofPairs (pairs : List (Float × Float)) (source : Option String) : Except DatasetError Dataset :=
  ofColumns (pairs.map Prod.fst) (pairs.map Prod.snd) source

/-- The samples. -/
def pairs (d : Dataset) : List (Float × Float) := d.xs.zip d.ys

/-- The number of samples. -/
def size (d : Dataset) : Nat := d.xs.length

end Dataset

end FormulaSearch
