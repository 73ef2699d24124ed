import FormulaSearch.Expr.Basic

/-!
# Canonical parameter names

Parameters are named `a`, `b`, … without the letter of the variable, then `a1`, `b1`, …, and so on
without end.
-/

namespace FormulaSearch

/-- The letters of parameter names: the alphabet without the variable. -/
def nameLetters : List Char :=
  ['a', 'b', 'c', 'd', 'e', 'f', 'g', 'h', 'i', 'j', 'k', 'l', 'm', 'n', 'o', 'p', 'q', 'r', 's',
    't', 'u', 'v', 'w', 'y', 'z']

/-- The number after the letter; the first round of letters has none. -/
def nameSuffix (round : Nat) : String := if round = 0 then "" else toString round

/-- The canonical name with the given index. -/
def canonicalName (index : Nat) : String :=
  (nameLetters.getD (index % nameLetters.length) 'a').toString
    ++ nameSuffix (index / nameLetters.length)

/-- The first `count` canonical names. -/
def canonicalNames (count : Nat) : List String := (List.range count).map canonicalName

/-- The first canonical name that is not among the given ones; one more candidate than there are
names to avoid is always enough. -/
def freshName (used : List String) : String :=
  ((canonicalNames (used.length + 1)).find? (!used.contains ·)).getD
    (canonicalName used.length)

end FormulaSearch
