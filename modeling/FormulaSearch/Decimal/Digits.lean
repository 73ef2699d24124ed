import FormulaSearch.Decimal.Binary

/-!
# Decimal digits of a double

Three ways to choose decimal digits for a positive dyadic number: the fewest that read back as the
same double, a given count of significant digits, and a given count of places. All three work on the
exact value.
-/

namespace FormulaSearch.Decimal

/-- The number `coefficient * 10 ^ exponent`. -/
structure Scaled where
  coefficient : Nat
  exponent : Int
deriving DecidableEq, Repr

/-- How many decimal digits a number has; zero has none. -/
def digitCount (n : Nat) : Nat :=
  if n = 0 then 0 else (Nat.toDigits 10 n).length

/-- The greatest `e` with `10 ^ e ≤ num / den`, for positive `num` and `den`. -/
def decimalExponent (num den : Nat) : Int :=
  if den ≤ num then (digitCount (num / den) : Int) - 1
  else -(digitCount ((den - 1) / num) : Int)

namespace Dyadic

/-- Numerator of the magnitude. -/
def num (d : Dyadic) : Nat := d.mantissa * twoTo d.exponent.toNat

/-- Denominator of the magnitude. -/
def den (d : Dyadic) : Nat := twoTo (-d.exponent).toNat

/-! ## The fewest digits that read back -/

/-- The reals that round to a double: the two ends as naturals over one denominator, and whether
the ends themselves belong to it. -/
structure Interval where
  low : Nat
  high : Nat
  den : Nat
  closed : Bool

/-- Half a unit to either side, but only a quarter below a power of two, where the doubles
are twice as dense; an even mantissa wins its ties. -/
def interval (d : Dyadic) : Interval :=
  let belowGap := if d.mantissa = twoTo 52 ∧ -1074 < d.exponent then 1 else 2
  let unit := twoTo d.exponent.toNat
  { low := (4 * d.mantissa - belowGap) * unit
    high := (4 * d.mantissa + 2) * unit
    den := 4 * d.den
    closed := d.mantissa % 2 == 0 }

/-- Whether `num / den` lies in the interval. -/
def Interval.holds (i : Interval) (num den : Nat) : Bool :=
  if i.closed then i.low * den ≤ num * i.den && num * i.den ≤ i.high * den
  else i.low * den < num * i.den && num * i.den < i.high * den

/-- The point of the grid of multiples of `10 ^ unit` that reads back as `d`, if there is one:
one of the two neighbours of the value, the nearer if both do, the even one if they tie. -/
def onGrid? (d : Dyadic) (unit : Int) : Option Nat :=
  let up := tenTo unit.toNat
  let down := tenTo (-unit).toNat
  let below := d.num * down / (d.den * up)
  let fits (c : Nat) : Bool := d.interval.holds (c * up) down
  match fits below, fits (below + 1) with
  | true, true => some (roundHalfEven (d.num * down) (d.den * up))
  | true, false => some below
  | false, true => some (below + 1)
  | false, false => none

/-- Seventeen digits always read back, so the search for the coarsest grid ends there. -/
def shortestFrom (d : Dyadic) (lead : Int) : Nat → Nat → Scaled
  | 0, _ => ⟨0, 0⟩
  | fuel + 1, count =>
    let unit := lead - (count : Int) + 1
    match d.onGrid? unit with
    | some c => ⟨c, unit⟩
    | none => shortestFrom d lead fuel (count + 1)

/-- The fewest digits that read back as `d`, and of those the nearest. -/
def shortest (d : Dyadic) : Scaled :=
  if d.mantissa = 0 then ⟨0, 0⟩ else d.shortestFrom (decimalExponent d.num d.den) 18 1

/-! ## A given count of digits or places -/

/-- The multiple of `10 ^ unit` nearest to `d`. -/
def roundedTo (d : Dyadic) (unit : Int) : Scaled :=
  ⟨roundHalfEven (d.num * tenTo (-unit).toNat) (d.den * tenTo unit.toNat), unit⟩

/-- `d` to `count` significant digits; a carry past the first digit moves the exponent. -/
def significant (d : Dyadic) (count : Nat) : Scaled :=
  if d.mantissa = 0 then ⟨0, 1 - (count : Int)⟩ else
    let r := d.roundedTo (decimalExponent d.num d.den - (count : Int) + 1)
    if r.coefficient = tenTo count then ⟨tenTo (count - 1), r.exponent + 1⟩ else r

end Dyadic

end FormulaSearch.Decimal
