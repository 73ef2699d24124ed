/-!
# Doubles as exact numbers

A finite double is a signed dyadic rational `± mantissa * 2 ^ exponent`. This module takes a double
apart into that form and finds the double nearest to a quotient of naturals, both in exact natural
number arithmetic, so that the decimal reader and the decimal printers never round twice.
-/

namespace FormulaSearch.Decimal

/-! ## Powers -/

/-- A power of two. -/
def twoTo (n : Nat) : Nat := Nat.pow 2 n

/-- A power of ten. -/
def tenTo (n : Nat) : Nat := Nat.pow 10 n

/-! ## Rounding a quotient -/

/-- The integer nearest to `num / den`; a half goes to the even neighbour. -/
def roundHalfEven (num den : Nat) : Nat :=
  let below := num / den
  let rest := num % den
  if den < 2 * rest ∨ (2 * rest = den ∧ below % 2 = 1) then below + 1 else below

/-! ## Taking a double apart -/

/-- The magnitude `mantissa * 2 ^ exponent` of a finite double. -/
structure Dyadic where
  mantissa : Nat
  exponent : Int
deriving DecidableEq, Repr

/-- The four kinds of double, the sign kept wherever a double has one. -/
inductive Binary64 where
  | nan
  | infinity (negative : Bool)
  | finite (negative : Bool) (magnitude : Dyadic)
deriving DecidableEq, Repr

/-- Splits the 64 bits into sign, exponent and fraction. -/
def Binary64.ofBits (bits : Nat) : Binary64 :=
  let negative := bits / twoTo 63 % 2 == 1
  let biased : Nat := bits / twoTo 52 % 2048
  let fraction := bits % twoTo 52
  if biased = 2047 then
    if fraction = 0 then .infinity negative else .nan
  else if biased = 0 then
    .finite negative ⟨fraction, -1074⟩
  else
    .finite negative ⟨fraction + twoTo 52, (biased : Int) - 1075⟩

/-- The exact value of a double. -/
def Binary64.ofFloat (v : Float) : Binary64 :=
  Binary64.ofBits v.toBits.toNat

/-! ## The nearest double -/

/-- The greatest `e` with `2 ^ e ≤ num / den`, for positive `num` and `den`. -/
def binaryExponent (num den : Nat) : Int :=
  let estimate : Int := (num.log2 : Int) - (den.log2 : Int)
  if num * twoTo (-estimate).toNat < den * twoTo estimate.toNat then estimate - 1 else estimate

/-- The bit pattern of positive infinity, above which no finite pattern lies. -/
def infinityBits : Nat := 2047 * twoTo 52

/-- The bit pattern of the double nearest to `num / den`, ties to even, overflow to infinity. -/
def nearestBits (num den : Nat) : Nat :=
  if num = 0 ∨ den = 0 then 0 else
    let exponent := max (binaryExponent num den - 52) (-1074)
    let mantissa := roundHalfEven (num * twoTo (-exponent).toNat) (den * twoTo exponent.toNat)
    min ((exponent + 1074).toNat * twoTo 52 + mantissa) infinityBits

/-- The double nearest to `± num / den`. -/
def nearest (negative : Bool) (num den : Nat) : Float :=
  Float.ofBits (UInt64.ofNat (nearestBits num den + if negative then twoTo 63 else 0))

end FormulaSearch.Decimal
