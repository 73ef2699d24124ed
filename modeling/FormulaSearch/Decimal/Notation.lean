import FormulaSearch.Decimal.Digits

/-!
# Number notation

How chosen decimal digits are laid out as text. A `Layout` record says from which exponents on the
exponent form is used and whether a whole number keeps `.0`. The two layouts of this program are the
full one, which shows every digit needed to read the number back, and the short one of six digits.
-/

namespace FormulaSearch.Decimal

/-- The decisions of a general number format. -/
structure Layout where
  /-- Exponents from here on are written in exponent form. -/
  exponentFrom : Int
  /-- Whether a whole number in positional form ends with `.0`. -/
  keepsPoint : Bool

/-- Sixteen integer digits are still written out, and a whole number shows its point. -/
def fullLayout : Layout := ⟨16, true⟩

/-- Six digits at most are written out, and a whole number shows no point. -/
def shortLayout : Layout := ⟨6, false⟩

/-- The lowest decimal exponent that is written positionally. -/
def leastPositional : Int := -4

/-- The decimal digits of a number. -/
def digitsOf (n : Nat) : List Char := Nat.toDigits 10 n

/-- Drops zeros from the end of a digit list, keeping a first digit. -/
def trimZeros (digits : List Char) : List Char :=
  match (digits.reverse.dropWhile (· == '0')).reverse with
  | [] => ['0']
  | kept => kept

/-- The exponent with its sign and at least two digits. -/
def exponentText (e : Int) : String :=
  let digits := digitsOf e.natAbs
  let padded := if digits.length < 2 then '0' :: digits else digits
  "e" ++ (if e < 0 then "-" else "+") ++ String.ofList padded

/-- Digits with a point after the first, and an exponent. -/
def exponentForm (digits : List Char) (e : Int) : String :=
  match digits with
  | [] => exponentText e
  | [d] => String.ofList [d] ++ exponentText e
  | d :: rest => String.ofList (d :: '.' :: rest) ++ exponentText e

/-- Digits with the point where an exponent of `e` puts it. -/
def positionalForm (keepsPoint : Bool) (digits : List Char) (e : Int) : String :=
  let whole := (e + 1).toNat
  if e < 0 then
    String.ofList ('0' :: '.' :: (List.replicate (-e - 1).toNat '0' ++ digits))
  else if digits.length ≤ whole then
    String.ofList (digits ++ List.replicate (whole - digits.length) '0')
      ++ (if keepsPoint then ".0" else "")
  else
    String.ofList (digits.take whole ++ '.' :: digits.drop whole)

/-- A magnitude in the given layout. -/
def Layout.write (layout : Layout) (s : Scaled) : String :=
  let all := digitsOf s.coefficient
  let e := if s.coefficient = 0 then 0 else s.exponent + (all.length : Int) - 1
  let digits := trimZeros all
  if leastPositional ≤ e ∧ e < layout.exponentFrom then
    positionalForm layout.keepsPoint digits e
  else
    exponentForm digits e

/-- Text of a double whose finite magnitude is written by `write`. NaN carries no sign. -/
def signedText (write : Dyadic → String) (v : Float) : String :=
  let sign (negative : Bool) : String := if negative then "-" else ""
  match Binary64.ofFloat v with
  | .nan => "nan"
  | .infinity negative => sign negative ++ "inf"
  | .finite negative d => sign negative ++ write d

/-- The fewest digits that read back as the same double. -/
def fullText (v : Float) : String :=
  signedText (fun d => fullLayout.write d.shortest) v

/-- Six significant digits, without trailing zeros. -/
def shortText (v : Float) : String :=
  signedText (fun d => shortLayout.write (d.significant 6)) v

/-- `places + 1` significant digits, always with an exponent. -/
def exponentialText (places : Nat) (v : Float) : String :=
  signedText (fun d =>
    let s := d.significant (places + 1)
    let digits := digitsOf s.coefficient
    exponentForm (digits ++ List.replicate (places + 1 - digits.length) '0')
      (if s.coefficient = 0 then 0 else s.exponent + (places : Int))) v

/-- A fixed number of places after the point. -/
def fixedText (places : Nat) (v : Float) : String :=
  signedText (fun d =>
    let digits := digitsOf (d.roundedTo (-(places : Int))).coefficient
    let padded := List.replicate (places + 1 - digits.length) '0' ++ digits
    let whole := padded.length - places
    String.ofList (padded.take whole)
      ++ (if places = 0 then "" else "." ++ String.ofList (padded.drop whole))) v

end FormulaSearch.Decimal
