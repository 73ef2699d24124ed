import FormulaSearch.Decimal.Binary
import FormulaSearch.Text.Blank
import FormulaSearch.Text.Digit
import FormulaSearch.Text.Quoted

/-!
# Reading numbers

A number may be surrounded by white space, have a sign, use the digits of any script and separate
digits by single underscores. A real number may have a point and an exponent, or be a name of infinity
or of the number that is none. The value is the double nearest to what is written.
-/

namespace FormulaSearch.Decimal

open FormulaSearch.Text

/-! ## Characters -/

/-- Writes every digit as an ASCII digit and leaves all other characters as they are. -/
def plainDigits (cs : List Char) : List Char :=
  cs.map fun c => match digitValue? c with
    | some v => digitChar v
    | none => c

/-- White space that may surround a number; the information separators may not. -/
def isPadding (c : Char) : Bool :=
  isBlank c && !(0x1C ≤ c.toNat && c.toNat ≤ 0x1F)

/-- Removes underscores, each of which must stand between two digits; `before` tells whether the
character before is a digit. -/
def dropSeparators (before : Bool) : List Char → Option (List Char)
  | [] => some []
  | '_' :: c :: rest =>
    if before && c.isDigit then (dropSeparators true rest).map (c :: ·) else none
  | ['_'] => none
  | c :: rest => (dropSeparators c.isDigit rest).map (c :: ·)

/-- The characters of a number in plain form, or nothing if an underscore is misplaced. -/
def plainForm? (cs : List Char) : Option (List Char) :=
  dropSeparators false (plainDigits (trimBy isPadding cs))

/-- The natural number that a list of digits denotes. -/
def digitsValue (digits : List Char) : Nat :=
  digits.foldl (fun n c => 10 * n + (digitValue? c).getD 0) 0

/-- Splits off an optional sign; `true` is minus. -/
def splitSign : List Char → Bool × List Char
  | '-' :: rest => (true, rest)
  | '+' :: rest => (false, rest)
  | cs => (false, cs)

/-! ## Errors -/

/-- Why a text is not read as a number. -/
inductive NumberError where
  | notReal (text : String)
  | notInteger (text : String)
  | tooLong (digits : Nat)
deriving DecidableEq, Repr

/-- The most digits an integer may be written with. -/
def integerDigitLimit : Nat := 4300

def NumberError.message : NumberError → String
  | notReal text => "could not convert string to float: " ++ quoted text
  | notInteger text => "invalid literal for int() with base 10: " ++ quoted text
  | tooLong digits =>
    "Exceeds the limit (" ++ toString integerDigitLimit
      ++ " digits) for integer string conversion: value has " ++ toString digits
      ++ " digits; use sys.set_int_max_str_digits() to increase the limit"

/-! ## Integers -/

/-- Reads a whole number. -/
def readInt (s : String) : Except NumberError Int :=
  match plainForm? s.toList with
  | none => .error (.notInteger s)
  | some cs =>
    let (negative, digits) := splitSign cs
    if digits.isEmpty || !digits.all Char.isDigit then .error (.notInteger s)
    else if integerDigitLimit < digits.length then .error (.tooLong digits.length)
    else
      let n : Int := digitsValue digits
      .ok (if negative then -n else n)

/-! ## Real numbers -/

/-- A written number `± digits * 10 ^ exponent`. -/
structure Literal where
  digits : List Char
  exponent : Int

/-- Decimal exponents beyond this bound on either side cannot give a finite nonzero double. -/
def exponentBound : Int := 400

/-- The double nearest to a literal. A literal far out of range is settled by the place of its
first digit, so that no power of ten grows out of bounds. -/
def Literal.toFloat (negative : Bool) (l : Literal) : Float :=
  let value := digitsValue l.digits
  let place := ((l.digits.dropWhile (· == '0')).length : Int) + l.exponent
  if value = 0 || place < -exponentBound then nearest negative 0 1
  else if exponentBound < place then nearest negative (tenTo exponentBound.toNat) 1
  else nearest negative (value * tenTo l.exponent.toNat) (tenTo (-l.exponent).toNat)

/-- Reads an exponent part, which may be absent; anything left over makes it fail. -/
def readExponent? : List Char → Option Int
  | [] => some 0
  | c :: rest =>
    let (negative, digits) := splitSign rest
    if (c == 'e' || c == 'E') && !digits.isEmpty && digits.all isDigit then
      let n : Int := digitsValue digits
      some (if negative then -n else n)
    else none

/-- Reads digits with an optional point and exponent, for instance `12`, `1.`, `.5e-3`. -/
def readLiteral? (cs : List Char) : Option Literal :=
  let (whole, rest) := cs.span isDigit
  let (fraction, rest) := match rest with
    | '.' :: after => after.span isDigit
    | _ => ([], rest)
  if whole.isEmpty && fraction.isEmpty then none
  else (readExponent? rest).map fun e => ⟨whole ++ fraction, e - (fraction.length : Int)⟩

/-- The value of a name of infinity or of the number that is none, in any case. -/
def readName? (negative : Bool) (cs : List Char) : Option Float :=
  let name := String.ofList (cs.map Char.toLower)
  if name == "inf" || name == "infinity" then
    some (nearest negative (tenTo exponentBound.toNat) 1)
  else if name == "nan" then some (0.0 / 0.0)
  else none

/-- Reads a real number. -/
def readFloat? (s : String) : Option Float :=
  match plainForm? s.toList with
  | none => none
  | some cs =>
    let (negative, body) := splitSign cs
    match readLiteral? body with
    | some l => some (l.toFloat negative)
    | none => readName? negative body

/-- Reads a real number, or tells why not. -/
def readFloat (s : String) : Except NumberError Float :=
  match readFloat? s with
  | some v => .ok v
  | none => .error (.notReal s)

end FormulaSearch.Decimal
