import FormulaSearch.Text.Printable

/-!
# Quoted text

A text is shown between single quotes, or between double quotes if it holds a single quote and no
double one. The quote and the backslash are escaped, line ends and tabs have letters, and every other
character that is not printable is written by its code in two, four or eight hexadecimal digits.
-/

namespace FormulaSearch.Text

/-- The quote that needs the least escaping. -/
def quoteFor (cs : List Char) : Char :=
  if cs.contains '\'' && !cs.contains '"' then '"' else '\''

/-- A code in lower case hexadecimal digits, filled up with zeros to `width`. -/
def hexCode (width n : Nat) : List Char :=
  let digits := Nat.toDigits 16 n
  List.replicate (width - digits.length) '0' ++ digits

/-- One character between quotes of kind `quote`. -/
def escapeChar (quote c : Char) : List Char :=
  if c == quote || c == '\\' then ['\\', c]
  else if c == '\n' then ['\\', 'n']
  else if c == '\r' then ['\\', 'r']
  else if c == '\t' then ['\\', 't']
  else if isPrintable c then [c]
  else if c.toNat < 0x100 then '\\' :: 'x' :: hexCode 2 c.toNat
  else if c.toNat < 0x10000 then '\\' :: 'u' :: hexCode 4 c.toNat
  else '\\' :: 'U' :: hexCode 8 c.toNat

/-- The text in quotes. -/
def quoted (s : String) : String :=
  let cs := s.toList
  let quote := quoteFor cs
  String.ofList (quote :: (cs.flatMap (escapeChar quote) ++ [quote]))

end FormulaSearch.Text
