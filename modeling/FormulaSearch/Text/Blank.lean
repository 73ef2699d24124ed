/-!
# White space

White space is more than the blank and the line ends: the information separators U+001C to U+001F, the
next-line control, and the Unicode spaces and separators count as well. The zero-width characters
U+200B and U+FEFF do not.
-/

namespace FormulaSearch.Text

/-- Whether a character is white space. -/
def isBlank (c : Char) : Bool :=
  let n := c.toNat
  (0x09 ≤ n && n ≤ 0x0D) || (0x1C ≤ n && n ≤ 0x20) || n == 0x85 || n == 0xA0 || n == 0x1680
    || (0x2000 ≤ n && n ≤ 0x200A) || n == 0x2028 || n == 0x2029 || n == 0x202F || n == 0x205F
    || n == 0x3000

/-- The text without the characters of a class at either end. -/
def trimBy (p : Char → Bool) (cs : List Char) : List Char :=
  ((cs.dropWhile p).reverse.dropWhile p).reverse

/-- The text without white space at either end. -/
def trim (cs : List Char) : List Char := trimBy isBlank cs

/-- The maximal runs of characters that are not white space: `word` is the run being read, reversed. -/
def fieldsFrom (word : List Char) : List Char → List (List Char)
  | [] => if word.isEmpty then [] else [word.reverse]
  | c :: rest =>
    if isBlank c then
      if word.isEmpty then fieldsFrom [] rest else word.reverse :: fieldsFrom [] rest
    else fieldsFrom (c :: word) rest

/-- The fields of a line, separated by white space. -/
def fields (cs : List Char) : List (List Char) := fieldsFrom [] cs

end FormulaSearch.Text
