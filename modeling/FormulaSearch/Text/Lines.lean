/-!
# Lines

A line ends at a line feed, at a carriage return, or at the two together; no other character ends one.
-/

namespace FormulaSearch.Text

/-- The lines of a text without their ends: `line` is the line being read, reversed. An unfinished
last line counts, an empty one does not. -/
def linesFrom (line : List Char) : List Char → List (List Char)
  | [] => if line.isEmpty then [] else [line.reverse]
  | '\r' :: '\n' :: rest => line.reverse :: linesFrom [] rest
  | c :: rest =>
    if c == '\n' || c == '\r' then line.reverse :: linesFrom [] rest
    else linesFrom (c :: line) rest

/-- The lines of a file. -/
def lines (cs : List Char) : List (List Char) := linesFrom [] cs

/-- The pieces of a printed text between line feeds. -/
def pieces (s : String) : List String := s.splitOn "\n"

end FormulaSearch.Text
