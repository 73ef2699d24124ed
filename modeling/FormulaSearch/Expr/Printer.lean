import FormulaSearch.Decimal.Notation
import FormulaSearch.Decimal.Reader
import FormulaSearch.Expr.Eval

/-!
# The text of a formula

Every operator application is in parentheses except the outermost and the argument of a function,
whose own parentheses serve. A negative constant is in parentheses, so that it can follow any operator.
The plain text shows parameters by name and shortens constants where that loses nothing; the closed text
shows every number in full.
-/

namespace FormulaSearch

open Decimal

/-! ## Constants -/

/-- Six significant digits if they read back as the same number, all digits otherwise. -/
def readableText (v : Float) : String :=
  let text := shortText v
  match readFloat? text with
  | some w => if w == v then text else fullText v
  | none => fullText v

/-- Drops the point of a whole number. -/
def dropPoint (text : String) : String :=
  match text.toList.reverse with
  | '0' :: '.' :: whole => String.ofList whole.reverse
  | _ => text

/-- Puts a number with a sign in parentheses. -/
def guardSign (v : Float) (text : String) : String :=
  if v < 0.0 || text.toList.head? == some '-' then "(" ++ text ++ ")" else text

/-- A constant in a formula; `precise` keeps all digits. -/
def constantText (precise : Bool) (v : Float) : String :=
  guardSign v (dropPoint (if precise then fullText v else readableText v))

/-! ## Formulas -/

namespace Expr

/-- Puts a text in parentheses unless it stands on its own. -/
def wrap (alone : Bool) (text : String) : String :=
  if alone then text else "(" ++ text ++ ")"

/-- The text of a formula, its constants written by `write`; `alone` tells whether nothing around it
could change how it is read. -/
def render (write : Float → String) (alone : Bool) : Formula → String
  | constant v => write v
  | var => variableName
  | parameter n => n
  | unary .neg e => wrap alone ("-" ++ e.render write false)
  | unary op e => op.name ++ "(" ++ e.render write true ++ ")"
  | binary op l r =>
    wrap alone (l.render write false ++ " " ++ op.sign.toString ++ " " ++ r.render write false)

/-- The text of a formula, which reads back as the formula. -/
def text (e : Formula) : String := e.render (constantText false) true

/-- The text of a formula with values in place of parameters, at full precision. -/
def closedText (e : Formula) (p : Assignment) : Except MissingParameter String :=
  (e.close p).map (·.render (constantText true) true)

/-- A formula with more nodes than this is reported as it stands. -/
def tidyLimit : Nat := 60

end Expr

end FormulaSearch
