/-!
# Operators

The operators a formula may apply, their names, their signs and what they do to doubles. A power has
shortcuts when its exponent is a single value; without them it is the power function of the
arithmetic. Evaluation and constant folding both use the tables of this module.
-/

namespace FormulaSearch

/-- A name that no operator with so many operands has. -/
inductive UnknownOperator where
  | unary (name : String)
  | binary (name : String)
deriving DecidableEq, Repr

def UnknownOperator.message : UnknownOperator → String
  | unary name => "Unknown unary operator: " ++ name
  | binary name => "Unknown binary operator: " ++ name

/-! ## One operand -/

inductive UnaryOp where
  | neg | exp | ln | sqrt | sin | cos | tan | abs
deriving DecidableEq, Repr

namespace UnaryOp

/-- Every operator of one operand, in the order in which random formulas choose. -/
def all : List UnaryOp := [neg, exp, ln, sqrt, sin, cos, tan, abs]

def name : UnaryOp → String
  | neg => "neg"
  | exp => "exp"
  | ln => "ln"
  | sqrt => "sqrt"
  | sin => "sin"
  | cos => "cos"
  | tan => "tan"
  | abs => "abs"

def ofName? (s : String) : Option UnaryOp := all.find? (·.name == s)

/-- The operator with a name. -/
def ofName (s : String) : Except UnknownOperator UnaryOp :=
  match ofName? s with
  | some op => .ok op
  | none => .error (.unary s)

/-- The value of the operator on a double. -/
def apply : UnaryOp → Float → Float
  | neg, v => -v
  | exp, v => v.exp
  | ln, v => v.log
  | sqrt, v => v.sqrt
  | sin, v => v.sin
  | cos, v => v.cos
  | tan, v => v.tan
  | abs, v => v.abs

theorem ofName?_name (op : UnaryOp) : ofName? op.name = some op := by cases op <;> decide

end UnaryOp

/-! ## Two operands -/

inductive BinaryOp where
  | add | sub | mul | div | pow
deriving DecidableEq, Repr

namespace BinaryOp

/-- Every operator of two operands, in the order in which random formulas choose. -/
def all : List BinaryOp := [add, sub, mul, div, pow]

def name : BinaryOp → String
  | add => "add"
  | sub => "sub"
  | mul => "mul"
  | div => "div"
  | pow => "pow"

def ofName? (s : String) : Option BinaryOp := all.find? (·.name == s)

/-- The operator with a name. -/
def ofName (s : String) : Except UnknownOperator BinaryOp :=
  match ofName? s with
  | some op => .ok op
  | none => .error (.binary s)

/-- The sign of the operator in a formula's text. -/
def sign : BinaryOp → Char
  | add => '+'
  | sub => '-'
  | mul => '*'
  | div => '/'
  | pow => '^'

/-- A power whose exponent is a single value: the exponents -1, 0, 1/2, 1 and 2 are a quotient, one,
a square root, the base and a product. -/
def powerBySingle (base exponent : Float) : Float :=
  if exponent == -1.0 then 1.0 / base
  else if exponent == 0.0 then 1.0
  else if exponent == 0.5 then base.sqrt
  else if exponent == 1.0 then base
  else if exponent == 2.0 then base * base
  else base.pow exponent

/-- The value of the operator on two doubles; `single` tells whether the right operand is one value
for all samples. -/
def apply (single : Bool) : BinaryOp → Float → Float → Float
  | add, a, b => a + b
  | sub, a, b => a - b
  | mul, a, b => a * b
  | div, a, b => a / b
  | pow, a, b => if single then powerBySingle a b else a.pow b

theorem ofName?_name (op : BinaryOp) : ofName? op.name = some op := by cases op <;> decide

end BinaryOp

end FormulaSearch
