import FormulaSearch.Decimal.Reader
import FormulaSearch.Expr.Basic
import FormulaSearch.Expr.Token

/-!
# Reading a formula

The reader descends through the levels of the grammar

    expr    := term (('+' | '-') term)*
    term    := unary (('*' | '/') unary)*
    unary   := '-' unary | power
    power   := primary ('^' unary)?
    primary := NUMBER | 'x' | PARAMETER | FUNCTION '(' expr ')' | '(' expr ')'

so sums and products associate to the left, powers to the right, and a power binds tighter than a
leading minus. The reader is given a depth that any expression of so many tokens stays within.
-/

namespace FormulaSearch

open Decimal

/-! ## Words -/

/-- What a name stands for. -/
inductive Word where
  | function (op : UnaryOp)
  | variable
  | parameter
  | unknown
deriving DecidableEq, Repr

/-- Whether a name is a letter followed by digits. -/
def isParameterName (name : String) : Bool :=
  match name.toList with
  | c :: rest => c.isAlpha && rest.all Char.isDigit
  | [] => false

/-- The functions of one argument by name; `log` is a second name of the natural logarithm and the
change of sign has no name. -/
def function? (name : String) : Option UnaryOp :=
  if name == "log" then some .ln
  else (UnaryOp.ofName? name).filter (· != .neg)

/-- What a name stands for: functions come first, then the variable, then parameters. -/
def Word.ofName (name : String) : Word :=
  match function? name with
  | some op => .function op
  | none =>
    if name == variableName then .variable
    else if isParameterName name then .parameter
    else .unknown

/-! ## Signs -/

/-- Whether a token is the given sign. -/
def Token.isSign (t : Token) (c : Char) : Bool := t.kind == .sign && t.text == c.toString

/-- The operator that joins terms. -/
def sumOp? (t : Token) : Option BinaryOp :=
  if t.isSign '+' then some .add else if t.isSign '-' then some .sub else none

/-- The operator that joins factors. -/
def productOp? (t : Token) : Option BinaryOp :=
  if t.isSign '*' then some .mul else if t.isSign '/' then some .div else none

/-- The formula with its sign changed; a constant takes the sign into itself. -/
def negate : Formula → Formula
  | .constant v => .constant (-v)
  | e => .unary .neg e

/-! ## The levels of the grammar -/

/-- A cause and the position of the token that shows it. -/
structure ParseFault where
  cause : ParseCause
  position : Nat
deriving DecidableEq, Repr

/-- A formula and the tokens after it. -/
abbrev Parsed := Except ParseFault (Formula × List Token)

/-- The position of the first of some tokens, or the end of the text. -/
def positionOf (stop : Nat) : List Token → Nat
  | [] => stop
  | t :: _ => t.position

/-- Takes a sign off the front. -/
def expectSign (cause : ParseCause) (c : Char) (stop : Nat) :
    List Token → Except ParseFault (List Token)
  | [] => .error ⟨cause, stop⟩
  | t :: rest => if t.isSign c then .ok rest else .error ⟨cause, t.position⟩

mutual

/-- Reads terms joined by plus and minus. -/
def parseExpr (stop : Nat) : Nat → List Token → Parsed
  | 0, ts => .error ⟨.unexpectedToken, positionOf stop ts⟩
  | fuel + 1, ts => do
    let (first, rest) ← parseTerm stop fuel ts
    parseSum stop fuel first rest

/-- Adds and subtracts further terms. -/
def parseSum (stop : Nat) : Nat → Formula → List Token → Parsed
  | _, sum, [] => .ok (sum, [])
  | 0, _, ts => .error ⟨.unexpectedToken, positionOf stop ts⟩
  | fuel + 1, sum, t :: rest =>
    match sumOp? t with
    | none => .ok (sum, t :: rest)
    | some op => do
      let (e, rest) ← parseTerm stop fuel rest
      parseSum stop fuel (.binary op sum e) rest

/-- Reads factors joined by times and divided by. -/
def parseTerm (stop : Nat) : Nat → List Token → Parsed
  | 0, ts => .error ⟨.unexpectedToken, positionOf stop ts⟩
  | fuel + 1, ts => do
    let (first, rest) ← parseUnary stop fuel ts
    parseProduct stop fuel first rest

/-- Multiplies and divides by further factors. -/
def parseProduct (stop : Nat) : Nat → Formula → List Token → Parsed
  | _, product, [] => .ok (product, [])
  | 0, _, ts => .error ⟨.unexpectedToken, positionOf stop ts⟩
  | fuel + 1, product, t :: rest =>
    match productOp? t with
    | none => .ok (product, t :: rest)
    | some op => do
      let (e, rest) ← parseUnary stop fuel rest
      parseProduct stop fuel (.binary op product e) rest

/-- Reads a factor with any number of leading minus signs. -/
def parseUnary (stop : Nat) : Nat → List Token → Parsed
  | 0, ts => .error ⟨.unexpectedToken, positionOf stop ts⟩
  | fuel + 1, [] => parsePower stop fuel []
  | fuel + 1, t :: rest =>
    if t.isSign '-' then do
      let (e, rest) ← parseUnary stop fuel rest
      .ok (negate e, rest)
    else parsePower stop fuel (t :: rest)

/-- Reads a primary with an optional exponent. -/
def parsePower (stop : Nat) : Nat → List Token → Parsed
  | 0, ts => .error ⟨.unexpectedToken, positionOf stop ts⟩
  | fuel + 1, ts => do
    match ← parsePrimary stop fuel ts with
    | (base, []) => .ok (base, [])
    | (base, t :: rest) =>
      if t.isSign '^' then
        let (e, rest) ← parseUnary stop fuel rest
        .ok (.binary .pow base e, rest)
      else .ok (base, t :: rest)

/-- Reads a number, a name, a function call or an expression in parentheses. -/
def parsePrimary (stop : Nat) : Nat → List Token → Parsed
  | 0, ts => .error ⟨.unexpectedToken, positionOf stop ts⟩
  | _ + 1, [] => .error ⟨.unexpectedEnd, stop⟩
  | fuel + 1, t :: rest =>
    match t.kind with
    | .number => .ok (.constant ((readFloat? t.text).getD 0.0), rest)
    | .name =>
      match Word.ofName t.text with
      | .variable => .ok (.var, rest)
      | .parameter => .ok (.parameter t.text, rest)
      | .unknown => .error ⟨.unknownIdentifier t.text, t.position⟩
      | .function op => do
        let rest ← expectSign (.openingExpected t.text) '(' stop rest
        let (e, rest) ← parseExpr stop fuel rest
        let rest ← expectSign .closingExpected ')' stop rest
        .ok (.unary op e, rest)
    | .sign =>
      if t.isSign '(' then do
        let (e, rest) ← parseExpr stop fuel rest
        let rest ← expectSign .closingExpected ')' stop rest
        .ok (e, rest)
      else .error ⟨.unexpectedToken, t.position⟩

end

/-! ## A whole text -/

/-- Deep enough for any expression of so many tokens: between two tokens the reader descends through
at most six levels. -/
def parseDepth (tokens : Nat) : Nat := 6 * tokens + 6

/-- Reads a formula that takes up all tokens. -/
def parseTokens (list : TokenList) : Except ParseFault Formula :=
  if list.tokens.isEmpty then .error ⟨.emptyExpression, list.stop⟩ else do
    match ← parseExpr list.stop (parseDepth list.tokens.length) list.tokens with
    | (e, []) => .ok e
    | (_, t :: _) => .error ⟨.unexpectedToken, t.position⟩

/-- Reads the text of a formula. -/
def parse (text : String) : Except ParseError Formula :=
  match tokenize text with
  | .error e => .error e
  | .ok list =>
    match parseTokens list with
    | .error fault => .error ⟨fault.cause, text, fault.position⟩
    | .ok e => .ok e

end FormulaSearch
