import FormulaSearch.Text.Blank
import FormulaSearch.Text.Digit
import FormulaSearch.Text.Quoted

/-!
# Tokens

A formula's text is cut into numbers, names and signs; white space separates and is dropped. Each token
is the longest of its kind at its place. Positions count characters from zero.
-/

namespace FormulaSearch

open Text

/-! ## Errors of the reader -/

/-- What can be wrong with the text of a formula. -/
inductive ParseCause where
  | unexpectedCharacter
  | emptyExpression
  | unexpectedToken
  | unexpectedEnd
  | closingExpected
  | openingExpected (function : String)
  | unknownIdentifier (name : String)
deriving DecidableEq, Repr

def ParseCause.message : ParseCause → String
  | unexpectedCharacter => "unexpected character"
  | emptyExpression => "empty expression"
  | unexpectedToken => "unexpected token"
  | unexpectedEnd => "unexpected end of input"
  | closingExpected => "expected ')'"
  | openingExpected function => "expected '(' after function '" ++ function ++ "'"
  | unknownIdentifier name => "unknown identifier '" ++ name ++ "'"

/-- The most characters of the text that an error shows. -/
def fragmentLength : Nat := 12

/-- An index counted from the end if it is negative, held within the text. -/
def textIndex (length : Nat) (i : Int) : Nat :=
  if i < 0 then (i + length).toNat else min i.toNat length

/-- The text from a position on, as much of it as an error shows. -/
def fragmentAt (text : String) (position : Int) : String :=
  let cs := text.toList
  let first := textIndex cs.length position
  let last := textIndex cs.length (position + fragmentLength)
  String.ofList ((cs.take last).drop first)

/-- A message that tells where in the text the fault is. An empty text has no places to tell. -/
def locatedMessage (message text : String) (position : Int) : String :=
  if text.isEmpty then message else
    let fragment := fragmentAt text position
    message ++ " at position " ++ toString position ++ " ("
      ++ (if fragment.isEmpty then "end of input" else quoted fragment) ++ ")"

/-- A fault in the text of a formula. -/
structure ParseError where
  cause : ParseCause
  text : String
  position : Nat
deriving DecidableEq, Repr

namespace ParseError

def fragment (e : ParseError) : String := fragmentAt e.text e.position

def message (e : ParseError) : String := locatedMessage e.cause.message e.text e.position

end ParseError

/-! ## Lexemes -/

inductive TokenKind where
  | number
  | name
  | sign
deriving DecidableEq, Repr

structure Token where
  kind : TokenKind
  text : String
  position : Nat
deriving DecidableEq, Repr

/-- Whether a name may start with the character. -/
def startsName (c : Char) : Bool := c.isAlpha || c == '_'

/-- Whether a name may go on with the character. -/
def continuesName (c : Char) : Bool := c.isAlphanum || c == '_'

/-- The signs of a formula. -/
def isSign (c : Char) : Bool := ['+', '-', '*', '/', '^', '(', ')'].contains c

/-- The longest exponent part, empty if there is none. -/
def scanExponent : List Char → List Char
  | e :: '+' :: rest =>
    if (e == 'e' || e == 'E') && (rest.takeWhile isDigit) != [] then
      e :: '+' :: rest.takeWhile isDigit else []
  | e :: '-' :: rest =>
    if (e == 'e' || e == 'E') && (rest.takeWhile isDigit) != [] then
      e :: '-' :: rest.takeWhile isDigit else []
  | e :: rest =>
    if (e == 'e' || e == 'E') && (rest.takeWhile isDigit) != [] then
      e :: rest.takeWhile isDigit else []
  | [] => []

/-- The longest run of digits with at most one point, empty if there is no digit in it. -/
def scanMantissa (cs : List Char) : List Char :=
  let whole := cs.takeWhile isDigit
  match cs.drop whole.length with
  | '.' :: rest =>
    let fraction := rest.takeWhile isDigit
    if whole.isEmpty && fraction.isEmpty then [] else whole ++ '.' :: fraction
  | _ => whole

/-- The longest number at the front of a text, empty if there is none. -/
def scanNumber (cs : List Char) : List Char :=
  let mantissa := scanMantissa cs
  if mantissa.isEmpty then [] else mantissa ++ scanExponent (cs.drop mantissa.length)

/-- The longest name at the front of a text, empty if there is none. -/
def scanName : List Char → List Char
  | c :: rest => if startsName c then c :: rest.takeWhile continuesName else []
  | [] => []

/-- The sign at the front of a text, empty if there is none. -/
def scanSign : List Char → List Char
  | c :: _ => if isSign c then [c] else []
  | [] => []

/-- The first token at the front of a text, with no white space skipped. -/
def scanToken? (cs : List Char) : Option (TokenKind × List Char) :=
  let number := scanNumber cs
  if !number.isEmpty then some (.number, number) else
    let name := scanName cs
    if !name.isEmpty then some (.name, name) else
      let sign := scanSign cs
      if !sign.isEmpty then some (.sign, sign) else none

/-! ## Cutting a text -/

/-- The tokens of a text, and the position behind its last character. -/
structure TokenList where
  tokens : List Token
  stop : Nat
deriving Repr

/-- Cuts the rest of a text that starts at a position. The first `skip` characters belong to a token
already cut. The error is a position where no token starts. -/
def tokensFrom (position skip : Nat) : List Char → Except Nat (List Token)
  | [] => .ok []
  | c :: rest =>
    match skip with
    | skip + 1 => tokensFrom (position + 1) skip rest
    | 0 =>
      if isBlank c then tokensFrom (position + 1) 0 rest else
        match scanToken? (c :: rest) with
        | none => .error position
        | some (kind, lexeme) =>
          (tokensFrom (position + 1) (lexeme.length - 1) rest).map
            (⟨kind, String.ofList lexeme, position⟩ :: ·)

/-- Cuts a text into tokens. -/
def tokenize (text : String) : Except ParseError TokenList :=
  match tokensFrom 0 0 text.toList with
  | .ok tokens => .ok ⟨tokens, text.length⟩
  | .error position => .error ⟨.unexpectedCharacter, text, position⟩

end FormulaSearch
