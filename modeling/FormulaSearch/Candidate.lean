import FormulaSearch.Expr.Parser
import FormulaSearch.Expr.Printer
import FormulaSearch.Expr.Simplify
import FormulaSearch.Generate
import FormulaSearch.Settings.Template

/-!
# Candidates

A candidate is a formula together with its parameters. It is grown at random or made from a template,
and simplified with its parameters renamed canonically.
-/

namespace FormulaSearch

/-- A program for symbolic computation, as far as reports ask for it: its text of a formula with values in
place of parameters, if it does not fail. It comes from outside. -/
structure Symbolic where
  text? : Formula → Assignment → Option String

/-- No such program is at hand. -/
def Symbolic.absent : Symbolic := ⟨fun _ _ => none⟩

structure Candidate where
  expression : Formula
  params : Params

namespace Candidate

/-- The variable alone, which stands for no result yet. -/
def sentinel : Candidate := ⟨.var, .empty⟩

instance : Inhabited Candidate := ⟨sentinel⟩

/-- The number of parameters. -/
def paramCount (c : Candidate) : Nat := c.params.size

/-! ## Text and values -/

def text (c : Candidate) : String := c.expression.text

/-- The formula with the parameters' values in it. -/
def closedText (c : Candidate) : Except MissingParameter String :=
  c.expression.closedText c.params.assignment

/-- The formula in a tidied form, which is left to a program for symbolic computation. A large formula is
shown as it stands, and so is any if that program fails. -/
def tidyText (c : Candidate) (symbolic : Symbolic := .absent) : String :=
  if Expr.tidyLimit < c.expression.count then c.text
  else (symbolic.text? c.expression c.params.assignment).getD c.text

def evaluate (c : Candidate) (x : Float) : Except MissingParameter Float :=
  c.expression.evaluate c.params.assignment x

def evaluateAll (c : Candidate) (xs : List Float) : Except MissingParameter (List Float) :=
  c.expression.evaluateAll c.params.assignment xs

/-! ## Simplification -/

/-- The canonical name of each name in a list, by its place; other names stay. -/
def canonicalRenaming (names : List String) (name : String) : String :=
  match names.idxOf? name with
  | some i => canonicalName i
  | none => name

/-- The values of some names under their canonical names. -/
def renamedEntries (p : Assignment) (names : List String) :
    Except MissingParameter (List (String × Float)) :=
  names.zipIdx.mapM fun (name, i) => (p.value name).map (canonicalName i, ·)

/-- The candidate with a simplified formula. Parameters that no longer occur are dropped, the others
are named canonically in the order of their first occurrence and keep their values. -/
def simplify (c : Candidate) : Except MissingParameter Candidate := do
  let expression := c.expression.simplify
  let names := expression.parameterNames
  let entries ← renamedEntries c.params.assignment names
  return ⟨expression.rename (canonicalRenaming names),
    entries.foldl (fun p (n, v) => p.insert n v) .empty⟩

/-! ## Random candidates -/

section

variable {σ : Type} [RandomSource σ]

/-- A random candidate within a budget. -/
def generateWithin (settings : Settings) (budget : Int) (s : σ) : Candidate × σ :=
  let (expression, params, s) := FormulaSearch.generate settings budget .empty s
  (⟨expression, params⟩, s)

/-- A random candidate with a random budget from the configured range. -/
def generate (settings : Settings) (s : σ) : Candidate × σ :=
  let (budget, s) :=
    RandomSource.between settings.complexityMin.toNat settings.complexityMax.toNat s
  generateWithin settings budget s

end

/-! ## Candidates from templates -/

/-- Why a template does not make a candidate. -/
inductive TemplateError where
  | parse (e : ParseError)
  | unknownParameters (names : List String)
  | outOfDomain (name : String) (value lower upper : Float)

def TemplateError.message : TemplateError → String
  | parse e => e.message
  | unknownParameters names => "template has no parameter(s): " ++ ", ".intercalate names
  | outOfDomain name value lower upper =>
    "initial value " ++ name ++ "=" ++ Decimal.fullText value ++ " is outside ["
      ++ Decimal.fullText lower ++ ", " ++ Decimal.fullText upper ++ "]"

/-- The middle of the parameter domain. -/
def midpoint (settings : Settings) : Float :=
  (settings.paramValueMin + settings.paramValueMax) / 2.0

/-- The last value given to each name. -/
def valuesByName (values : List (String × Float)) : Assignment :=
  fun name => values.reverse.lookup name

/-- The starting values of some parameters, in order: the given ones, which have to lie in the domain,
and for the others what `supply` gives. -/
def startingValues {σ : Type} (settings : Settings) (given : Assignment) (supply : σ → Float × σ) :
    List String → σ → Except TemplateError (List (String × Float) × σ)
  | [], s => .ok ([], s)
  | name :: names, s =>
    match given name with
    | some value =>
      if isWithin settings.paramValueMin settings.paramValueMax value then do
        let (rest, s) ← startingValues settings given supply names s
        return ((name, value) :: rest, s)
      else
        .error (.outOfDomain name value settings.paramValueMin settings.paramValueMax)
    | none => do
      let (value, s) := supply s
      let (rest, s) ← startingValues settings given supply names s
      return ((name, value) :: rest, s)

/-- Names in the order of their characters. -/
def sortNames (names : List String) : List String :=
  names.mergeSort fun a b => !(b < a : Bool)

/-- A candidate from the text of a formula and first values of some of its parameters; `supply` gives
the first values of the others. -/
def ofTemplateWith {σ : Type} (settings : Settings) (t : Template) (supply : σ → Float × σ) (s : σ) :
    Except TemplateError (Candidate × σ) :=
  match parse t.text with
  | .error e => .error (.parse e)
  | .ok expression =>
    let names := expression.parameterNames
    let unknown := (t.values.map Prod.fst).filter (!names.contains ·)
    if unknown.isEmpty then do
      let (entries, s) ← startingValues settings (valuesByName t.values) supply names s
      return (⟨expression, entries.foldl (fun p (n, v) => p.insert n v) .empty⟩, s)
    else .error (.unknownParameters (sortNames (Expr.firstOccurrences unknown)))

/-- A candidate from a template, parameters without a first value starting at the midpoint. -/
def ofTemplate (settings : Settings) (t : Template) : Except TemplateError Candidate :=
  (ofTemplateWith settings t (fun s : Unit => (midpoint settings, s)) ()).map Prod.fst

/-- A candidate from a template, parameters without a first value starting at random. -/
def ofTemplateAtRandom {σ : Type} [RandomSource σ] (settings : Settings) (t : Template) (s : σ) :
    Except TemplateError (Candidate × σ) :=
  ofTemplateWith settings t
    (RandomSource.uniform settings.paramValueMin settings.paramValueMax) s

end Candidate

end FormulaSearch
