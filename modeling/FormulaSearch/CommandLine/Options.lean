import FormulaSearch.Decimal.Reader
import FormulaSearch.Fit
import FormulaSearch.Log

/-!
# Command line options

Every argument is first classified: an option, an argument of its own, or the separator after which
nothing is an option. An option may be shortened to a prefix that no other option shares, and may carry
its value after an equals sign; options of one letter may be written together. Then the arguments are
consumed from left to right, and the first fault is reported.
-/

namespace FormulaSearch

open Decimal Text

/-! ## The options -/

inductive OptionKey where
  | help | seed | maxGenerated | maxFitted | maxDuration | maxParams | fitAlgorithm | residual
  | minStep | maxIters | template | param | fitOnce | benchmark | logLevel | logFile | quiet
  | version
deriving DecidableEq, Repr

namespace OptionKey

def all : List OptionKey :=
  [help, seed, maxGenerated, maxFitted, maxDuration, maxParams, fitAlgorithm, residual, minStep,
    maxIters, template, param, fitOnce, benchmark, logLevel, logFile, quiet, version]

/-- The ways to write an option. -/
def spellings : OptionKey → List String
  | help => ["-h", "--help"]
  | seed => ["--seed"]
  | maxGenerated => ["--max-generated"]
  | maxFitted => ["--max-fitted"]
  | maxDuration => ["--max-duration"]
  | maxParams => ["--max-params"]
  | fitAlgorithm => ["--fit-algorithm"]
  | residual => ["--residual"]
  | minStep => ["--min-step"]
  | maxIters => ["--max-iters"]
  | template => ["--template"]
  | param => ["--param"]
  | fitOnce => ["--fit-once"]
  | benchmark => ["--benchmark"]
  | logLevel => ["--log-level"]
  | logFile => ["--log-file"]
  | quiet => ["-q", "--quiet"]
  | version => ["-v", "--version"]

/-- Whether an option stands alone, without a value. -/
def isFlag : OptionKey → Bool
  | help | fitOnce | quiet | version => true
  | _ => false

/-- The name of an option in messages. -/
def title (key : OptionKey) : String := "/".intercalate key.spellings

/-- Every spelling with its option. -/
def table : List (String × OptionKey) := all.flatMap fun key => key.spellings.map (·, key)

/-- The option with exactly this spelling. -/
def ofSpelling? (s : String) : Option OptionKey := table.lookup s

end OptionKey

/-- What the options say; what is not said keeps its default. -/
structure Options where
  dataset : Option String := none
  seed : Option Int := none
  maxGenerated : Option Int := none
  maxFitted : Option Int := none
  maxDuration : Option Float := none
  maxParams : Option Int := none
  fitAlgorithm : Option String := none
  residual : Option String := none
  minStep : Option Float := none
  maxIters : Option Int := none
  template : Option String := none
  params : List (String × Float) := []
  fitOnce : Bool := false
  benchmark : Option Int := none
  logLevel : LogLevel := .warning
  logFile : Option String := none
  quiet : Bool := false
  version : Bool := false

/-! ## Faults -/

/-- What is wrong with the value of an option. -/
inductive ValueFault where
  | expected
  | notInteger (text : String)
  | notReal (text : String)
  | notChoice (text : String) (choices : List String)
  | notAssignment (text : String)
  | notAssigned (name value : String)
  | ignored (text : String)
  | conflict (other : OptionKey)
deriving Repr

def ValueFault.message : ValueFault → String
  | expected => "expected one argument"
  | notInteger text => "invalid int value: " ++ quoted text
  | notReal text => "invalid float value: " ++ quoted text
  | notChoice text choices =>
    "invalid choice: " ++ quoted text ++ " (choose from "
      ++ ", ".intercalate (choices.map quoted) ++ ")"
  | notAssignment text => "expected NAME=VALUE, got " ++ quoted text
  | notAssigned name value => "invalid value for " ++ name ++ ": " ++ quoted value
  | ignored text => "ignored explicit argument " ++ quoted text
  | conflict other => "not allowed with argument " ++ other.title

/-- Why a command line is rejected. -/
inductive UsageError where
  | value (key : OptionKey) (fault : ValueFault)
  | ambiguous (text : String) (matching : List String)
  | unrecognized (texts : List String)
deriving Repr

def UsageError.message : UsageError → String
  | value key fault => "argument " ++ key.title ++ ": " ++ fault.message
  | ambiguous text matching =>
    "ambiguous option: " ++ text ++ " could match " ++ ", ".intercalate matching
  | unrecognized texts => "unrecognized arguments: " ++ " ".intercalate texts

/-- Why reading the command line ends early. -/
inductive EarlyExit where
  | rejected (e : UsageError)
  | helpWanted

/-! ## Classification -/

/-- A value written in the same argument as its option, and whether an equals sign stands between. -/
structure Inline where
  signed : Bool
  text : List Char

/-- What an argument is. -/
inductive Argument where
  | plain (text : String)
  | separator
  | option (key : OptionKey) (short : Bool) (value : Option Inline)
  | unknown (text : String)

/-- Splits at the first equals sign. -/
def splitEquals (cs : List Char) : List Char × Option (List Char) :=
  match cs.span (· != '=') with
  | (before, _ :: after) => (before, some after)
  | (before, []) => (before, none)

/-- Whether an argument looks like a negative number. -/
def isNegativeNumber (cs : List Char) : Bool :=
  let body := match cs.reverse with
    | '\n' :: rest => rest.reverse
    | _ => cs
  match body with
  | '-' :: rest =>
    let (whole, rest) := rest.span isDigit
    match rest with
    | [] => !whole.isEmpty
    | '.' :: places => !places.isEmpty && places.all isDigit
    | _ => false
  | _ => false

/-- The options that a shortened or joined argument may mean, with their spelling. -/
def candidates (cs : List Char) : List (String × Argument) :=
  match cs with
  | '-' :: '-' :: _ =>
    let (stem, value) := splitEquals cs
    (OptionKey.table.filter fun (s, _) => stem.isPrefixOf s.toList).map fun (s, key) =>
      (s, .option key false (value.map (Inline.mk true)))
  | '-' :: c :: rest =>
    OptionKey.table.filterMap fun (s, key) =>
      if s.toList == ['-', c] then some (s, .option key true (some ⟨false, rest⟩))
      else if cs.isPrefixOf s.toList then some (s, .option key false none)
      else none
  | _ => []

/-- Classifies an argument before the separator. -/
def classify (text : String) : Except UsageError Argument :=
  match text.toList with
  | '-' :: c :: rest =>
    let cs := '-' :: c :: rest
    match OptionKey.ofSpelling? text with
    | some key => .ok (.option key (c != '-') none)
    | none =>
      let (stem, value) := splitEquals cs
      match OptionKey.ofSpelling? (String.ofList stem), value with
      | some key, some value => .ok (.option key (c != '-') (some ⟨true, value⟩))
      | _, _ =>
        match candidates cs with
        | [(_, arg)] => .ok arg
        | first :: second :: others =>
          .error (.ambiguous text ((first :: second :: others).map Prod.fst))
        | [] =>
          if isNegativeNumber cs || cs.contains ' ' then .ok (.plain text)
          else .ok (.unknown text)
  | _ => .ok (.plain text)

/-- Classifies all arguments; behind a separator every argument is plain. -/
def classifyAll : List String → Except UsageError (List Argument)
  | [] => .ok []
  | text :: rest =>
    if text == "--" then .ok (.separator :: rest.map .plain) else do
      let arg ← classify text
      let args ← classifyAll rest
      return arg :: args

/-! ## Values -/

def readIntegerValue (text : String) : Except ValueFault Int :=
  match readInt text with
  | .ok n => .ok n
  | .error _ => .error (.notInteger text)

def readRealValue (text : String) : Except ValueFault Float :=
  match readFloat? text with
  | some v => .ok v
  | none => .error (.notReal text)

def readChoice (choices : List String) (text : String) : Except ValueFault String :=
  if choices.contains text then .ok text else .error (.notChoice text choices)

/-- Reads the starting value of a parameter; white space around the name does not count. -/
def readAssignment (text : String) : Except ValueFault (String × Float) :=
  match splitEquals text.toList with
  | (_, none) => .error (.notAssignment text)
  | (before, some after) =>
    let name := String.ofList (trim before)
    let value := String.ofList after
    if name.isEmpty then .error (.notAssignment text)
    else match readFloat? value with
      | some v => .ok (name, v)
      | none => .error (.notAssigned name value)

/-- The algorithms that may be chosen, in alphabetical order. -/
def algorithmChoices : List String := (Algorithm.all.map Algorithm.name).mergeSort (· ≤ ·)

/-- The residuals that may be chosen, in alphabetical order. -/
def residualChoices : List String := (ResidualKind.all.map ResidualKind.name).mergeSort (· ≤ ·)

/-- The log levels that may be chosen. -/
def logLevelChoices : List LogLevel := [.debug, .info, .warning, .error]

/-- Chooses a log level by its name. -/
def readLogLevel (text : String) : Except ValueFault LogLevel :=
  match logLevelChoices.find? (·.name == text) with
  | some level => .ok level
  | none => .error (.notChoice text (logLevelChoices.map LogLevel.name))

namespace Options

/-- Enters an option without a value. -/
def setFlag (o : Options) : OptionKey → Except EarlyExit Options
  | .help => .error .helpWanted
  | .fitOnce =>
    if o.benchmark.isSome then .error (.rejected (.value .fitOnce (.conflict .benchmark)))
    else .ok { o with fitOnce := true }
  | .quiet => .ok { o with quiet := true }
  | .version => .ok { o with version := true }
  | _ => .ok o

/-- Enters the value of an option. -/
def setValue (o : Options) (key : OptionKey) (text : String) : Except ValueFault Options :=
  match key with
  | .seed => return { o with seed := some (← readIntegerValue text) }
  | .maxGenerated => return { o with maxGenerated := some (← readIntegerValue text) }
  | .maxFitted => return { o with maxFitted := some (← readIntegerValue text) }
  | .maxDuration => return { o with maxDuration := some (← readRealValue text) }
  | .maxParams => return { o with maxParams := some (← readIntegerValue text) }
  | .fitAlgorithm => return { o with fitAlgorithm := some (← readChoice algorithmChoices text) }
  | .residual => return { o with residual := some (← readChoice residualChoices text) }
  | .minStep => return { o with minStep := some (← readRealValue text) }
  | .maxIters => return { o with maxIters := some (← readIntegerValue text) }
  | .template => return { o with template := some text }
  | .param => return { o with params := o.params ++ [← readAssignment text] }
  | .benchmark => do
    let n ← readIntegerValue text
    if o.fitOnce then .error (.conflict .fitOnce) else return { o with benchmark := some n }
  | .logLevel => return { o with logLevel := ← readLogLevel text }
  | .logFile => return { o with logFile := some text }
  | .help | .fitOnce | .quiet | .version => return o

/-- Enters the value of an option and blames the option for a fault. -/
def setValueOf (o : Options) (key : OptionKey) (text : String) : Except EarlyExit Options :=
  match o.setValue key text with
  | .ok o => .ok o
  | .error fault => .error (.rejected (.value key fault))

/-- Enters several flags in order. -/
def setFlags (o : Options) (keys : List OptionKey) : Except EarlyExit Options :=
  keys.foldlM setFlag o

end Options

/-! ## Consumption -/

/-- What letters written together mean: flags, perhaps a last option with its value, perhaps letters
that are not understood. -/
structure Cluster where
  flags : List OptionKey := []
  valued : Option (OptionKey × String) := none
  extra : List String := []

/-- Reads what follows an option in the same argument. `signed` tells whether an equals sign stands
before it. -/
def readCluster (key : OptionKey) (short signed : Bool) :
    List Char → Except EarlyExit Cluster
  | [] =>
    if key.isFlag then .error (.rejected (.value key (.ignored "")))
    else .ok { valued := some (key, "") }
  | c :: rest =>
    let text := String.ofList (c :: rest)
    if !key.isFlag then .ok { valued := some (key, text) }
    else if !short || signed || c == '-' then .error (.rejected (.value key (.ignored text)))
    else match OptionKey.ofSpelling? (String.ofList ['-', c]) with
      | none => .ok { flags := [key], extra := ["-" ++ text] }
      | some next =>
        match rest with
        | [] => .ok { flags := [key, next] }
        | '=' :: value =>
          (readCluster next true true value).map fun k => { k with flags := key :: k.flags }
        | rest =>
          (readCluster next true false rest).map fun k => { k with flags := key :: k.flags }

/-- The state of consumption: the options, whether the dataset has been named, and what was not
understood, the latest first. -/
structure Consumed where
  options : Options := {}
  positionalTaken : Bool := false
  extras : List String := []

/-- Consumes arguments from left to right. -/
def consume (c : Consumed) : List Argument → Except EarlyExit Consumed
  | [] => .ok c
  | .unknown text :: rest => consume { c with extras := text :: c.extras } rest
  | .option key _ none :: rest =>
    if key.isFlag then do
      let options ← c.options.setFlag key
      consume { c with options } rest
    else match rest with
      | .plain text :: rest => do
        let options ← c.options.setValueOf key text
        consume { c with options } rest
      | _ => .error (.rejected (.value key .expected))
  | .option key short (some value) :: rest => do
    let cluster ← readCluster key short value.signed value.text
    let options ← c.options.setFlags cluster.flags
    let options ← match cluster.valued with
      | some (k, text) => options.setValueOf k text
      | none => .ok options
    consume { c with options, extras := cluster.extra.reverse ++ c.extras } rest
  | .plain text :: rest =>
    if c.positionalTaken then consume { c with extras := text :: c.extras } rest else
      let taken := { c with
        options := { c.options with dataset := some text }, positionalTaken := true }
      match rest with
      | .separator :: rest => consume taken rest
      | rest => consume taken rest
  | .separator :: rest =>
    if c.positionalTaken then consume { c with extras := "--" :: c.extras } rest else
      match rest with
      | .plain text :: rest =>
        consume { c with
          options := { c.options with dataset := some text }, positionalTaken := true } rest
      | rest => consume { c with positionalTaken := true } rest

/-- Reads a command line. -/
def Options.ofArguments (args : List String) : Except EarlyExit Options :=
  match classifyAll args with
  | .error e => .error (.rejected e)
  | .ok args => do
    let consumed ← consume {} args
    if consumed.extras.isEmpty then return consumed.options
    else .error (.rejected (.unrecognized consumed.extras.reverse))

end FormulaSearch
