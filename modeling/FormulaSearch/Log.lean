import FormulaSearch.Fit

/-!
# Log messages

What the program has to tell about its own work, from which part and how important it is, and which
messages are shown under which setting. Messages of parts that do not belong to the program have no
setting: they are shown as bare text from warnings on.
-/

namespace FormulaSearch

/-! ## Levels -/

inductive LogLevel where
  | notset | debug | info | warning | error | critical
deriving DecidableEq, Repr

namespace LogLevel

def all : List LogLevel := [notset, debug, info, warning, error, critical]

def number : LogLevel → Nat
  | notset => 0
  | debug => 10
  | info => 20
  | warning => 30
  | error => 40
  | critical => 50

def name : LogLevel → String
  | notset => "NOTSET"
  | debug => "DEBUG"
  | info => "INFO"
  | warning => "WARNING"
  | error => "ERROR"
  | critical => "CRITICAL"

/-- The level with a name in capitals; two levels have a second name. -/
def ofName? (s : String) : Option LogLevel :=
  if s == "WARN" then some warning
  else if s == "FATAL" then some critical
  else all.find? (·.name == s)

/-- The capital of a letter, as far as it can occur in the name of a level: besides the small ASCII
letters, the dotless i and the long s have ASCII capitals. -/
def capital (c : Char) : Char :=
  if c == 'ı' then 'I' else if c == 'ſ' then 'S' else c.toUpper

/-- A text that names no level. -/
structure Invalid where
  text : String
deriving DecidableEq, Repr

def Invalid.message (e : Invalid) : String := "Invalid log level: " ++ e.text

/-- Reads the name of a level in any case. -/
def read (s : String) : Except Invalid LogLevel :=
  match ofName? (String.ofList (s.toList.map capital)) with
  | some level => .ok level
  | none => .error ⟨s⟩

/-- The least level shown: a level that is not set leaves it at warnings. -/
def threshold : LogLevel → LogLevel
  | notset => warning
  | level => level

end LogLevel

/-! ## Records -/

/-- The name above all names of parts of the program. -/
def logRoot : String := "datafitter_pkg"

structure LogRecord where
  part : String
  level : LogLevel
  text : String
deriving DecidableEq, Repr

/-- The full name of a part: names that start like the program's are full already. -/
def fullPartName (name : String) : String :=
  if logRoot.toList.isPrefixOf name.toList then name else logRoot ++ "." ++ name

/-- Whether a full name belongs to the program. -/
def isOwnPart (name : String) : Bool :=
  name == logRoot || (logRoot ++ ".").toList.isPrefixOf name.toList

/-- A record as a line, the level filled up to eight characters. -/
def LogRecord.line (r : LogRecord) : String :=
  let level := r.level.name
  level ++ String.ofList (List.replicate (8 - level.length) ' ') ++ " " ++ r.part ++ ": " ++ r.text

/-- What is shown of a record under the level that was set, if any. -/
def LogRecord.shown? (r : LogRecord) (setting : Option LogLevel) : Option String :=
  match setting, isOwnPart r.part with
  | some level, true => if level.threshold.number ≤ r.level.number then some r.line else none
  | _, _ => if LogLevel.warning.number ≤ r.level.number then some r.text else none

/-! ## Events of a search -/

/-- Why a search stops. -/
inductive StopReason where
  | maxGenerated
  | maxFitted
  | maxDuration
  | interrupted
deriving DecidableEq, Repr

def StopReason.name : StopReason → String
  | maxGenerated => "max_generated"
  | maxFitted => "max_fitted"
  | maxDuration => "max_duration"
  | interrupted => "interrupted"

/-- What the program tells about its work. -/
inductive Event where
  | loaded (samples : Nat) (path : String)
  | loadFailed (message : String)
  | parsed (text : String) (nodes : Nat)
  | simplified (nodes nodesLeft params paramsLeft : Nat)
  | fitted (text : String) (residue : Float) (iterations : Int)
  | skippedLarge (text : String) (params : Nat) (maxParams : Int)
  | skippedUnfit (text : String) (e : FitError)
  | skippedInfinite (text : String)
  | newBest (generated : Nat) (text : String) (residue : Float)
  | noStopCondition
  | interrupted (generated : Nat)
  | stopped (reason : StopReason) (generated fitted : Nat) (residue : Float)

namespace Event

/-- The part of the program that an event comes from. -/
def part : Event → String
  | loaded _ _ => "datafitter_pkg.utils.data_loading"
  | loadFailed _ => "datafitter_pkg.cli.app"
  | parsed _ _ => "datafitter_pkg.symbolic_regression.parser"
  | simplified _ _ _ _ => "datafitter_pkg.symbolic_regression.simplifier"
  | fitted _ _ _ => "datafitter_pkg.symbolic_regression.fit_engine"
  | skippedLarge _ _ _ | skippedUnfit _ _ | skippedInfinite _ | newBest _ _ _
  | noStopCondition | interrupted _ | stopped _ _ _ _ =>
    "datafitter_pkg.symbolic_regression.search_engine"

def level : Event → LogLevel
  | loaded _ _ | newBest _ _ _ | noStopCondition | interrupted _ | stopped _ _ _ _ => .info
  | loadFailed _ => .error
  | parsed _ _ | simplified _ _ _ _ | fitted _ _ _ | skippedLarge _ _ _ | skippedUnfit _ _
  | skippedInfinite _ => .debug

def message : Event → String
  | loaded samples path => "Loaded " ++ toString samples ++ " samples from '" ++ path ++ "'"
  | loadFailed message => "Failed to load dataset: " ++ message
  | parsed text nodes =>
    "Parsed " ++ Text.quoted text ++ " into " ++ toString nodes ++ " nodes"
  | simplified nodes nodesLeft params paramsLeft =>
    "Simplified " ++ toString nodes ++ " -> " ++ toString nodesLeft ++ " nodes, "
      ++ toString params ++ " -> " ++ toString paramsLeft ++ " params"
  | fitted text residue iterations =>
    "Fitted " ++ text ++ ": residue=" ++ Decimal.shortText residue ++ " after "
      ++ toString iterations ++ " iterations"
  | skippedLarge text params maxParams =>
    "Skipping " ++ text ++ ": " ++ toString params ++ " parameters (max " ++ toString maxParams
      ++ ")"
  | skippedUnfit text e => "Skipping " ++ text ++ ": " ++ e.message
  | skippedInfinite text => "Skipping " ++ text ++ ": non-finite residue"
  | newBest generated text residue =>
    "New best after " ++ toString generated ++ " candidates: " ++ text ++ " (residue="
      ++ Decimal.shortText residue ++ ")"
  | noStopCondition => "No stop condition configured; searching until interrupted"
  | interrupted generated => "Search interrupted after " ++ toString generated ++ " candidates"
  | stopped reason generated fits residue =>
    "Search stopped (" ++ reason.name ++ "): " ++ toString generated ++ " generated, "
      ++ toString fits ++ " fitted, best residue " ++ Decimal.shortText residue

def record (e : Event) : LogRecord := ⟨e.part, e.level, e.message⟩

end Event

end FormulaSearch
