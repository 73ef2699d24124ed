import FormulaSearch.Search.Basic
import FormulaSearch.Text.Lines

/-!
# Transcripts

What a session writes, in the order in which it writes it: lines on the standard output, lines on the
standard error output, and log messages, which go to a file if one is named and to the standard error
output otherwise.
-/

namespace FormulaSearch

/-- Where something is written. -/
inductive Entry where
  | out (line : String)
  | err (line : String)
  | log (e : Event)

/-- What has been written so far, the latest first, and which log messages go where. -/
structure Transcript where
  logLevel : Option LogLevel := none
  logFile : Option String := none
  entries : List Entry := []

namespace Transcript

def add (t : Transcript) (e : Entry) : Transcript := { t with entries := e :: t.entries }

def out (t : Transcript) (line : String) : Transcript := t.add (.out line)

def err (t : Transcript) (line : String) : Transcript := t.add (.err line)

def log (t : Transcript) (e : Event) : Transcript := t.add (.log e)

/-- Adds what a search has printed and logged. -/
def addOutput (t : Transcript) (output : List Output) : Transcript :=
  output.foldl (fun t o => match o with
    | .printed line => t.out line
    | .logged e => t.log e) t

/-- The lines of some entries, in order. -/
def linesOf (t : Transcript) (write : Entry → Option String) : List String :=
  t.entries.reverse.flatMap fun e => match write e with
    | some text => Text.pieces text
    | none => []

/-- The lines on the standard output. -/
def outLines (t : Transcript) : List String :=
  t.linesOf fun
    | .out line => some line
    | _ => none

/-- The lines on the standard error output, log messages among them if they have no file. -/
def errLines (t : Transcript) : List String :=
  t.linesOf fun
    | .err line => some line
    | .log e => if t.logFile.isNone then e.record.shown? t.logLevel else none
    | .out _ => none

/-- The lines of the log file. -/
def logLines (t : Transcript) : List String :=
  t.linesOf fun
    | .log e => if t.logFile.isSome then e.record.shown? t.logLevel else none
    | _ => none

end Transcript

end FormulaSearch
