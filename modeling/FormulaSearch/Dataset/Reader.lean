import FormulaSearch.Dataset.Basic
import FormulaSearch.Dataset.FileStore
import FormulaSearch.Decimal.Reader
import FormulaSearch.Text.Lines
import FormulaSearch.Text.Quoted
import FormulaSearch.Text.Utf8

/-!
# Reading a dataset

A data file has one sample a line: two finite numbers separated by white space. Lines that are empty or
start with `#` are skipped but counted. The first other line that does not hold a sample is reported with
its number.
-/

namespace FormulaSearch

open Text Decimal

/-! ## Errors -/

/-- What is wrong with a data file. -/
inductive DataCause where
  | unreadable (reason : FileError)
  | wrongFieldCount (found : Nat)
  | notNumeric (line : String)
  | notFinite (line : String)
  | noSamples
deriving DecidableEq, Repr

def DataCause.message : DataCause → String
  | unreadable reason => "cannot read dataset (" ++ reason.message ++ ")"
  | wrongFieldCount found => "expected 2 fields, found " ++ toString found
  | notNumeric line => "non-numeric value in " ++ quoted line
  | notFinite line => "non-finite value in " ++ quoted line
  | noSamples => "dataset contains no samples"

/-- A message with the file, and the line if it is known, in front. -/
def placedMessage (message : String) (path : Option String) (line : Option Int) : String :=
  match path, line with
  | none, _ => message
  | some path, none => path ++ ": " ++ message
  | some path, some n => path ++ ":" ++ toString n ++ ": " ++ message

/-- A data file that gives no dataset. -/
structure DataError where
  cause : DataCause
  path : String
  line : Option Nat
deriving DecidableEq, Repr

def DataError.message (e : DataError) : String :=
  placedMessage e.cause.message (some e.path) (e.line.map Int.ofNat)

/-- Why loading fails: the file is no data file, or its name or its bytes are not even text. -/
inductive LoadError where
  | data (e : DataError)
  | encoding (fault : Utf8.Fault)
  | path (e : FileError)

def LoadError.message : LoadError → String
  | data e => e.message
  | encoding fault => fault.message
  | path e => e.message

/-! ## Lines -/

/-- What a line says, blanks around it removed. -/
inductive DataLine where
  | skipped
  | sample (x y : Float)
  | faulty (cause : DataCause)

/-- Reads a line. -/
def DataLine.ofChars (cs : List Char) : DataLine :=
  let line := trim cs
  if line.isEmpty || line.head? == some '#' then .skipped else
    match (fields line).map String.ofList with
    | [a, b] =>
      match readFloat? a, readFloat? b with
      | some x, some y =>
        if x.isFinite && y.isFinite then .sample x y
        else .faulty (.notFinite (String.ofList line))
      | _, _ => .faulty (.notNumeric (String.ofList line))
    | fs => .faulty (.wrongFieldCount fs.length)

/-- The samples of lines numbered from `number`, or the first faulty line. -/
def samplesFrom (number : Nat) : List (List Char) → Except (DataCause × Nat) (List (Float × Float))
  | [] => .ok []
  | line :: rest =>
    match DataLine.ofChars line with
    | .skipped => samplesFrom (number + 1) rest
    | .faulty cause => .error (cause, number)
    | .sample x y => (samplesFrom (number + 1) rest).map ((x, y) :: ·)

/-! ## Files -/

/-- A dataset from the characters of a file. -/
def Dataset.ofChars (path : String) (cs : List Char) : Except DataError Dataset :=
  match samplesFrom 1 (lines cs) with
  | .error (cause, number) => .error ⟨cause, path, some number⟩
  | .ok pairs =>
    match Dataset.ofPairs pairs (some path) with
    | .ok d => .ok d
    | .error _ => .error ⟨.noSamples, path, none⟩

/-- Loads the dataset at a path. -/
def Dataset.load (store : FileStore) (path : String) : Except LoadError Dataset :=
  match store.read path with
  | .error .nullCharacter => .error (.path .nullCharacter)
  | .error e => .error (.data ⟨.unreadable e, path, none⟩)
  | .ok bytes =>
    match Utf8.decode bytes with
    | .error fault => .error (.encoding fault)
    | .ok cs =>
      match Dataset.ofChars path cs with
      | .error e => .error (.data e)
      | .ok d => .ok d

end FormulaSearch
