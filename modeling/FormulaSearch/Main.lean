import FormulaSearch.CommandLine.Session

/-!
# The program

Reads the environment, the data file and the time, lets the session go on turn by turn, and writes what
the session has written so far.
-/

namespace FormulaSearch

/-- The variables that the program reads. -/
def readEnvironment : IO Environment := do
  let values ← Environment.names.mapM fun name => do
    return (name, ← IO.getEnv name)
  return fun name => (values.lookup name).join

/-- What stands at a path of the file system. -/
def readEntry (path : String) : IO (Option FileEntry) := do
  try
    let bytes ← IO.FS.readBinFile path
    return some (.file bytes.toList)
  catch
    | .inappropriateType .. => return some .directory
    | _ => return none

/-- A path and all that leads to it, the outermost first. -/
def stepsTo (path : String) : List String :=
  let names := FileStore.components path
  (List.range names.length).map fun n => "/".intercalate (names.take (n + 1))

/-- What stands at the steps to a path, up to the first that is no directory. -/
def readSteps : List String → IO (List (String × FileEntry))
  | [] => return []
  | "" :: steps => readSteps steps
  | step :: steps => do
    match ← readEntry step with
    | none => return []
    | some (.file bytes) => return [(step, .file bytes)]
    | some .directory => return (step, .directory) :: (← readSteps steps)

/-- The part of the file system that a session needs. -/
def readFiles (paths : List String) : IO FileStore := do
  let entries ← paths.mapM fun path => readSteps (stepsTo path)
  return .ofList entries.flatten

/-- The paths that a command line names. -/
def pathsOf (arguments : List String) (defaults : Settings) : List String :=
  match Options.ofArguments arguments with
  | .ok o => (o.dataset.getD defaults.datasetPath) :: o.logFile.toList
  | .error _ => []

/-- Writes the entries of a transcript from a number on, the oldest first. -/
def writeEntries (t : Transcript) (written : Nat) : IO Unit := do
  let fresh := { t with entries := t.entries.take (t.entries.length - written) }
  let out ← IO.getStdout
  for line in fresh.outLines do
    out.putStrLn line
  out.flush
  for line in fresh.errLines do
    IO.eprintln line
  match t.logFile with
  | none => return
  | some path =>
    let handle ← IO.FS.Handle.mk path .append
    for line in fresh.logLines do
      handle.putStrLn line

/-- Seconds since a moment in nanoseconds. -/
def secondsSince (begun : Nat) : IO Float := do
  return Float.ofNat ((← IO.monoNanosNow) - begun) / 1e9

/-- What is said of a session that breaks off. -/
def Crash.message : Crash → String
  | .load e => e.message
  | .logFile path e => path ++ ": " ++ e.message
  | .run (.missing e) => "no value for parameter " ++ e.name
  | .run (.unknown e) => e.message

/-- Lets a session go on to its end. -/
partial def drive (begun written : Nat) (session : Session) : IO UInt32 := do
  let t := session.transcript
  writeEntries t written
  match session with
  | .ended code _ => return UInt32.ofNat code
  | .crashed e _ =>
    IO.eprintln e.message
    return 1
  | going =>
    drive begun t.entries.length ((going.atTime (← secondsSince begun)).advance 1)

/-- Runs a session with the given arguments. -/
def runProgram (arguments : List String) : IO UInt32 := do
  match (← readEnvironment).settings with
  | .error e =>
    IO.eprintln e.message
    return 1
  | .ok defaults =>
    let begun ← IO.monoNanosNow
    drive begun 0 <| Session.start
      { arguments, defaults, files := ← readFiles (pathsOf arguments defaults)
        clockStep := 0.0, entropy := begun }

end FormulaSearch

/-- Runs the program. -/
def main (arguments : List String) : IO UInt32 := FormulaSearch.runProgram arguments
