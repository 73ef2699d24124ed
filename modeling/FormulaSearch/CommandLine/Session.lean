import FormulaSearch.CommandLine.Options
import FormulaSearch.CommandLine.Transcript
import FormulaSearch.Dataset.Reader
import FormulaSearch.Random.Twister
import FormulaSearch.Search.Run
import FormulaSearch.Settings.Environment

/-!
# Sessions

One use of the program from its command line: the options are read, the settings made, the dataset
loaded, and then a template is fitted once, fitted repeatedly, or a search is run. A session is a
value; a search in progress is part of it and goes on for as many turns as are asked for. What the
session prints and logs is kept in order in a transcript.
-/

namespace FormulaSearch

/-! ## Invocations -/

/-- What a session is given. -/
structure Invocation where
  arguments : List String
  /-- The settings where options say nothing. -/
  defaults : Settings := {}
  files : FileStore
  /-- The step of the clocks. -/
  clockStep : Float
  /-- The seed where none is set. -/
  entropy : Int := 0
  symbolic : Symbolic := .absent

/-- The version of the program. -/
def programVersion : String := "0.3.0"

/-- The name of the program. -/
def programName : String := "datafitter"

/-- Why a session breaks off. -/
inductive Crash where
  | load (e : LoadError)
  | logFile (path : String) (e : FileError)
  | run (e : RunFailure)

/-- Fits of one candidate from the same start, of which some are left to do. -/
structure Repetition where
  config : Config
  dataset : Dataset
  candidate : Candidate
  left : Nat
  begun : Float
  clock : Clock

/-- Where a session stands. -/
inductive Session where
  | ended (code : Nat) (t : Transcript)
  | crashed (e : Crash) (t : Transcript)
  | repeating (job : Repetition) (t : Transcript)
  | searching (plan : SearchPlan) (s : SearchState RandomStream Optimizer) (t : Transcript)

/-- What a session works with once its options are understood, its settings accepted and its dataset
loaded. -/
structure Work where
  options : Options
  config : Config
  dataset : Dataset
  transcript : Transcript

/-- The exit code of a session that did what was asked. -/
def exitDone : Nat := 0

/-- The exit code of a single fit that failed. -/
def exitUnfit : Nat := 1

/-- The exit code of a session that could not do what was asked. -/
def exitUsage : Nat := 2

/-! ## From options to settings -/

/-- The template asked for, unless it is absent or empty. -/
def Options.templateName? (o : Options) : Option String := o.template.filter (!·.isEmpty)

/-- The settings that options ask for. -/
def Options.settings (o : Options) (base : Settings) : Settings :=
  let s := { base with
    datasetPath := o.dataset.getD base.datasetPath
    verbose := !o.quiet
    seed := o.seed <|> base.seed
    maxGenerated := o.maxGenerated <|> base.maxGenerated
    maxFitted := o.maxFitted <|> base.maxFitted
    maxDuration := o.maxDuration <|> base.maxDuration
    maxParams := o.maxParams.getD base.maxParams
    fitAlgorithm := o.fitAlgorithm.getD base.fitAlgorithm
    residualFunction := o.residual.getD base.residualFunction
    minStep := o.minStep.getD base.minStep
    fitMaxIters := o.maxIters.getD base.fitMaxIters }
  match o.templateName? with
  | none => s
  | some name =>
    let t := Template.resolve name o.params
    { s with template := some t.text, templateParams := t.values }

namespace Session

/-- Ends with an error message. -/
def refuse (t : Transcript) (message : String) : Session :=
  .ended exitUsage (t.err ("Error: " ++ message))

/-- Logs that a text was read as a formula, if it was. -/
def logParsed (t : Transcript) (text : String) : Transcript :=
  match parse text with
  | .ok e => t.log (.parsed text e.count)
  | .error _ => t

/-! ## Single fits -/

/-- The candidate of the configured template. -/
def templateCandidate (config : Config) : Except Candidate.TemplateError Candidate :=
  Candidate.ofTemplate config.toSettings ⟨config.template.getD "", config.templateParams⟩

/-- Fits the template once and prints the result. -/
def fitOnce (config : Config) (d : Dataset) (t : Transcript) : Session :=
  let t := logParsed t (config.template.getD "")
  match templateCandidate config with
  | .error e => refuse t e.message
  | .ok c =>
    let t := t.out ("f = " ++ c.text)
    let report := fit config d c
    match report.result with
    | .error (.unfit e) => .ended exitUnfit (t.out ("Unable to fit: " ++ e.message))
    | .error (.unknown e) => refuse t e.message
    | .error (.missing e) => .crashed (.run (.missing e)) t
    | .ok r =>
      let t := t.log (.fitted c.text r.residue r.iterations)
      match { c with params := report.params }.closedText with
      | .error e => .crashed (.run (.missing e)) t
      | .ok closed =>
        .ended exitDone ((Report.single r.iterations closed r.residue).foldl Transcript.out t)

/-! ## Repeated fits -/

/-- Starts to fit the template a number of times. -/
def beginRepetition (config : Config) (d : Dataset) (repeats : Nat) (clock : Clock)
    (t : Transcript) : Session :=
  let t := logParsed t (config.template.getD "")
  match templateCandidate config with
  | .error e => refuse t e.message
  | .ok c =>
    let (begun, clock) := clock.read
    .repeating ⟨config, d, c, repeats, begun, clock⟩ t

/-- One fit, or at the end the time that all of them took. -/
def repetitionTurn (job : Repetition) (t : Transcript) : Session :=
  match job.left with
  | 0 =>
    let elapsed := (job.clock.read.1 - job.begun) * 1000.0
    .ended exitDone (t.out ("finished in " ++ Decimal.fixedText 0 elapsed ++ " ms."))
  | left + 1 =>
    let next := { job with left }
    let report := fit job.config job.dataset job.candidate
    match report.result with
    | .error (.unfit e) => .repeating next (t.out ("fit failed: " ++ e.message))
    | .error (.unknown e) => refuse t e.message
    | .error (.missing e) => .crashed (.run (.missing e)) t
    | .ok r =>
      let t := t.log (.fitted job.candidate.text r.residue r.iterations)
      .repeating next
        (t.out ("fit_residue = " ++ Decimal.fullText r.residue ++ " (fit_iters: "
          ++ toString r.iterations ++ ")"))

/-! ## Searches -/

/-- Starts a search. -/
def beginSearch (config : Config) (d : Dataset) (inv : Invocation) (t : Transcript) : Session :=
  match SearchPlan.make d config with
  | .error (.unknown e) => refuse t e.message
  | .error e => refuse (logParsed t (config.template.getD "")) e.message
  | .ok plan =>
    let t := match SearchPlan.templateOf? config.toSettings with
      | some template => logParsed t template.text
      | none => t
    let source := RandomStream.twister (Twister.ofSeed (config.seed.getD inv.entropy))
    let s := SearchState.start plan source Optimizer.mk (.withStep inv.clockStep) inv.symbolic
    .searching plan (s.beginRun plan) t

/-- Sums up a search that has stopped. -/
def endSearch (plan : SearchPlan) (reason : StopReason)
    (s : SearchState RandomStream Optimizer) (t : Transcript) : Session :=
  let (result, s) := s.endRun reason
  let s := s.printStats plan
  let t := t.addOutput s.takeOutput.1
  if !plan.config.verbose then .ended exitDone t
  else if !result.found then .ended exitDone (t.out "no candidate could be fitted")
  else match result.best.candidate.closedText with
    | .error e => .crashed (.run (.missing e)) t
    | .ok closed =>
      .ended exitDone ((t.out ("best: " ++ closed)).out
        ("residue = " ++ Decimal.fullText result.best.residue))

/-- One turn of a search. -/
def searchTurn (plan : SearchPlan) (s : SearchState RandomStream Optimizer) (t : Transcript) :
    Session :=
  match s.turn plan with
  | .stopped reason s => endSearch plan reason s t
  | .failed e s => .crashed (.run e) (t.addOutput s.takeOutput.1)
  | .running s =>
    let (output, s) := s.takeOutput
    .searching plan s (t.addOutput output)

/-! ## Turns -/

/-- One turn of a session; one that has ended stays as it is. -/
def turn : Session → Session
  | .repeating job t => repetitionTurn job t
  | .searching plan s t => searchTurn plan s t
  | session => session

/-- At most so many turns. -/
def advance : Nat → Session → Session
  | 0, session => session
  | n + 1, session => advance n session.turn

/-- The session with its clock set to a time and standing still. -/
def atTime (now : Float) : Session → Session
  | .repeating job t => .repeating { job with clock := .still now } t
  | .searching plan s t => .searching plan { s with clock := .still now } t
  | session => session

/-- What the session has written. -/
def transcript : Session → Transcript
  | .ended _ t | .crashed _ t | .repeating _ t | .searching _ _ t => t

/-- The files of an invocation with what the session has logged. -/
def filesAfter (session : Session) (files : FileStore) : FileStore :=
  let t := session.transcript
  match t.logFile with
  | none => files
  | some path =>
    let text := String.join (t.logLines.map (· ++ "\n"))
    match files.append path text.toUTF8.toList with
    | .ok files => files
    | .error _ => files

/-! ## The start of a session -/

/-- Does what the options ask for. -/
def beginWork (w : Work) (inv : Invocation) : Session :=
  if w.options.fitOnce then fitOnce w.config w.dataset w.transcript
  else match w.options.benchmark with
    | some n =>
      beginRepetition w.config w.dataset n.toNat (.withStep inv.clockStep) w.transcript
    | none => beginSearch w.config w.dataset inv w.transcript

/-- Makes the settings and loads the dataset, or ends. -/
def prepareWithOptions (o : Options) (inv : Invocation) (files : FileStore) (t : Transcript) :
    Except Session Work :=
  if (o.fitOnce || o.benchmark.isSome) && o.templateName?.isNone then
    .error (refuse t "--fit-once and --benchmark need --template")
  else if o.benchmark.any (· < 1) then .error (refuse t "--benchmark needs a positive count")
  else match Config.ofSettings (o.settings inv.defaults) with
    | .error e => .error (refuse t e.message)
    | .ok config =>
      match Dataset.load files config.datasetPath with
      | .error (.data e) => .error (refuse (t.log (.loadFailed e.message)) e.message)
      | .error e => .error (.crashed (.load e) t)
      | .ok d => .ok ⟨o, config, d, t.log (.loaded d.size config.datasetPath)⟩

/-- Does what options ask for before anything else is done. -/
def prepareWithArguments (o : Options) (inv : Invocation) : Except Session Work :=
  if o.version then
    .error (.ended exitDone (({} : Transcript).out (programName ++ " " ++ programVersion)))
  else
    let t : Transcript := { logLevel := some o.logLevel }
    match o.logFile.filter (!·.isEmpty) with
    | none => prepareWithOptions o inv inv.files t
    | some path =>
      match inv.files.append path [] with
      | .error e => .error (.crashed (.logFile path e) t)
      | .ok files => prepareWithOptions o inv files { t with logFile := some path }

/-- The lines on how to use the program. -/
def helpLines : List String :=
  ("usage: " ++ programName ++ " [options] [dataset]") ::
    OptionKey.all.map fun key =>
      "  " ++ ", ".intercalate key.spellings ++ (if key.isFlag then "" else " VALUE")

/-- Gets ready to work, or ends. -/
def prepare (inv : Invocation) : Except Session Work :=
  match Options.ofArguments inv.arguments with
  | .error (.rejected e) =>
    .error (.ended exitUsage (({} : Transcript).err (programName ++ ": error: " ++ e.message)))
  | .error .helpWanted => .error (.ended exitDone (helpLines.foldl Transcript.out {}))
  | .ok o => prepareWithArguments o inv

/-- Starts a session. -/
def start (inv : Invocation) : Session :=
  match prepare inv with
  | .error session => session
  | .ok w => beginWork w inv

end Session

end FormulaSearch
