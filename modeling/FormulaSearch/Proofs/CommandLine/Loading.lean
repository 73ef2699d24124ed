import FormulaSearch.Proofs.CommandLine.Cap
import FormulaSearch.Proofs.Text.Utf8

/-!
# Datasets that cannot be loaded

A dataset is loaded, or it is told what is wrong with the data file, if the file that its path leads to is
text; then it does not matter whether there is such a file. Bytes that are no text are a failure of another
kind. A session reports the one kind with an error message and its exit code, and breaks off at the other.
-/

namespace FormulaSearch

open Text

/-! ## Files -/

namespace FileStore

/-- The path can be one, and the file that it leads to, if there is one, is text. -/
def TextAt (store : FileStore) (path : String) : Prop :=
  '\x00' ∉ path.toList ∧ ∀ bytes, store.read path = .ok bytes → Utf8.IsText bytes

variable {store : FileStore}

/-- On its way along a path no lookup meets a null character. -/
theorem follow_ne_nullCharacter {place : List String} {entry : FileEntry} {names : List String} :
    store.follow place entry names ≠ .error .nullCharacter := by
  induction names generalizing place entry with
  | nil => exact fun h => nomatch h
  | cons c rest ih =>
    cases entry with
    | file bytes => exact fun h => nomatch h
    | directory =>
      rw [follow]
      split
      · exact ih
      · split
        · exact ih
        · split
          · exact fun h => nomatch h
          · split
            · exact ih
            · exact fun h => nomatch h

theorem read_eq_nullCharacter_iff {path : String} :
    store.read path = .error .nullCharacter ↔ '\x00' ∈ path.toList := by
  rw [read, resolve]
  by_cases hnull : '\x00' ∈ path.toList
  · rw [if_pos (List.contains_iff_mem.mpr hnull)]
    exact ⟨fun _ => hnull, fun _ => rfl⟩
  · rw [if_neg (fun h => hnull (List.contains_iff_mem.mp h))]
    refine ⟨fun h => ?_, fun h => absurd h hnull⟩
    split at h
    · rename_i e hresolve
      cases h
      split at hresolve
      · cases hresolve
      · split at hresolve
        · cases hresolve
        · exact absurd hresolve follow_ne_nullCharacter
    · cases h
    · cases h

end FileStore

/-- Loading gives a dataset or tells what is wrong with the data file, if and only if the file is text. -/
theorem Dataset.load_reports_iff (store : FileStore) (path : String) :
    ((∃ d, load store path = .ok d) ∨ ∃ e, load store path = .error (.data e)) ↔
      store.TextAt path := by
  have hnull := @FileStore.read_eq_nullCharacter_iff store path
  rw [FileStore.TextAt, ← hnull, load]
  cases hread : store.read path with
  | error e =>
    cases e with
    | nullCharacter => simp
    | _ => exact iff_of_true (.inr ⟨_, rfl⟩) ⟨fun h => (by cases h), fun _ h => (by cases h)⟩
  | ok bytes =>
    dsimp only
    cases hdecode : Utf8.decode bytes with
    | error fault =>
      have hnot : ¬ Utf8.IsText bytes := by
        rw [← Utf8.exists_decode_iff, hdecode]
        rintro ⟨cs, hcs⟩
        cases hcs
      exact iff_of_false (by simp) fun h => hnot (h.2 bytes rfl)
    | ok cs =>
      have htext : Utf8.IsText bytes := Utf8.exists_decode_iff.mp ⟨cs, hdecode⟩
      refine iff_of_true ?_ ⟨fun h => (by cases h), fun other hother => ?_⟩
      · dsimp only
        split
        · exact .inr ⟨_, rfl⟩
        · exact .inl ⟨_, rfl⟩
      · rwa [← Except.ok.inj hother]

/-! ## Sessions -/

/-- The files once the log file that options ask for is there. -/
def Options.filesWithLog (o : Options) (files : FileStore) : Except FileError FileStore :=
  match o.logFile.filter (!·.isEmpty) with
  | none => .ok files
  | some path => files.append path []

namespace Session

/-- A session that comes to load its dataset: its command line is accepted and its log file is there. -/
structure Loads (inv : Invocation) (o : Options) (config : Config) (files : FileStore) : Prop where
  options_eq : Options.ofArguments inv.arguments = .ok o
  version_eq : o.version = false
  template_given : ((o.fitOnce || o.benchmark.isSome) && o.templateName?.isNone) = false
  count_pos : o.benchmark.any (· < 1) = false
  config_eq : Config.ofSettings (o.settings inv.defaults) = .ok config
  files_eq : o.filesWithLog inv.files = .ok files

variable {inv : Invocation} {o : Options} {config : Config} {files : FileStore}

theorem prepareWithArguments_of_logged (hversion : o.version = false)
    (hfiles : o.filesWithLog inv.files = .ok files) :
    ∃ t, prepareWithArguments o inv = prepareWithOptions o inv files t := by
  rw [prepareWithArguments, hversion, if_neg (by decide)]
  rw [Options.filesWithLog] at hfiles
  dsimp only
  split
  · rename_i hnone
    rw [hnone] at hfiles
    cases hfiles
    exact ⟨_, rfl⟩
  · rename_i path hpath
    rw [hpath] at hfiles
    dsimp only at hfiles
    rw [hfiles]
    exact ⟨_, rfl⟩

/-- What a session does that comes to load its dataset. -/
theorem start_of_loads (h : Loads inv o config files) :
    ∃ t, start inv = match Dataset.load files config.datasetPath with
      | .ok d => beginWork ⟨o, config, d, t.log (.loaded d.size config.datasetPath)⟩ inv
      | .error (.data e) => refuse (t.log (.loadFailed e.message)) e.message
      | .error e => .crashed (.load e) t := by
  obtain ⟨t, ht⟩ := prepareWithArguments_of_logged h.version_eq h.files_eq
  refine ⟨t, ?_⟩
  rw [start, prepare, h.options_eq]
  dsimp only
  rw [ht, prepareWithOptions, h.template_given, h.count_pos, if_neg (by decide), if_neg (by decide),
    h.config_eq]
  dsimp only
  cases Dataset.load files config.datasetPath with
  | ok d => rfl
  | error e => cases e <;> rfl

/-- No failure to load a dataset escapes from a session. -/
def Contained (session : Session) : Prop :=
  ∀ n e t, advance n session ≠ .crashed (.load e) t

theorem advance_ended (n code : Nat) (t : Transcript) : advance n (.ended code t) = .ended code t := by
  induction n with
  | zero => rfl
  | succ n ih => exact ih

theorem contained_ended (code : Nat) (t : Transcript) : (ended code t).Contained := by
  intro n e t' h
  rw [advance_ended] at h
  cases h

theorem contained_beginWork (w : Work) (inv : Invocation) : (beginWork w inv).Contained := by
  intro n e t h
  have hfor := for_advance (for_beginWork w inv) n
  rw [h] at hfor
  exact hfor

theorem not_contained_crashed (e : LoadError) (t : Transcript) :
    ¬ (crashed (.load e) t).Contained :=
  fun h => h 0 e t rfl

/-- A session that is given a data file and nothing else comes to load it. -/
theorem loads_alone (files : FileStore) :
    let inv : Invocation := { arguments := ["data.dat"], files := files, clockStep := 0.0 }
    ∃ o config, Loads inv o config files ∧ config.datasetPath = "data.dat" := by
  intro inv
  let o : Options := { dataset := some "data.dat" }
  have haccepted : (o.settings {}).error? = none := by decide +kernel
  exact ⟨o, ⟨_, haccepted⟩,
    { options_eq := rfl
      version_eq := rfl
      template_given := rfl
      count_pos := rfl
      config_eq := Config.ofSettings_eq_ok haccepted
      files_eq := rfl },
    rfl⟩

/-- The dataset is loaded, or what is wrong with its file is reported, if and only if the file is text.
Exactly then no failure to load it escapes from a session that loads it, at any turn.
What is wrong with the file is printed, and the session ends with the exit code for it. -/
theorem loading_contained_iff (store : FileStore) (path : String) :
    (((∃ d, Dataset.load store path = .ok d) ∨ ∃ e, Dataset.load store path = .error (.data e)) ↔
        store.TextAt path) ∧
      ∀ inv o config, Loads inv o config store → config.datasetPath = path →
        ((start inv).Contained ↔ store.TextAt path) ∧
        ∀ e, Dataset.load store path = .error (.data e) →
          ∃ t : Transcript, start inv = .ended exitUsage (t.err ("Error: " ++ e.message)) := by
  have hreports := Dataset.load_reports_iff store path
  refine ⟨hreports, fun inv o config h hpath => ?_⟩
  obtain ⟨t, hstart⟩ := start_of_loads h
  rw [hpath] at hstart
  constructor
  · rw [← hreports, hstart]
    cases hload : Dataset.load store path with
    | ok d => exact iff_of_true (contained_beginWork _ inv) (.inl ⟨d, rfl⟩)
    | error e =>
      cases e with
      | data e => exact iff_of_true (contained_ended exitUsage _) (.inr ⟨e, rfl⟩)
      | encoding fault => exact iff_of_false (not_contained_crashed _ t) (by simp)
      | path e => exact iff_of_false (not_contained_crashed _ t) (by simp)
  · intro e hload
    rw [hstart, hload]
    exact ⟨_, rfl⟩

/-- A search whose data file holds one word. -/
theorem loading_contained_word :
    let inv : Invocation :=
      { arguments := ["data.dat"]
        files := ⟨[(["data.dat"], .file [120])]⟩
        clockStep := 0.0 }
    (start inv).Contained ∧ ∃ t : Transcript,
      start inv = .ended exitUsage (t.err "Error: data.dat:1: expected 2 fields, found 1") := by
  intro inv
  obtain ⟨o, config, hloads, hpath⟩ := loads_alone inv.files
  have hload : Dataset.load inv.files "data.dat" =
      .error (.data ⟨.wrongFieldCount 1, "data.dat", some 1⟩) := by
    rfl
  obtain ⟨htext, hsession⟩ := loading_contained_iff inv.files "data.dat"
  obtain ⟨hcontained, hreported⟩ := hsession inv o config hloads hpath
  exact ⟨hcontained.mpr (htext.mp (.inr ⟨_, hload⟩)), hreported _ hload⟩

/-- A byte that begins no character gets past the report. -/
theorem loading_escapes :
    let inv : Invocation :=
      { arguments := ["data.dat"]
        files := ⟨[(["data.dat"], .file [0xFF])]⟩
        clockStep := 0.0 }
    ∃ t, start inv = .crashed (.load (.encoding ⟨[0xFF], 0, .invalidStart⟩)) t := by
  intro inv
  obtain ⟨o, config, hloads, hpath⟩ := loads_alone inv.files
  have hload : Dataset.load inv.files "data.dat" = .error (.encoding ⟨[0xFF], 0, .invalidStart⟩) := by
    rfl
  obtain ⟨t, hstart⟩ := start_of_loads hloads
  rw [hpath, hload] at hstart
  exact ⟨t, hstart⟩

end Session

end FormulaSearch
