import FormulaSearch.Dataset.Reader
import FormulaSearch.Proofs.Text.Separation
import FormulaSearch.Proofs.Text.Utf8

/-!
# The lines of a data file

A line is relevant if it has a character that is no white space and the first such character is no `#`. A
dataset is what the relevant lines of its file hold, line by line; lines that are not relevant only count.
The error is at the first relevant line that does not hold a sample.
-/

namespace FormulaSearch

open Text Decimal

/-! ## Single lines -/

/-- There is something on the line, and it is no comment. -/
def relevant (line : List Char) : Bool := (line.find? (!isBlank ·)).any (· != '#')

/-- The line has two fields, and they are the finite numbers of the sample. -/
def Holds (line : List Char) (sample : Float × Float) : Prop :=
  ∃ a b, HasFields line [a, b] ∧
    readFloat? (String.ofList a) = some sample.1 ∧ sample.1.isFinite = true ∧
    readFloat? (String.ofList b) = some sample.2 ∧ sample.2.isFinite = true

/-- A relevant line without a sample. -/
def Violates (line : List Char) : Prop := relevant line = true ∧ ∀ sample, ¬ Holds line sample

theorem relevant_eq (line : List Char) :
    relevant line = !((trim line).isEmpty || (trim line).head? == some '#') := by
  rw [relevant, ← head?_trim]
  cases trim line with
  | nil => rfl
  | cons c rest => simp [bne]

/-- The sample is what the two fields of the line are read as. -/
theorem holds_iff {line : List Char} {x y : Float} : Holds line (x, y) ↔
    ∃ a b, fields line = [a, b] ∧ readFloat? (String.ofList a) = some x ∧ x.isFinite = true ∧
      readFloat? (String.ofList b) = some y ∧ y.isFinite = true := by
  simp only [Holds, hasFields_iff]

theorem Violates.of_fields {line : List Char} (h : relevant line = true)
    (hfields : (fields line).length ≠ 2) : Violates line := by
  refine ⟨h, fun ⟨x, y⟩ hholds => ?_⟩
  obtain ⟨a, b, hab, -⟩ := holds_iff.mp hholds
  simp [hab] at hfields

/-- What is so of a line that something is read off. -/
def DataLine.SaidBy (line : List Char) : DataLine → Prop
  | .skipped => relevant line = false
  | .sample x y => relevant line = true ∧ Holds line (x, y)
  | .faulty _ => Violates line

/-- Nothing else is read off a line. -/
theorem DataLine.ofChars_saidBy (line : List Char) : (DataLine.ofChars line).SaidBy line := by
  have hrelevant := relevant_eq line
  simp only [DataLine.ofChars, fields_trim]
  by_cases hskip : ((trim line).isEmpty || (trim line).head? == some '#') = true
  · rw [if_pos hskip]
    rw [hskip] at hrelevant
    exact hrelevant
  · rw [if_neg hskip]
    rw [Bool.not_eq_true] at hskip
    rw [hskip] at hrelevant
    have hcount := Violates.of_fields hrelevant
    cases hfields : fields line with
    | nil => exact hcount (by simp [hfields])
    | cons a rest =>
      cases rest with
      | nil => exact hcount (by simp [hfields])
      | cons b rest =>
        cases rest with
        | cons c rest => exact hcount (by simp [hfields])
        | nil =>
          have hholds {x y : Float} : Holds line (x, y) ↔
              readFloat? (String.ofList a) = some x ∧ x.isFinite = true ∧
                readFloat? (String.ofList b) = some y ∧ y.isFinite = true := by
            simp [holds_iff, hfields]
          simp only [List.map_cons, List.map_nil]
          split
          · rename_i x y hx hy
            split
            · rename_i hfinite
              exact ⟨hrelevant, hholds.mpr (by simpa [hx, hy] using hfinite)⟩
            · rename_i hfinite
              refine ⟨hrelevant, fun ⟨x', y'⟩ h => hfinite ?_⟩
              obtain ⟨hx', hxfinite, hy', hyfinite⟩ := hholds.mp h
              obtain rfl : x = x' := Option.some.inj (hx.symm.trans hx')
              obtain rfl : y = y' := Option.some.inj (hy.symm.trans hy')
              rw [hxfinite, hyfinite, Bool.and_self]
          · rename_i hnumeric
            refine ⟨hrelevant, fun ⟨x, y⟩ h => ?_⟩
            obtain ⟨hx, -, hy, -⟩ := hholds.mp h
            exact hnumeric x y hx hy

theorem relevant_eq_false {line : List Char} (h : DataLine.ofChars line = .skipped) :
    relevant line = false := by
  have := DataLine.ofChars_saidBy line
  rwa [h] at this

theorem relevant_and_holds {line : List Char} {x y : Float}
    (h : DataLine.ofChars line = .sample x y) : relevant line = true ∧ Holds line (x, y) := by
  have := DataLine.ofChars_saidBy line
  rwa [h] at this

theorem violates_of_faulty {line : List Char} {cause : DataCause}
    (h : DataLine.ofChars line = .faulty cause) : Violates line := by
  have := DataLine.ofChars_saidBy line
  rwa [h] at this

/-! ## All lines -/

/-- If no line is at fault, the samples are what the relevant lines hold. -/
theorem samplesFrom_eq_ok {ls : List (List Char)} (h : ∀ line ∈ ls, ¬ Violates line)
    (number : Nat) : ∃ samples, samplesFrom number ls = .ok samples ∧
      List.Forall₂ Holds (ls.filter relevant) samples := by
  induction ls generalizing number with
  | nil => exact ⟨[], rfl, .nil⟩
  | cons line ls ih =>
    obtain ⟨samples, hsamples, hholds⟩ :=
      ih (fun l hl => h l (List.mem_cons_of_mem line hl)) (number + 1)
    cases hline : DataLine.ofChars line with
    | skipped =>
      refine ⟨samples, by rw [samplesFrom, hline, hsamples], ?_⟩
      rwa [List.filter_cons_of_neg (by simp [relevant_eq_false hline])]
    | sample x y =>
      obtain ⟨hrelevant, hsample⟩ := relevant_and_holds hline
      refine ⟨(x, y) :: samples, by rw [samplesFrom, hline, hsamples]; rfl, ?_⟩
      rw [List.filter_cons_of_pos hrelevant]
      exact .cons hsample hholds
    | faulty cause => exact absurd (violates_of_faulty hline) (h line List.mem_cons_self)

/-- The first line at fault is reported with its number. -/
theorem samplesFrom_eq_error {before after : List (List Char)} {line : List Char}
    (hbefore : ∀ l ∈ before, ¬ Violates l) (hline : Violates line) (number : Nat) :
    ∃ cause, samplesFrom number (before ++ line :: after) =
      .error (cause, number + before.length) := by
  induction before generalizing number with
  | nil =>
    rw [List.nil_append, samplesFrom]
    cases hread : DataLine.ofChars line with
    | skipped => exact absurd hline.1 (by simp [relevant_eq_false hread])
    | sample x y => exact absurd (relevant_and_holds hread).2 (hline.2 (x, y))
    | faulty cause => exact ⟨cause, rfl⟩
  | cons l before ih =>
    obtain ⟨cause, hcause⟩ :=
      ih (fun l' hl => hbefore l' (List.mem_cons_of_mem l hl)) (number + 1)
    rw [Nat.add_assoc, Nat.add_comm 1] at hcause
    refine ⟨cause, ?_⟩
    rw [List.cons_append, samplesFrom, List.length_cons]
    cases hread : DataLine.ofChars l with
    | skipped => exact hcause
    | sample x y =>
      rw [hcause]
      rfl
    | faulty cause' => exact absurd (violates_of_faulty hread) (hbefore l List.mem_cons_self)

/-- Lines that are not relevant do not matter for the samples. -/
theorem samplesFrom_filter (ls : List (List Char)) (number number' : Nat) :
    (samplesFrom number ls).toOption = (samplesFrom number' (ls.filter relevant)).toOption := by
  have htail (x : Float × Float) (r : Except (DataCause × Nat) (List (Float × Float))) :
      (r.map (x :: ·)).toOption = r.toOption.map (x :: ·) := by
    cases r <;> rfl
  induction ls generalizing number number' with
  | nil => rfl
  | cons line ls ih =>
    cases hline : DataLine.ofChars line with
    | skipped =>
      rw [List.filter_cons_of_neg (by simp [relevant_eq_false hline]), samplesFrom, hline]
      exact ih (number + 1) number'
    | sample x y =>
      rw [List.filter_cons_of_pos (relevant_and_holds hline).1, samplesFrom, samplesFrom, hline]
      simp only [htail, ih (number + 1) (number' + 1)]
    | faulty cause =>
      rw [List.filter_cons_of_pos (violates_of_faulty hline).1, samplesFrom, samplesFrom, hline]
      rfl

/-- Every relevant line holds a sample, and there is a relevant line. -/
def Sampled (ls : List (List Char)) : Prop :=
  (∃ line ∈ ls, relevant line = true) ∧
    ∀ line ∈ ls, relevant line = true → ∃ sample, Holds line sample

/-- The number of the first relevant line without a sample, counted from one over all lines; there is no
number if no line is relevant. -/
def FirstFault (ls : List (List Char)) : Option Nat → Prop
  | some number => ∃ before line after, ls = before ++ line :: after ∧ number = before.length + 1 ∧
      (∀ l ∈ before, ¬ Violates l) ∧ Violates line
  | none => ∀ line ∈ ls, relevant line = false

theorem Sampled.not_violates {ls : List (List Char)} (h : Sampled ls) :
    ∀ line ∈ ls, ¬ Violates line := by
  intro line hline hviolates
  obtain ⟨sample, hsample⟩ := h.2 line hline hviolates.1
  exact hviolates.2 sample hsample

theorem FirstFault.eq_of_some {ls : List (List Char)} {m : Nat} {n? : Option Nat}
    (hm : FirstFault ls (some m)) (hn : FirstFault ls n?) : n? = some m := by
  obtain ⟨before, line, after, rfl, rfl, hbefore, hline⟩ := hm
  cases n? with
  | none => exact absurd hline.1 (by simp [hn line (by simp)])
  | some n =>
    obtain ⟨before', line', after', hls, rfl, hbefore', hline'⟩ := hn
    -- of two lines at different places the first would be in front of the second, among those without fault
    rcases List.append_eq_append_iff.mp hls with ⟨more, rfl, hmore⟩ | ⟨more, rfl, hmore⟩
    · cases more with
      | nil => simp
      | cons l more =>
        obtain rfl := (List.cons.inj hmore).1
        exact absurd hline (hbefore' line (by simp))
    · cases more with
      | nil => simp
      | cons l more =>
        obtain rfl := (List.cons.inj hmore).1
        exact absurd hline' (hbefore line' (by simp))

/-- Lines without a dataset have a first fault. -/
theorem exists_firstFault {ls : List (List Char)} (h : ¬ Sampled ls) :
    (∃ number, FirstFault ls (some number)) ∨
      FirstFault ls none ∧ ∀ line ∈ ls, ¬ Violates line := by
  classical
  cases hfind : ls.find? (Violates ·) with
  | some line =>
    obtain ⟨hline, before, after, hls, hbefore⟩ := List.find?_eq_some_iff_append.mp hfind
    exact .inl ⟨_, before, line, after, hls, rfl, by simpa using hbefore, by simpa using hline⟩
  | none =>
    have hnone : ∀ line ∈ ls, ¬ Violates line := by simpa using hfind
    refine .inr ⟨fun line hline => ?_, hnone⟩
    -- a relevant line would make the lines those of a dataset
    by_contra hrelevant
    refine h ⟨⟨line, hline, by simpa using hrelevant⟩, fun l hl hrelevant => ?_⟩
    by_contra hno
    exact hnone l hl ⟨hrelevant, not_exists.mp hno⟩

/-! ## Files -/

namespace Dataset

theorem ofPairs_eq_ok {samples : List (Float × Float)} (h : samples ≠ []) (source : Option String) :
    ∃ d, ofPairs samples source = .ok d ∧ d.source = source ∧ d.pairs = samples := by
  have hlength : (samples.map Prod.fst).length = (samples.map Prod.snd).length := by simp
  have hne : ¬ samples.map Prod.fst = [] := by simpa using h
  rw [ofPairs, ofColumns, dif_pos hlength, dif_neg hne]
  refine ⟨_, rfl, rfl, ?_⟩
  have hzip := List.zip_unzip samples
  rwa [List.unzip_eq_map] at hzip

/-- The file at a path is text, with the lines. -/
def ReadsLines (store : FileStore) (path : String) (ls : List (List Char)) : Prop :=
  ∃ cs, store.read path = .ok (cs.flatMap String.utf8EncodeChar) ∧ HasLines cs ls

variable {store store' : FileStore} {path path' : String} {ls ls' : List (List Char)}

/-- Loading a text file is reading the samples off its lines. -/
theorem load_eq (h : ReadsLines store path ls) :
    load store path =
      match samplesFrom 1 ls with
      | .error (cause, number) => .error (.data ⟨cause, path, some number⟩)
      | .ok samples =>
        match ofPairs samples (some path) with
        | .ok d => .ok d
        | .error _ => .error (.data ⟨.noSamples, path, none⟩) := by
  obtain ⟨cs, hread, hlines⟩ := h
  have hdecode : Utf8.decode (cs.flatMap String.utf8EncodeChar) = .ok cs :=
    Utf8.decode_eq_ok_iff.mpr rfl
  rw [load, hread]
  dsimp only
  rw [hdecode]
  dsimp only
  rw [ofChars, hlines.lines_eq]
  cases samplesFrom 1 ls with
  | error fault => rfl
  | ok samples =>
    dsimp only
    cases ofPairs samples (some path) <;> rfl

/-- The loaded samples are those of the lines, of which there must be some. -/
theorem load_pairs (h : ReadsLines store path ls) :
    (load store path).toOption.map pairs =
      (samplesFrom 1 ls).toOption.filter (!·.isEmpty) := by
  rw [load_eq h]
  cases samplesFrom 1 ls with
  | error fault => rfl
  | ok samples =>
    dsimp only
    by_cases hempty : samples = []
    · subst hempty
      rfl
    · obtain ⟨d, hd, -, hpairs⟩ := ofPairs_eq_ok hempty (some path)
      rw [hd]
      simp [Except.toOption, Option.filter, hpairs, hempty]

/-- The dataset of a text file is what its relevant lines hold, in their order, if there are some and each
holds a sample. Otherwise the error is at the first that does not, or at no line if there is none. Lines that
are not relevant can be put in or left out. -/
theorem load_reads_lines (h : ReadsLines store path ls) :
    (Sampled ls → ∃ d, load store path = .ok d ∧ d.source = some path ∧
        List.Forall₂ Holds (ls.filter relevant) d.pairs) ∧
      (¬ Sampled ls → ∃ cause number?,
        load store path = .error (.data ⟨cause, path, number?⟩) ∧ FirstFault ls number?) ∧
      ∀ store' path' ls', ReadsLines store' path' ls' →
        ls'.filter relevant = ls.filter relevant →
        (load store' path').toOption.map pairs = (load store path).toOption.map pairs := by
  refine ⟨fun hsampled => ?_, fun hnot => ?_, fun store' path' ls' h' hls => ?_⟩
  · obtain ⟨samples, hsamples, hholds⟩ := samplesFrom_eq_ok hsampled.not_violates 1
    have hne : samples ≠ [] := by
      rintro rfl
      obtain ⟨line, hline, hrelevant⟩ := hsampled.1
      have hmem : line ∈ ls.filter relevant := List.mem_filter.mpr ⟨hline, hrelevant⟩
      rw [List.forall₂_nil_right_iff.mp hholds] at hmem
      cases hmem
    obtain ⟨d, hd, hsource, hpairs⟩ := ofPairs_eq_ok hne (some path)
    refine ⟨d, ?_, hsource, hpairs ▸ hholds⟩
    rw [load_eq h, hsamples]
    dsimp only
    rw [hd]
  · rcases exists_firstFault hnot with ⟨number, hfault⟩ | ⟨hfault, hnone⟩
    · obtain ⟨before, line, after, rfl, rfl, hbefore, hline⟩ := id hfault
      obtain ⟨cause, hcause⟩ := @samplesFrom_eq_error before after line hbefore hline 1
      refine ⟨cause, _, ?_, hfault⟩
      rw [load_eq h, hcause, Nat.add_comm]
    · obtain ⟨samples, hsamples, hholds⟩ := samplesFrom_eq_ok hnone 1
      rw [List.filter_eq_nil_iff.mpr (by simpa [FirstFault] using hfault)] at hholds
      cases hholds
      refine ⟨.noSamples, none, ?_, hfault⟩
      rw [load_eq h, hsamples]
      rfl
  · rw [load_pairs h', load_pairs h, samplesFrom_filter ls' 1 1, samplesFrom_filter ls 1 1, hls]

/-- A comment and an empty line count, so a word behind them is an error on line three. -/
theorem load_reads_lines_word :
    let store := FileStore.ofList
      [("d", .file ("#\n\r\na\n".toList.flatMap String.utf8EncodeChar))]
    ReadsLines store "d" [['#'], [], ['a']] ∧ ¬ Sampled [['#'], [], ['a']] ∧
      ∃ cause, load store "d" = .error (.data ⟨cause, "d", some 3⟩) := by
  intro store
  have hreads : ReadsLines store "d" [['#'], [], ['a']] :=
    ⟨"#\n\r\na\n".toList, by rfl, hasLines_iff.mpr (by rfl)⟩
  have hword : Violates ['a'] := .of_fields (by rfl) (by decide)
  have hfault : FirstFault [['#'], [], ['a']] (some 3) := by
    refine ⟨[['#'], []], ['a'], [], rfl, rfl, fun line hline hviolates => ?_, hword⟩
    have hskipped : relevant line = false := by
      simp only [List.mem_cons, List.not_mem_nil, or_false] at hline
      rcases hline with rfl | rfl <;> rfl
    exact absurd hviolates.1 (by simp [hskipped])
  have hnot : ¬ Sampled [['#'], [], ['a']] := fun h => h.not_violates ['a'] (by simp) hword
  obtain ⟨cause, number?, hload, hfirst⟩ := (load_reads_lines hreads).2.1 hnot
  rw [hfault.eq_of_some hfirst] at hload
  exact ⟨hreads, hnot, cause, hload⟩

end Dataset

end FormulaSearch
