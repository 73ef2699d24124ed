import FormulaSearch.Text.Blank
import FormulaSearch.Text.Lines

/-!
# Lines and fields

What it is for a text to have certain lines, and for a line to have certain fields, said of the characters
alone. The functions that cut a text into lines and a line into fields find what is there, and there is
nothing else to be found.
-/

namespace FormulaSearch.Text

/-! ## Fields -/

/-- The characters are all white space. -/
def Blank (cs : List Char) : Prop := ∀ c ∈ cs, isBlank c = true

/-- The fields of a line: longest runs of characters that are not white space. -/
inductive HasFields : List Char → List (List Char) → Prop where
  | none {cs : List Char} (h : Blank cs) : HasFields cs []
  | field {before word rest : List Char} {words : List (List Char)} (hbefore : Blank before)
      (hne : word ≠ []) (hword : ∀ c ∈ word, isBlank c = false)
      (hrest : ∀ c ∈ rest.head?, isBlank c = true) (h : HasFields rest words) :
      HasFields (before ++ (word ++ rest)) (word :: words)

theorem HasFields.word {word rest : List Char} {words : List (List Char)} (hne : word ≠ [])
    (hword : ∀ c ∈ word, isBlank c = false) (hrest : ∀ c ∈ rest.head?, isBlank c = true)
    (h : HasFields rest words) : HasFields (word ++ rest) (word :: words) :=
  .field (List.forall_mem_nil _) hne hword hrest h

theorem Blank.append {cs ds : List Char} (hc : Blank cs) (hd : Blank ds) : Blank (cs ++ ds) := by
  intro c hmem
  rcases List.mem_append.mp hmem with h | h
  · exact hc c h
  · exact hd c h

/-- White space in front of a line and behind it is in no field. -/
theorem HasFields.surround {cs : List Char} {words : List (List Char)} (h : HasFields cs words)
    {before after : List Char} (hbefore : Blank before) (hafter : Blank after) :
    HasFields (before ++ (cs ++ after)) words := by
  induction h generalizing before with
  | none h => exact .none (hbefore.append (h.append hafter))
  | @field blanks word rest words hblanks hne hword hrest h ih =>
    have hnext : ∀ c ∈ (rest ++ after).head?, isBlank c = true := by
      cases rest with
      | nil => exact fun c hc => hafter c (List.mem_of_mem_head? hc)
      | cons d rest => exact hrest
    have := HasFields.field (hbefore.append hblanks) hne hword hnext
      (by simpa using @ih [] (by simp [Blank]))
    simpa using this

theorem fieldsFrom_blank {before : List Char} (h : Blank before) (rest : List Char) :
    fieldsFrom [] (before ++ rest) = fieldsFrom [] rest := by
  induction before with
  | nil => rfl
  | cons c before ih =>
    rw [List.cons_append, fieldsFrom, if_pos (h c List.mem_cons_self)]
    exact ih fun d hd => h d (List.mem_cons_of_mem c hd)

theorem fieldsFrom_word {word : List Char} (h : ∀ c ∈ word, isBlank c = false)
    (done rest : List Char) :
    fieldsFrom done (word ++ rest) = fieldsFrom (word.reverse ++ done) rest := by
  induction word generalizing done with
  | nil => rfl
  | cons c word ih =>
    have hc : ¬ isBlank c = true := by simp [h c List.mem_cons_self]
    rw [List.cons_append, fieldsFrom, if_neg hc, ih fun d hd => h d (List.mem_cons_of_mem c hd)]
    simp

theorem HasFields.fields_eq {cs : List Char} {words : List (List Char)} (h : HasFields cs words) :
    fields cs = words := by
  induction h with
  | none h =>
    have := fieldsFrom_blank h []
    rw [List.append_nil] at this
    exact this
  | @field before word rest words hbefore hne hword hrest h ih =>
    have hempty : word.reverse.isEmpty = false := by simpa using hne
    rw [fields, fieldsFrom_blank hbefore, fieldsFrom_word hword, List.append_nil]
    rw [fields] at ih
    cases rest with
    | nil =>
      rw [fieldsFrom, hempty, ← ih, List.reverse_reverse]
      rfl
    | cons c rest =>
      have hc : isBlank c = true := hrest c (by simp)
      rw [fieldsFrom, if_pos hc, hempty, List.reverse_reverse, ← ih, fieldsFrom, if_pos hc]
      rfl

/-- Whatever is read, in front of the rest stands a field that is begun. -/
theorem hasFields_fieldsFrom {word : List Char} (hword : ∀ c ∈ word, isBlank c = false)
    (cs : List Char) : HasFields (word.reverse ++ cs) (fieldsFrom word cs) := by
  have hreverse : ∀ c ∈ word.reverse, isBlank c = false := by simpa using hword
  induction cs generalizing word with
  | nil =>
    by_cases hempty : word = []
    · subst hempty
      exact .none (List.forall_mem_nil _)
    · rw [fieldsFrom, if_neg (by simpa using hempty)]
      exact .word (by simpa using hempty) hreverse (by simp) (.none (List.forall_mem_nil _))
  | cons c cs ih =>
    rw [fieldsFrom]
    by_cases hc : isBlank c = true
    · have hrest : HasFields (c :: cs) (fieldsFrom [] cs) := by
        have := (ih (List.forall_mem_nil _) (List.forall_mem_nil _)).surround
          (List.forall_mem_singleton.mpr hc) (List.forall_mem_nil _)
        simpa using this
      rw [if_pos hc]
      by_cases hempty : word = []
      · subst hempty
        exact hrest
      · rw [if_neg (by simpa using hempty)]
        exact .word (by simpa using hempty) hreverse (by simpa using hc) hrest
    · have hnext : ∀ d ∈ c :: word, isBlank d = false :=
        List.forall_mem_cons.mpr ⟨by simpa using hc, hword⟩
      rw [if_neg hc]
      simpa using ih hnext fun d hd => hnext d (List.mem_reverse.mp hd)

/-- A line has the fields that are found, and no others. -/
theorem hasFields_iff {cs : List Char} {words : List (List Char)} :
    HasFields cs words ↔ fields cs = words := by
  constructor
  · exact HasFields.fields_eq
  · rintro rfl
    exact hasFields_fieldsFrom (List.forall_mem_nil _) cs

/-! ## Lines without white space at their ends -/

/-- Only white space is taken off a line, and what is left does not begin with white space. -/
theorem exists_trim (cs : List Char) :
    ∃ before after, cs = before ++ (trim cs ++ after) ∧ Blank before ∧ Blank after ∧
      ∀ c ∈ (trim cs).head?, isBlank c = false := by
  have hsplit : trim cs ++ ((cs.dropWhile isBlank).reverse.takeWhile isBlank).reverse =
      cs.dropWhile isBlank := by
    rw [trim, trimBy, ← List.reverse_append, List.takeWhile_append_dropWhile, List.reverse_reverse]
  refine ⟨cs.takeWhile isBlank, ((cs.dropWhile isBlank).reverse.takeWhile isBlank).reverse, ?_,
    List.all_eq_true.mp List.all_takeWhile, fun c hc => ?_, fun c hc => ?_⟩
  · rw [hsplit, List.takeWhile_append_dropWhile]
  · exact List.all_eq_true.mp List.all_takeWhile c (List.mem_reverse.mp hc)
  · have hhead := List.head?_dropWhile_not isBlank cs
    rw [← hsplit, List.head?_append, Option.mem_def.mp hc] at hhead
    simpa using hhead

theorem fields_trim (cs : List Char) : fields (trim cs) = fields cs := by
  obtain ⟨before, after, hcs, hbefore, hafter, -⟩ := exists_trim cs
  have htrim : HasFields (trim cs) (fields (trim cs)) := hasFields_iff.mpr rfl
  have := htrim.surround hbefore hafter
  rw [← hcs] at this
  exact this.fields_eq.symm

/-- What is left begins with the first character that is not white space. -/
theorem head?_trim (cs : List Char) : (trim cs).head? = cs.find? (!isBlank ·) := by
  obtain ⟨before, after, hcs, hbefore, hafter, hhead⟩ := exists_trim cs
  have hnone {blanks : List Char} (h : Blank blanks) : blanks.find? (!isBlank ·) = none := by
    rw [List.find?_eq_none]
    intro c hc
    simp [h c hc]
  have hfind : cs.find? (!isBlank ·) = (trim cs).find? (!isBlank ·) := by
    rw [hcs, List.find?_append, hnone hbefore, Option.none_or, List.find?_append, hnone hafter,
      Option.or_none, ← hcs]
  rw [hfind]
  cases htrim : trim cs with
  | nil => rfl
  | cons c rest =>
    rw [htrim] at hhead
    simp [hhead c (by simp)]

/-! ## Lines -/

/-- The character ends a line. -/
def EndsLine (c : Char) : Prop := c = '\n' ∨ c = '\r'

/-- The end of a line in front of the rest of a text; a line feed behind a carriage return belongs to it. -/
def IsLineEnd (ending rest : List Char) : Prop :=
  ending = ['\n'] ∨ ending = ['\r', '\n'] ∨ ending = ['\r'] ∧ rest.head? ≠ some '\n'

/-- The lines of a text without their ends. A last line that is not ended has at least one character. -/
inductive HasLines : List Char → List (List Char) → Prop where
  | none : HasLines [] []
  | last {line : List Char} (hline : ∀ c ∈ line, ¬ EndsLine c) (hne : line ≠ []) :
      HasLines line [line]
  | line {line ending rest : List Char} {ls : List (List Char)} (hline : ∀ c ∈ line, ¬ EndsLine c)
      (hending : IsLineEnd ending rest) (h : HasLines rest ls) :
      HasLines (line ++ (ending ++ rest)) (line :: ls)

theorem linesFrom_line {line : List Char} (h : ∀ c ∈ line, ¬ EndsLine c) (done rest : List Char) :
    linesFrom done (line ++ rest) = linesFrom (line.reverse ++ done) rest := by
  induction line generalizing done with
  | nil => rfl
  | cons c line ih =>
    have hc : ¬ (c = '\n' ∨ c = '\r') := h c List.mem_cons_self
    have hstep (rest : List Char) : linesFrom done (c :: rest) = linesFrom (c :: done) rest := by
      rw [linesFrom, if_neg (by simpa using hc)]
      rintro more rfl
      simp at hc
    rw [List.cons_append, hstep, ih fun d hd => h d (List.mem_cons_of_mem c hd)]
    simp

theorem linesFrom_ending {ending rest : List Char} (h : IsLineEnd ending rest) (done : List Char) :
    linesFrom done (ending ++ rest) = done.reverse :: linesFrom [] rest := by
  rcases h with rfl | rfl | ⟨rfl, hrest⟩
  · simp [linesFrom]
  · simp [linesFrom]
  · rw [List.singleton_append, linesFrom]
    · simp
    · rintro more - rfl
      simp at hrest

theorem HasLines.lines_eq {cs : List Char} {ls : List (List Char)} (h : HasLines cs ls) :
    lines cs = ls := by
  induction h with
  | none => rfl
  | @last line hline hne =>
    have := linesFrom_line hline [] []
    rw [List.append_nil, List.append_nil] at this
    rw [lines, this, linesFrom, if_neg (by simpa using hne), List.reverse_reverse]
  | @line line ending rest ls hline hending h ih =>
    rw [lines, linesFrom_line hline, linesFrom_ending hending, List.append_nil,
      List.reverse_reverse, ← ih]
    rfl

/-- Whatever is read, in front of the rest stands a line that is begun. -/
theorem hasLines_linesFrom {line : List Char} (hline : ∀ c ∈ line, ¬ EndsLine c) (cs : List Char) :
    HasLines (line.reverse ++ cs) (linesFrom line cs) := by
  have hreverse {line : List Char} (h : ∀ c ∈ line, ¬ EndsLine c) :
      ∀ c ∈ line.reverse, ¬ EndsLine c :=
    fun c hc => h c (List.mem_reverse.mp hc)
  fun_induction linesFrom line cs with
  | case1 line hempty =>
    obtain rfl : line = [] := by simpa using hempty
    exact .none
  | case2 line hempty =>
    rw [List.append_nil]
    exact .last (hreverse hline) (by simpa using hempty)
  | case3 line rest ih =>
    have hending : IsLineEnd ['\r', '\n'] rest := .inr (.inl rfl)
    exact .line (hreverse hline) hending (ih (List.forall_mem_nil _))
  | case4 line c rest hfeed hc ih =>
    have hending : IsLineEnd [c] rest := by
      rcases (by simpa using hc : c = '\n' ∨ c = '\r') with rfl | rfl
      · exact .inl rfl
      · refine .inr (.inr ⟨rfl, fun hhead => ?_⟩)
        obtain ⟨more, rfl⟩ := List.head?_eq_some_iff.mp hhead
        exact hfeed more rfl rfl
    exact .line (hreverse hline) hending (ih (List.forall_mem_nil _))
  | case5 line c rest _ hc ih =>
    have hnext : ∀ d ∈ c :: line, ¬ EndsLine d :=
      List.forall_mem_cons.mpr ⟨by simpa [EndsLine] using hc, hline⟩
    simpa using ih hnext

/-- A text has the lines that are found, and no others. -/
theorem hasLines_iff {cs : List Char} {ls : List (List Char)} : HasLines cs ls ↔ lines cs = ls := by
  constructor
  · exact HasLines.lines_eq
  · rintro rfl
    exact hasLines_linesFrom (List.forall_mem_nil _) cs

end FormulaSearch.Text
