import FormulaSearch.Proofs.Params.Memory

/-!
# Operations on lists of parameters in memory

Each operation on a list in memory gives the answer that the one on parameters as values gives, and leaves
the list with the parameters that come of that. One that is refused leaves the whole memory as it was; only
a new list that could not be completed stays behind, where nobody has a reference to it.
-/

namespace FormulaSearch

namespace ParamsMemory

variable {m : ParamsMemory} {r : Nat} {p : Params}

/-! ## Reading -/

theorem mem_entries {a : Nat} (ha : a ∈ (m.list r).items) : m.cell a ∈ m.entries r :=
  List.mem_map_of_mem ha

theorem Holds.get_eq (h : m.Holds r p) (hm : m.Sound) (n : String) :
    m.get r n = (p.get? n).elim (.error (.unknown n)) .ok := by
  rw [get]
  split
  · rename_i a ha
    obtain ⟨hmem, rfl⟩ := (h.address?_eq_some_iff hm).mp ha
    have hentry : m.cell a ∈ p.entries := h.entries_eq ▸ mem_entries hmem
    have hvalue : p.get? (m.cell a).1 = some (m.cell a).2 := lookup_of_mem p.distinct hentry
    rw [hvalue]
    rfl
  · rename_i hnone
    have hnew : n ∉ p.names := (h.address?_eq_none_iff hm).mp hnone
    rw [Params.get?, lookup_eq_none hnew]
    rfl

/-- Names and values that are written one after the other, each name once. -/
theorem foldl_writeKey {d entries : List (String × Float)}
    (h : ((d ++ entries).map Prod.fst).Nodup) :
    entries.foldl (fun d (n, v) => writeKey d n v) d = d ++ entries := by
  induction entries generalizing d with
  | nil => rw [List.foldl_nil, List.append_nil]
  | cons entry entries ih =>
    have hnew : d.lookup entry.1 = none := by
      rw [List.map_append, List.nodup_append] at h
      exact lookup_eq_none fun hmem => h.2.2 _ hmem entry.1 (by simp) rfl
    rw [List.foldl_cons]
    dsimp only
    rw [writeKey_new hnew, ih (by simpa using h), List.append_assoc, List.singleton_append]

theorem Holds.dictionary_eq (h : m.Holds r p) : m.dictionary r = p.entries := by
  rw [dictionary, h.entries_eq]
  exact foldl_writeKey p.distinct

/-! ## What an operation does -/

/-- The operation on a list gives the same answer as the one on parameters, leaves the list with the
parameters that come of that, and does nothing to another list. -/
structure Mirrors (m : ParamsMemory) (r : Nat) (result : Except ParamsError Params)
    (outcome : Except ParamsError Unit × ParamsMemory) : Prop where
  answer : outcome.1 = result.map fun _ => ()
  changed : Changed r m outcome.2
  holds : ∀ p, result = .ok p → outcome.2.Holds r p

theorem Mirrors.refused (hm : m.Sound) (r : Nat) (e : ParamsError) :
    Mirrors m r (.error e) (.error e, m) :=
  ⟨rfl, .refl hm r, fun _ h => by cases h⟩

theorem Mirrors.done {m' : ParamsMemory} (hchanged : Changed r m m') (h : m.Holds r p) {p' : Params}
    (hentries : m'.entries r = p'.entries) : Mirrors m r (.ok p') (.ok (), m') :=
  ⟨rfl, hchanged, fun _ heq => by
    cases heq
    exact ⟨h.listed.trans_le hchanged.length_le, hentries⟩⟩

/-! ## New parameters -/

theorem mirrors_add (hm : m.Sound) (h : m.Holds r p) (name : String) (value : Float) :
    Mirrors m r (p.add name value) (m.add r name value) := by
  rw [add, Params.add, h.contains_eq hm]
  by_cases hnew : p.contains name = true
  · rw [if_pos hnew, if_pos hnew]
    exact .refused hm r _
  · rw [if_neg hnew, if_neg hnew]
    have hfree : m.contains r name = false := by
      rw [h.contains_eq hm]
      exact Bool.eq_false_iff.mpr hnew
    refine .done (changed_append hm h.listed hfree value) h ?_
    rw [entries_append hm h.listed, if_pos rfl, h.entries_eq, Params.entries_insert]
    simpa [Params.contains] using hnew

theorem mirrors_addAll (entries : List (String × Float)) (hm : m.Sound) (h : m.Holds r p) :
    Mirrors m r (entries.foldlM (fun p (n, v) => p.add n v) p) (addAll r entries m) := by
  induction entries generalizing m p with
  | nil => exact .done (.refl hm r) h h.entries_eq
  | cons entry entries ih =>
    have hadd := mirrors_add hm h entry.1 entry.2
    rw [List.foldlM_cons, addAll]
    dsimp only
    generalize m.add r entry.1 entry.2 = outcome at hadd
    obtain ⟨answer, m'⟩ := outcome
    cases hresult : p.add entry.1 entry.2 with
    | error e =>
      rw [hresult] at hadd
      obtain rfl : answer = .error e := hadd.answer
      exact ⟨rfl, hadd.changed, fun _ heq => by cases heq⟩
    | ok p' =>
      rw [hresult] at hadd
      obtain rfl : answer = .ok () := hadd.answer
      have hrest := ih hadd.changed.sound (hadd.holds p' rfl)
      exact ⟨hrest.answer, hadd.changed.trans hrest.changed, hrest.holds⟩

/-- A new list has its own reference and is complete, or is left behind. -/
theorem create_spec (hm : m.Sound) (entries : List (String × Float)) :
    (m.create entries).1 = (Params.ofList entries).map (fun _ => m.lists.length) ∧
      Changed m.lists.length m (m.create entries).2 ∧
      ∀ p, Params.ofList entries = .ok p → (m.create entries).2.Holds m.lists.length p := by
  have hempty := changed_allocate hm
  have hall := mirrors_addAll entries hempty.sound (holds_allocate m)
  rw [← Params.ofList] at hall
  rw [create]
  generalize addAll m.lists.length entries m.allocate = outcome at hall
  obtain ⟨answer, m'⟩ := outcome
  cases hresult : Params.ofList entries with
  | error e =>
    rw [hresult] at hall
    obtain rfl : answer = .error e := hall.answer
    exact ⟨rfl, hempty.trans hall.changed, fun _ heq => by cases heq⟩
  | ok p =>
    rw [hresult] at hall
    obtain rfl : answer = .ok () := hall.answer
    exact ⟨rfl, hempty.trans hall.changed, hall.holds⟩

/-- A copy succeeds and has the same parameters. -/
theorem copy_spec (hm : m.Sound) (h : m.Holds r p) :
    (m.copy r).1 = .ok m.lists.length ∧ Changed m.lists.length m (m.copy r).2 ∧
      (m.copy r).2.Holds m.lists.length p := by
  have hcreate := create_spec hm p.entries
  rw [copy, h.entries_eq]
  rw [Params.ofList_entries] at hcreate
  exact ⟨hcreate.1, hcreate.2.1, hcreate.2.2 p rfl⟩

/-! ## New values -/

theorem Within.all {changes : List (Nat × (Float → Float))} (hm : m.Sound)
    (h : changes.map Prod.fst = (m.list r).items) : m.Within r changes :=
  ⟨h ▸ hm.nodup r, h ▸ fun _ ha => ha⟩

theorem mirrors_assign (hm : m.Sound) (h : m.Holds r p) (name : String) (value : Float) :
    Mirrors m r (p.set name value) (m.assign r name value) := by
  rw [assign, Params.set]
  cases ha : m.address? r name with
  | some a =>
    obtain ⟨hmem, hname⟩ := (h.address?_eq_some_iff hm).mp ha
    have hthere : p.contains name = true := by
      rw [Params.contains, List.contains_iff_mem, ← h.names_eq, ← hname, ParamsMemory.names_eq]
      exact List.mem_map_of_mem hmem
    have hwithin : m.Within r [(a, fun _ => value)] := ⟨List.nodup_singleton a, by simpa using hmem⟩
    rw [if_pos hthere]
    refine .done (changed_change hm hwithin) h ?_
    rw [entries_change hm hwithin, Params.entries_mapValues, ← h.entries_eq, entries, List.map_map]
    refine List.map_congr_left fun b hb => ?_
    -- the one cell that is changed is the one with the name
    have hcell : b = a ↔ (m.cell b).1 = name := by
      constructor
      · rintro rfl
        exact hname
      · intro heq
        have := (h.address?_eq_some_iff hm).mpr ⟨hb, heq⟩
        exact Option.some.inj (this.symm.trans ha)
    rw [changedCell, lookup_cons_ite, List.lookup_nil, Function.comp_apply]
    by_cases heq : b = a
    · rw [if_pos heq]
      exact Prod.ext rfl (if_pos (hcell.mp heq)).symm
    · rw [if_neg heq]
      exact Prod.ext rfl (if_neg (mt hcell.mpr heq)).symm
  | none =>
    have hnew : name ∉ p.names := (h.address?_eq_none_iff hm).mp ha
    rw [if_neg (by simpa [Params.contains] using hnew)]
    exact .refused hm r _

theorem mirrors_overwrite (hm : m.Sound) (h : m.Holds r p) (values : List Float) :
    Mirrors m r (p.setValues values) (m.overwrite r values) := by
  rw [overwrite, Params.setValues, h.size_eq]
  by_cases hcount : values.length = p.size
  · rw [if_pos hcount, if_pos hcount]
    have hlength : (m.list r).items.length = values.length := by
      rw [hcount]
      exact h.size_eq
    generalize hchanges : (m.list r).items.zip (values.map fun v (_ : Float) => v) = changes
    have hfst : changes.map Prod.fst = (m.list r).items := by
      rw [← hchanges, List.map_fst_zip (by simp [hlength])]
    have hwithin : m.Within r changes := .all hm hfst
    refine .done (changed_change hm hwithin) h ?_
    have hnames : (m.change changes).names r = (p.withValues values).names := by
      rw [names_change hm hwithin, h.names_eq, Params.names_withValues]
    have hvalues : (m.change changes).values r = (p.withValues values).values := by
      rw [Params.values_withValues hcount, ParamsMemory.values, entries_change hm hwithin, List.map_map]
      refine List.ext_getElem (by simp [hlength]) fun i hi hi' => ?_
      have hi : i < (m.list r).items.length := hlength ▸ hi'
      have hmem : ((m.list r).items[i], fun _ => values[i]) ∈ changes := by
        rw [← hchanges, List.mem_iff_getElem]
        exact ⟨i, by simpa [hlength] using hi', by simp⟩
      rw [List.getElem_map, Function.comp_apply, changedCell_of_mem hwithin.distinct hmem]
    exact (List.zip_of_prod hnames hvalues).trans (List.zip_of_prod rfl rfl).symm
  · rw [if_neg hcount, if_neg hcount]
    exact .refused hm r _

theorem mirrors_clamp (hm : m.Sound) (h : m.Holds r p) (lower upper : Float) :
    Mirrors m r (.ok (p.clamp lower upper)) (.ok (), m.clamp r lower upper) := by
  have hfst : ((m.list r).items.map fun a => (a, clampTo lower upper)).map Prod.fst =
      (m.list r).items := by
    rw [List.map_map]
    exact List.map_id _
  have hwithin : m.Within r ((m.list r).items.map fun a => (a, clampTo lower upper)) :=
    .all hm hfst
  refine .done (changed_change hm hwithin) h ?_
  rw [entries_change hm hwithin, Params.clamp, Params.entries_mapValues, ← h.entries_eq, entries,
    List.map_map]
  exact List.map_congr_left fun a ha =>
    changedCell_of_mem hwithin.distinct (List.mem_map.mpr ⟨a, ha, rfl⟩)

end ParamsMemory

end FormulaSearch
