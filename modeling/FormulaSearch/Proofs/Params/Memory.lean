import Mathlib.Data.List.Nodup
import FormulaSearch.Params.Shared
import FormulaSearch.Proofs.Candidate

/-!
# Lists of parameters in memory

In a sound memory no cell is in two lists, and every index is the one that the names of its list call for. A
write to a list keeps this, does to the list what the operation does to parameters as values, and leaves
every other list exactly as it was.
-/

namespace FormulaSearch

/-! ## Dictionaries -/

theorem writeKey_new {β : Type} {d : List (String × β)} {key : String} (h : d.lookup key = none)
    (value : β) : writeKey d key value = d ++ [(key, value)] := by
  rw [writeKey, h]
  rfl

/-- A position among the names with one more at the end. -/
theorem idxOf?_append_singleton {names : List String} {name : String} (n : String) :
    (names ++ [name]).idxOf? n =
      (names.idxOf? n).or (if n = name then some names.length else none) := by
  rw [List.idxOf?, List.findIdx?_append, ← List.idxOf?]
  by_cases h : n = name
  · simp [h]
  · simp [h, Ne.symm h]

namespace ParamsMemory

variable {m m' : ParamsMemory} {r : Nat}

/-! ## Sound memories -/

/-- No cell is in two places, and the index of a list leads from each name to its position and knows no
other names. -/
structure Sound (m : ParamsMemory) : Prop where
  allocated : ∀ r, ∀ a ∈ (m.list r).items, a < m.cells.length
  nodup : ∀ r, (m.list r).items.Nodup
  apart : ∀ r r', r ≠ r' → ∀ a ∈ (m.list r).items, a ∉ (m.list r').items
  indexed : ∀ r n, m.position? r n = (m.names r).idxOf? n

/-- The list is in memory and has these parameters. -/
structure Holds (m : ParamsMemory) (r : Nat) (p : Params) : Prop where
  listed : r < m.lists.length
  entries_eq : m.entries r = p.entries

/-- A list is exactly as it was: it has the same cells and the same index, and its cells have the same names
and values. -/
structure Keeps (m m' : ParamsMemory) (r : Nat) : Prop where
  list_eq : m'.list r = m.list r
  entries_eq : m'.entries r = m.entries r

theorem Keeps.refl (m : ParamsMemory) (r : Nat) : m.Keeps m r := ⟨rfl, rfl⟩

/-- The second memory is sound, and every list of the first one but `r` is in it exactly as it was. -/
structure Changed (r : Nat) (m m' : ParamsMemory) : Prop where
  sound : m'.Sound
  length_le : m.lists.length ≤ m'.lists.length
  keeps : ∀ r' < m.lists.length, r' ≠ r → m.Keeps m' r'

theorem Changed.refl (h : m.Sound) (r : Nat) : Changed r m m :=
  ⟨h, Nat.le_refl _, fun r' _ _ => .refl m r'⟩

theorem Changed.trans {m'' : ParamsMemory} (h : Changed r m m') (h' : Changed r m' m'') :
    Changed r m m'' where
  sound := h'.sound
  length_le := h.length_le.trans h'.length_le
  keeps r' hr hne :=
    have first := h.keeps r' hr hne
    have second := h'.keeps r' (hr.trans_le h.length_le) hne
    ⟨second.list_eq.trans first.list_eq, second.entries_eq.trans first.entries_eq⟩

theorem Changed.holds {r' : Nat} {p : Params} (h : Changed r m m') (hne : r' ≠ r)
    (hp : m.Holds r' p) : m'.Holds r' p :=
  ⟨hp.listed.trans_le h.length_le, (h.keeps r' hp.listed hne).entries_eq.trans hp.entries_eq⟩

theorem names_eq (m : ParamsMemory) (r : Nat) :
    m.names r = (m.list r).items.map fun a => (m.cell a).1 := by
  rw [names, entries, List.map_map]
  rfl

theorem Holds.names_eq {p : Params} (h : m.Holds r p) : m.names r = p.names :=
  congrArg (List.map Prod.fst) h.entries_eq

/-- The index of a list that holds parameters knows their positions. -/
theorem Holds.position?_eq {p : Params} (h : m.Holds r p) (hm : m.Sound) (n : String) :
    m.position? r n = p.position? n := by
  rw [hm.indexed, h.names_eq]
  rfl

theorem Holds.contains_eq {p : Params} (h : m.Holds r p) (hm : m.Sound) (n : String) :
    m.contains r n = p.contains n := by
  rw [contains, h.position?_eq hm, Params.position?, Params.contains, Bool.eq_iff_iff,
    List.isSome_idxOf?, List.contains_iff_mem]

theorem Holds.size_eq {p : Params} (h : m.Holds r p) : m.size r = p.size := by
  rw [Params.size, ← h.entries_eq, entries, List.length_map]
  rfl

/-! ## A new list -/

theorem sound_empty : Sound ⟨[], []⟩ where
  allocated _ _ ha := nomatch ha
  nodup _ := List.nodup_nil
  apart _ _ _ _ ha := nomatch ha
  indexed _ _ := rfl

theorem list_allocate (m : ParamsMemory) (r : Nat) : m.allocate.list r = m.list r := by
  rw [list, allocate, list, List.getD_eq_getElem?_getD, List.getD_eq_getElem?_getD,
    List.getElem?_append]
  split
  · rfl
  · rename_i h
    rw [List.getElem?_eq_none (Nat.le_of_not_lt h), List.getElem?_singleton]
    split <;> rfl

theorem entries_allocate (m : ParamsMemory) (r : Nat) : m.allocate.entries r = m.entries r := by
  rw [entries, list_allocate]
  rfl

theorem changed_allocate (h : m.Sound) : Changed m.lists.length m m.allocate where
  sound :=
    { allocated := fun r => by
        rw [list_allocate]
        exact h.allocated r
      nodup := fun r => by
        rw [list_allocate]
        exact h.nodup r
      apart := fun r r' => by
        rw [list_allocate, list_allocate]
        exact h.apart r r'
      indexed := fun r n => by
        rw [position?, list_allocate, names, entries_allocate]
        exact h.indexed r n }
  length_le := by simp [allocate]
  keeps r _ _ := ⟨list_allocate m r, entries_allocate m r⟩

theorem holds_allocate (m : ParamsMemory) : m.allocate.Holds m.lists.length .empty where
  listed := by simp [allocate]
  entries_eq := by
    rw [entries_allocate, entries, list, List.getD_eq_getElem?_getD,
      List.getElem?_eq_none (Nat.le_refl _)]
    rfl

/-! ## A new cell -/

theorem list_append (hr : r < m.lists.length) (name : String) (value : Float) (r' : Nat) :
    (m.append r name value).list r' =
      if r' = r then
        ⟨(m.list r).items ++ [m.cells.length],
          writeKey (m.list r).index name (m.list r).items.length⟩
      else m.list r' := by
  rw [list, append, List.getD_eq_getElem?_getD, List.getElem?_set]
  by_cases h : r' = r
  · rw [if_pos h.symm, if_pos hr, if_pos h]
    rfl
  · rw [if_neg (Ne.symm h), if_neg h]
    rfl

theorem cell_append (m : ParamsMemory) (r : Nat) (name : String) (value : Float) (a : Nat) :
    (m.append r name value).cell a = if a = m.cells.length then (name, value) else m.cell a := by
  rw [cell, append, List.getD_eq_getElem?_getD, List.getElem?_append, cell,
    List.getD_eq_getElem?_getD]
  by_cases h : a < m.cells.length
  · rw [if_pos h, if_neg h.ne]
  · rw [if_neg h, List.getElem?_singleton, List.getElem?_eq_none (Nat.le_of_not_lt h)]
    by_cases heq : a = m.cells.length
    · rw [if_pos (by omega), if_pos heq]
      rfl
    · rw [if_neg (by omega), if_neg heq]

/-- Cells that were there before keep what they have. -/
theorem map_cell_append (hm : m.Sound) (r : Nat) (name : String) (value : Float) (r' : Nat) :
    (m.list r').items.map (m.append r name value).cell = m.entries r' := by
  refine List.map_congr_left fun a ha => ?_
  rw [cell_append, if_neg (hm.allocated r' a ha).ne]

theorem entries_append (hm : m.Sound) (hr : r < m.lists.length) (name : String) (value : Float)
    (r' : Nat) :
    (m.append r name value).entries r' =
      if r' = r then m.entries r ++ [(name, value)] else m.entries r' := by
  rw [entries, list_append hr]
  by_cases h : r' = r
  · rw [if_pos h, if_pos h, List.map_append, map_cell_append hm, List.map_singleton, cell_append,
      if_pos rfl]
  · rw [if_neg h, if_neg h, map_cell_append hm]

theorem sound_append (hm : m.Sound) (hr : r < m.lists.length) {name : String}
    (hnew : m.contains r name = false) (value : Float) : (m.append r name value).Sound where
  allocated r' a ha := by
    have hlength : (m.append r name value).cells.length = m.cells.length + 1 := by simp [append]
    rw [hlength]
    rw [list_append hr] at ha
    split at ha
    · rcases List.mem_append.mp ha with ha | ha
      · exact Nat.lt_succ_of_lt (hm.allocated r a ha)
      · rw [List.mem_singleton.mp ha]
        exact Nat.lt_succ_self _
    · exact Nat.lt_succ_of_lt (hm.allocated r' a ha)
  nodup r' := by
    rw [list_append hr]
    split
    · refine List.nodup_append.mpr ⟨hm.nodup r, List.nodup_singleton _, fun a ha b hb => ?_⟩
      rw [List.mem_singleton.mp hb]
      exact (hm.allocated r a ha).ne
    · exact hm.nodup r'
  apart r₁ r₂ hne a h₁ h₂ := by
    rw [list_append hr] at h₁ h₂
    -- the new cell is in no list of the old memory
    split at h₁ <;> split at h₂
    · omega
    · subst r₁
      rcases List.mem_append.mp h₁ with h₁ | h₁
      · exact hm.apart r r₂ hne a h₁ h₂
      · rw [List.mem_singleton.mp h₁] at h₂
        exact (hm.allocated r₂ _ h₂).false
    · subst r₂
      rcases List.mem_append.mp h₂ with h₂ | h₂
      · exact hm.apart r₁ r hne a h₁ h₂
      · rw [List.mem_singleton.mp h₂] at h₁
        exact (hm.allocated r₁ _ h₁).false
    · exact hm.apart r₁ r₂ hne a h₁ h₂
  indexed r' n := by
    rw [position?, names, list_append hr, entries_append hm hr]
    split
    · have hnone : (m.list r).index.lookup name = none := by
        rw [contains, Option.isSome_eq_false_iff, Option.isNone_iff_eq_none] at hnew
        exact hnew
      rw [writeKey_new hnone, List.lookup_append, List.map_append, List.map_singleton,
        idxOf?_append_singleton, List.length_map, entries, List.length_map]
      have hindexed : (m.list r).index.lookup n = (m.names r).idxOf? n := hm.indexed r n
      rw [hindexed, names, entries, lookup_cons_ite, List.lookup_nil]
    · exact hm.indexed r' n

theorem changed_append (hm : m.Sound) (hr : r < m.lists.length) {name : String}
    (hnew : m.contains r name = false) (value : Float) : Changed r m (m.append r name value) where
  sound := sound_append hm hr hnew value
  length_le := by simp [append]
  keeps r' _ hne :=
    ⟨by rw [list_append hr, if_neg hne], by rw [entries_append hm hr, if_neg hne]⟩

/-! ## New values -/

theorem cell_write {a : Nat} (ha : a < m.cells.length) (value : Float) (b : Nat) :
    (m.write a value).cell b = if b = a then ((m.cell a).1, value) else m.cell b := by
  rw [cell, write, List.getD_eq_getElem?_getD, List.getElem?_set]
  by_cases h : b = a
  · rw [if_pos h.symm, if_pos ha, if_pos h]
    rfl
  · rw [if_neg (Ne.symm h), if_neg h]
    rfl

/-- What a cell has after some changes. -/
def changedCell (m : ParamsMemory) (changes : List (Nat × (Float → Float))) (a : Nat) :
    String × Float :=
  match changes.lookup a with
  | some f => ((m.cell a).1, f (m.cell a).2)
  | none => m.cell a

theorem changedCell_fst (m : ParamsMemory) (changes : List (Nat × (Float → Float))) (a : Nat) :
    (m.changedCell changes a).1 = (m.cell a).1 := by
  rw [changedCell]
  split <;> rfl

theorem changedCell_of_mem {changes : List (Nat × (Float → Float))}
    (hdistinct : (changes.map Prod.fst).Nodup) {a : Nat} {f : Float → Float} (h : (a, f) ∈ changes) :
    m.changedCell changes a = ((m.cell a).1, f (m.cell a).2) := by
  rw [changedCell, lookup_of_mem hdistinct h]

theorem changedCell_of_not_mem {changes : List (Nat × (Float → Float))} {a : Nat}
    (h : a ∉ changes.map Prod.fst) : m.changedCell changes a = m.cell a := by
  rw [changedCell, lookup_eq_none h]

/-- Changes of different cells do not get in each other's way. -/
theorem cell_change {changes : List (Nat × (Float → Float))}
    (hdistinct : (changes.map Prod.fst).Nodup)
    (hallocated : ∀ a ∈ changes.map Prod.fst, a < m.cells.length) (b : Nat) :
    (m.change changes).cell b = m.changedCell changes b := by
  induction changes generalizing m with
  | nil => rfl
  | cons first changes ih =>
    obtain ⟨a, f⟩ := first
    rw [List.map_cons, List.nodup_cons] at hdistinct
    rw [List.map_cons, List.forall_mem_cons] at hallocated
    have hrest : ∀ a' ∈ changes.map Prod.fst,
        a' < (m.write a (f (m.cell a).2)).cells.length := by
      simpa [write] using hallocated.2
    have hstep : m.change ((a, f) :: changes) = (m.write a (f (m.cell a).2)).change changes := rfl
    rw [hstep, ih hdistinct.2 hrest]
    by_cases h : b = a
    · subst h
      rw [changedCell_of_not_mem hdistinct.1, cell_write hallocated.1, if_pos rfl, changedCell,
        lookup_cons_ite, if_pos rfl]
    · rw [changedCell, cell_write hallocated.1, if_neg h, changedCell, lookup_cons_ite, if_neg h]

theorem lists_change (m : ParamsMemory) (changes : List (Nat × (Float → Float))) :
    (m.change changes).lists = m.lists := by
  induction changes generalizing m with
  | nil => rfl
  | cons first changes ih => exact ih _

theorem length_cells_change (m : ParamsMemory) (changes : List (Nat × (Float → Float))) :
    (m.change changes).cells.length = m.cells.length := by
  induction changes generalizing m with
  | nil => rfl
  | cons first changes ih => exact (ih _).trans (List.length_set ..)

theorem list_change (m : ParamsMemory) (changes : List (Nat × (Float → Float))) (r : Nat) :
    (m.change changes).list r = m.list r := by
  rw [list, lists_change]
  rfl

/-- The changes are of different cells of one list. -/
structure Within (m : ParamsMemory) (r : Nat) (changes : List (Nat × (Float → Float))) : Prop where
  distinct : (changes.map Prod.fst).Nodup
  own : ∀ a ∈ changes.map Prod.fst, a ∈ (m.list r).items

section Change

variable {changes : List (Nat × (Float → Float))} (hm : m.Sound) (hwithin : m.Within r changes)
include hm hwithin

theorem entries_change (r' : Nat) :
    (m.change changes).entries r' = (m.list r').items.map (m.changedCell changes) := by
  rw [entries, list_change]
  exact List.map_congr_left fun a _ =>
    cell_change hwithin.distinct (fun b hb => hm.allocated r b (hwithin.own b hb)) a

theorem entries_change_of_ne {r' : Nat} (hne : r' ≠ r) :
    (m.change changes).entries r' = m.entries r' := by
  rw [entries_change hm hwithin]
  exact List.map_congr_left fun a ha =>
    changedCell_of_not_mem fun hmem => hm.apart r' r hne a ha (hwithin.own a hmem)

theorem names_change (r' : Nat) : (m.change changes).names r' = m.names r' := by
  rw [names, entries_change hm hwithin, names_eq, List.map_map]
  exact List.map_congr_left fun a _ => changedCell_fst m changes a

theorem changed_change : Changed r m (m.change changes) where
  sound :=
    { allocated := fun r' => by
        rw [list_change, length_cells_change]
        exact hm.allocated r'
      nodup := fun r' => by
        rw [list_change]
        exact hm.nodup r'
      apart := fun r₁ r₂ => by
        rw [list_change, list_change]
        exact hm.apart r₁ r₂
      indexed := fun r' n => by
        rw [position?, list_change, names_change hm hwithin]
        exact hm.indexed r' n }
  length_le := by rw [lists_change]
  keeps r' _ hne := ⟨list_change m changes r', entries_change_of_ne hm hwithin hne⟩

end Change

/-! ## The cell of a name -/

/-- The index leads to the one cell of a list that has the name. -/
theorem Holds.address?_eq_some_iff {p : Params} (h : m.Holds r p) (hm : m.Sound) {n : String}
    {a : Nat} : m.address? r n = some a ↔ a ∈ (m.list r).items ∧ (m.cell a).1 = n := by
  have hnodup : (m.names r).Nodup := by
    rw [h.names_eq]
    exact p.distinct
  have hstands : ∀ i, (m.names r).idxOf? n = some i ↔
      ∃ b, (m.list r).items[i]? = some b ∧ (m.cell b).1 = n := by
    intro i
    rw [idxOf?_eq_some_iff_of_nodup hnodup, ParamsMemory.names_eq, List.getElem?_map,
      Option.map_eq_some_iff]
  rw [address?, hm.indexed, Option.map_eq_some_iff]
  constructor
  · rintro ⟨i, hi, rfl⟩
    obtain ⟨b, hb, hname⟩ := (hstands i).mp hi
    rw [List.getD_eq_getElem?_getD, hb]
    exact ⟨List.mem_of_getElem? hb, hname⟩
  · rintro ⟨ha, hname⟩
    obtain ⟨i, hi⟩ := List.mem_iff_getElem?.mp ha
    refine ⟨i, (hstands i).mpr ⟨a, hi, hname⟩, ?_⟩
    rw [List.getD_eq_getElem?_getD, hi]
    rfl

theorem Holds.address?_eq_none_iff {p : Params} (h : m.Holds r p) (hm : m.Sound) {n : String} :
    m.address? r n = none ↔ n ∉ p.names := by
  rw [address?, hm.indexed, h.names_eq, Option.map_eq_none_iff, List.idxOf?_eq_none_iff]

end ParamsMemory

end FormulaSearch
