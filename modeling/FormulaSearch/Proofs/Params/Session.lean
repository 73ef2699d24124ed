import FormulaSearch.Proofs.Params.OrderedMap

/-!
# Sessions on parameters

A session on lists in memory, over any operations, is one on two ordered maps that share nothing. An
operation writes to no list but the current one, so a copy keeps what it was taken with, and one that is
refused leaves every list exactly as it was.
-/

namespace FormulaSearch

/-! ## Sessions on maps -/

/-- The current map and the one kept aside; there is none aside while that is the current one itself. -/
structure MapSession where
  current : OrderedMap
  saved : Option OrderedMap

namespace MapSession

def start : MapSession := ⟨.empty, none⟩

/-- The map kept aside, be it the current one. -/
def aside (t : MapSession) : OrderedMap := t.saved.getD t.current

/-- The session after an operation on the current map, which stays if the operation is refused. -/
def after (t : MapSession) :
    Except ParamsError OrderedMap → Except ParamsError (Option Float) × MapSession
  | .ok map => (.ok none, { t with current := map })
  | .error e => (.error e, t)

/-- Carries out an operation; only reading gives a value. -/
def step (t : MapSession) : ParamsOp → Except ParamsError (Option Float) × MapSession
  | .create entries =>
    match OrderedMap.ofList entries with
    | .ok map => (.ok none, ⟨map, some t.aside⟩)
    | .error e => (.error e, t)
  | .add name value => t.after (t.current.add name value)
  | .get name => ((t.current.get name).map some, t)
  | .assign name value => t.after (t.current.assign name value)
  | .overwrite values => t.after (t.current.overwrite values)
  | .clamp lower upper => t.after (.ok (t.current.clamp lower upper))
  | .save => (.ok none, ⟨t.current, some t.current⟩)
  | .exchange => (.ok none, ⟨t.aside, t.saved.map fun _ => t.current⟩)

/-- What operations come to one after the other, and the session after them. -/
def run : List ParamsOp → MapSession → List (Except ParamsError (Option Float)) × MapSession
  | [], t => ([], t)
  | op :: ops, t =>
    let (answer, t) := t.step op
    let (answers, t) := run ops t
    (answer :: answers, t)

end MapSession

/-! ## Refused operations -/

namespace ParamsMemory

variable {m : ParamsMemory} {r : Nat} {e : ParamsError}

theorem add_refused {name : String} {value : Float} (h : (m.add r name value).1 = .error e) :
    (m.add r name value).2 = m := by
  rw [add] at h ⊢
  split at h
  · rw [if_pos ‹_›]
  · cases h

theorem assign_refused {name : String} {value : Float} (h : (m.assign r name value).1 = .error e) :
    (m.assign r name value).2 = m := by
  rw [assign] at h ⊢
  cases haddress : m.address? r name with
  | some a =>
    rw [haddress] at h
    cases h
  | none => rfl

theorem overwrite_refused {values : List Float} (h : (m.overwrite r values).1 = .error e) :
    (m.overwrite r values).2 = m := by
  rw [overwrite] at h ⊢
  split at h
  · cases h
  · rw [if_neg ‹_›]

end ParamsMemory

/-! ## One step -/

namespace ParamsSession

open ParamsMemory

variable {s : ParamsSession} {t : MapSession}

/-- The list in memory holds the parameters of the map. -/
def Stands (m : ParamsMemory) (r : Nat) (map : OrderedMap) : Prop := ∃ p, m.Holds r p ∧ p.toMap = map

/-- A session in memory and one on maps that have come to the same point. -/
structure Tracks (s : ParamsSession) (t : MapSession) : Prop where
  sound : s.memory.Sound
  current : Stands s.memory s.current t.current
  same : t.saved = none → s.saved = s.current
  saved : ∀ map, t.saved = some map → s.saved ≠ s.current ∧ Stands s.memory s.saved map

theorem Tracks.aside (h : Tracks s t) : Stands s.memory s.saved t.aside := by
  rw [MapSession.aside]
  cases hsaved : t.saved with
  | none =>
    rw [h.same hsaved]
    exact h.current
  | some map => exact (h.saved map hsaved).2

theorem Stands.of_changed {m m' : ParamsMemory} {r r' : Nat} {map : OrderedMap}
    (h : Stands m r' map) (hchanged : Changed r m m') (hne : r' ≠ r) : Stands m' r' map := by
  obtain ⟨p, hp, hmap⟩ := h
  exact ⟨p, hchanged.holds hne hp, hmap⟩

theorem Stands.listed {m : ParamsMemory} {r : Nat} {map : OrderedMap} (h : Stands m r map) :
    r < m.lists.length := by
  obtain ⟨p, hp, -⟩ := h
  exact hp.listed

/-- An operation on the current list that does what the one on its parameters does, and nothing at all
if it is refused, is one on the current map. -/
theorem tracks_after (h : Tracks s t) {result : Except ParamsError Params}
    {outcome : Except ParamsError Unit × ParamsMemory}
    (hmirrors : Mirrors s.memory s.current result outcome)
    (hrefused : ∀ e, outcome.1 = .error e → outcome.2 = s.memory) :
    (s.after outcome).1 = (t.after (result.map Params.toMap)).1 ∧
      Tracks (s.after outcome).2 (t.after (result.map Params.toMap)).2 := by
  obtain ⟨answer, m⟩ := outcome
  cases result with
  | error e =>
    obtain rfl : answer = .error e := hmirrors.answer
    obtain rfl : m = s.memory := hrefused e rfl
    exact ⟨rfl, h⟩
  | ok p =>
    obtain rfl : answer = .ok () := hmirrors.answer
    exact ⟨rfl,
      { sound := hmirrors.changed.sound
        current := ⟨p, hmirrors.holds p rfl, rfl⟩
        same := h.same
        saved := fun map hmap => by
          obtain ⟨hne, hstands⟩ := h.saved map hmap
          exact ⟨hne, hstands.of_changed hmirrors.changed hne⟩ }⟩

theorem step_tracks (h : Tracks s t) (op : ParamsOp) :
    (s.step op).1 = (t.step op).1 ∧ Tracks (s.step op).2 (t.step op).2 := by
  obtain ⟨p, hp, hmap⟩ := h.current
  have hlisted := h.aside.listed
  cases op with
  | create entries =>
    obtain ⟨hanswer, hchanged, hholds⟩ := create_spec h.sound entries
    rw [step, MapSession.step, ← Params.toMap_ofList]
    generalize s.memory.create entries = outcome at hanswer hchanged hholds
    obtain ⟨answer, m⟩ := outcome
    cases hresult : Params.ofList entries with
    | error e =>
      rw [hresult] at hanswer
      obtain rfl : answer = .error e := hanswer
      exact ⟨rfl,
        { sound := hchanged.sound
          current := h.current.of_changed hchanged hp.listed.ne
          same := h.same
          saved := fun map hsaved =>
            ⟨(h.saved map hsaved).1, (h.saved map hsaved).2.of_changed hchanged hlisted.ne⟩ }⟩
    | ok q =>
      rw [hresult] at hanswer
      obtain rfl : answer = .ok s.memory.lists.length := hanswer
      exact ⟨rfl,
        { sound := hchanged.sound
          current := ⟨q, hholds q hresult, rfl⟩
          same := fun hnone => by cases hnone
          saved := fun map hsome => by
            obtain rfl : t.aside = map := Option.some.inj hsome
            exact ⟨hlisted.ne, h.aside.of_changed hchanged hlisted.ne⟩ }⟩
  | add name value =>
    rw [step, MapSession.step, ← hmap, ← Params.toMap_add]
    exact tracks_after h (mirrors_add h.sound hp name value) fun _ => add_refused
  | get name =>
    refine ⟨?_, h⟩
    rw [step, MapSession.step, hp.get_eq h.sound, ← hmap]
    rfl
  | assign name value =>
    rw [step, MapSession.step, ← hmap, ← Params.toMap_set]
    exact tracks_after h (mirrors_assign h.sound hp name value) fun _ => assign_refused
  | overwrite values =>
    rw [step, MapSession.step, ← hmap, ← Params.toMap_setValues]
    exact tracks_after h (mirrors_overwrite h.sound hp values) fun _ => overwrite_refused
  | clamp lower upper =>
    rw [step, MapSession.step, ← hmap, ← Params.toMap_clamp]
    exact tracks_after h (mirrors_clamp h.sound hp lower upper) fun _ hok => by cases hok
  | save =>
    obtain ⟨hanswer, hchanged, hholds⟩ := copy_spec h.sound hp
    rw [step, MapSession.step]
    generalize s.memory.copy s.current = outcome at hanswer hchanged hholds
    obtain ⟨answer, m⟩ := outcome
    obtain rfl : answer = .ok s.memory.lists.length := hanswer
    exact ⟨rfl,
      { sound := hchanged.sound
        current := h.current.of_changed hchanged hp.listed.ne
        same := fun hnone => by cases hnone
        saved := fun map hsome => by
          obtain rfl : t.current = map := Option.some.inj hsome
          exact ⟨hp.listed.ne', p, hholds, hmap⟩ }⟩
  | exchange =>
    exact ⟨rfl,
      { sound := h.sound
        current := h.aside
        same := fun hnone => (h.same (Option.map_eq_none_iff.mp hnone)).symm
        saved := fun map hsome => by
          obtain ⟨old, hold, rfl⟩ := Option.map_eq_some_iff.mp hsome
          exact ⟨(h.saved old hold).1.symm, h.current⟩ }⟩

/-! ## What a step leaves alone -/

theorem keeps_after {result : Except ParamsError Params}
    {outcome : Except ParamsError Unit × ParamsMemory}
    (hmirrors : Mirrors s.memory s.current result outcome)
    (hrefused : ∀ e, outcome.1 = .error e → outcome.2 = s.memory) {r : Nat}
    (hr : r < s.memory.lists.length)
    (hother : r ≠ s.current ∨ ∃ e, (s.after outcome).1 = .error e) :
    s.memory.Keeps (s.after outcome).2.memory r := by
  rcases hother with hne | ⟨e, he⟩
  · exact hmirrors.changed.keeps r hr hne
  · rw [after, hrefused e (map_eq_error_iff.mp he)]
    exact .refl _ r

/-- An operation writes to no list but the current one, and to none at all if it is refused. -/
theorem step_keeps (h : Tracks s t) (op : ParamsOp) {r : Nat} (hr : r < s.memory.lists.length)
    (hother : r ≠ s.current ∨ ∃ e, (s.step op).1 = .error e) :
    s.memory.Keeps (s.step op).2.memory r := by
  obtain ⟨p, hp, -⟩ := h.current
  cases op with
  | create entries =>
    -- a new list is the only one that is written to
    have hkeeps := (create_spec h.sound entries).2.1.keeps r hr hr.ne
    rw [step]
    generalize s.memory.create entries = outcome at hkeeps
    obtain ⟨_ | _, m⟩ := outcome <;> exact hkeeps
  | add name value =>
    exact keeps_after (mirrors_add h.sound hp name value) (fun _ => add_refused) hr hother
  | get name => exact .refl _ r
  | assign name value =>
    exact keeps_after (mirrors_assign h.sound hp name value) (fun _ => assign_refused) hr hother
  | overwrite values =>
    exact keeps_after (mirrors_overwrite h.sound hp values) (fun _ => overwrite_refused) hr hother
  | clamp lower upper =>
    exact keeps_after (mirrors_clamp h.sound hp lower upper) (fun _ hok => by cases hok) hr hother
  | save =>
    have hkeeps := (copy_spec h.sound hp).2.1.keeps r hr hr.ne
    rw [step]
    generalize s.memory.copy s.current = outcome at hkeeps
    obtain ⟨_ | _, m⟩ := outcome <;> exact hkeeps
  | exchange => exact .refl _ r

/-- A refused operation leaves the references where they are. -/
theorem step_refused {op : ParamsOp} {e : ParamsError} (h : (s.step op).1 = .error e) :
    (s.step op).2.current = s.current ∧ (s.step op).2.saved = s.saved := by
  cases op with
  | create entries =>
    rw [step] at h ⊢
    generalize s.memory.create entries = outcome at h ⊢
    obtain ⟨_ | _, m⟩ := outcome
    · exact ⟨rfl, rfl⟩
    · cases h
  | save =>
    rw [step] at h ⊢
    generalize s.memory.copy s.current = outcome at h ⊢
    obtain ⟨_ | _, m⟩ := outcome
    · exact ⟨rfl, rfl⟩
    · cases h
  | exchange => cases h
  | _ => exact ⟨rfl, rfl⟩

/-! ## Whole runs -/

theorem start_tracks : Tracks start .start where
  sound := (changed_allocate sound_empty).sound
  current := ⟨.empty, ⟨Nat.zero_lt_one, rfl⟩, rfl⟩
  same _ := rfl
  saved _ h := by cases h

theorem run_tracks (ops : List ParamsOp) (h : Tracks s t) :
    (run ops s).1 = (MapSession.run ops t).1 ∧ Tracks (run ops s).2 (MapSession.run ops t).2 := by
  induction ops generalizing s t with
  | nil => exact ⟨rfl, h⟩
  | cons op ops ih =>
    obtain ⟨hanswer, hstep⟩ := step_tracks h op
    obtain ⟨hanswers, hrun⟩ := ih hstep
    exact ⟨congrArg₂ List.cons hanswer hanswers, hrun⟩

/-- Over every run of operations, parameters in memory are an ordered map. The answers, errors among them,
are those of a session on maps, where names are listed in the order in which they were added and have the
value that was last written. The current list and the one kept aside read as their maps in every way, and
they are two lists as soon as they are two maps. Whatever comes next leaves every other list exactly as it
was, and every list if it is refused. -/
theorem reads_as_maps (ops : List ParamsOp) :
    let s := (run ops start).2
    let t := (MapSession.run ops .start).2
    (run ops start).1 = (MapSession.run ops .start).1 ∧
      s.memory.Reads s.current t.current ∧ s.memory.Reads s.saved t.aside ∧
      (s.saved = s.current ↔ t.saved = none) ∧
      (∀ op, ∀ r < s.memory.lists.length, r ≠ s.current → s.memory.Keeps (s.step op).2.memory r) ∧
      ∀ op e, (s.step op).1 = .error e →
        (s.step op).2.current = s.current ∧ (s.step op).2.saved = s.saved ∧
          ∀ r < s.memory.lists.length, s.memory.Keeps (s.step op).2.memory r := by
  intro s t
  obtain ⟨hanswers, h⟩ := run_tracks ops start_tracks
  obtain ⟨p, hp, hcurrent⟩ := h.current
  obtain ⟨q, hq, hsaved⟩ := h.aside
  refine ⟨hanswers, hcurrent ▸ hp.reads h.sound, hsaved ▸ hq.reads h.sound,
    ⟨fun hsame => ?_, h.same⟩, fun op r hr hne => step_keeps h op hr (.inl hne), fun op e he => ?_⟩
  · by_contra hsome
    obtain ⟨map, hmap⟩ := Option.ne_none_iff_exists'.mp hsome
    exact (h.saved map hmap).1 hsame
  · obtain ⟨hcur, hsav⟩ := step_refused he
    exact ⟨hcur, hsav, fun r hr => step_keeps h op hr (.inr ⟨e, he⟩)⟩

-- the copy keeps what it was taken with
example :
    (run [.add "a" 1.0, .save, .assign "a" 2.0, .add "a" 3.0, .get "a", .exchange, .get "a"] start).1 =
      [.ok none, .ok none, .ok none, .error (.duplicate "a"), .ok (some 2.0), .ok none,
        .ok (some 1.0)] := by rfl

end ParamsSession

end FormulaSearch
