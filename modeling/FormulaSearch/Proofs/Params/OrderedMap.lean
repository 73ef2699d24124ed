import FormulaSearch.Proofs.Params.Operations

/-!
# Ordered maps

Parameters as an ordered map: which names there are, in the order in which they were added, and what was
last written for each. Nothing is kept twice here, and nothing is shared. The operations on parameters are
those on the map, and so is every way to read a list in memory.
-/

namespace FormulaSearch

/-- The names in the order in which they were added, and the value of each. -/
structure OrderedMap where
  order : List String
  value : String → Option Float

namespace OrderedMap

/-! ## Operations -/

def empty : OrderedMap := ⟨[], fun _ => none⟩

/-- The values after one was written for a name. -/
def written (map : OrderedMap) (name : String) (value : Float) : String → Option Float :=
  Function.update map.value name (some value)

/-- A new name comes last. -/
def add (map : OrderedMap) (name : String) (value : Float) : Except ParamsError OrderedMap :=
  if name ∈ map.order then .error (.duplicate name)
  else .ok ⟨map.order ++ [name], map.written name value⟩

/-- The map of some names and values, added one after the other. -/
def ofList (entries : List (String × Float)) : Except ParamsError OrderedMap :=
  entries.foldlM (fun map (name, value) => map.add name value) empty

def get (map : OrderedMap) (name : String) : Except ParamsError Float :=
  (map.value name).elim (.error (.unknown name)) .ok

def assign (map : OrderedMap) (name : String) (value : Float) : Except ParamsError OrderedMap :=
  if name ∈ map.order then .ok ⟨map.order, map.written name value⟩ else .error (.unknown name)

/-- Every name gets the value in its place. -/
def overwrite (map : OrderedMap) (values : List Float) : Except ParamsError OrderedMap :=
  if values.length = map.order.length then
    .ok ⟨map.order, fun name => (map.order.zip values).lookup name⟩
  else .error (.wrongCount map.order.length values.length)

def clamp (map : OrderedMap) (lower upper : Float) : OrderedMap :=
  ⟨map.order, fun name => (map.value name).map (clampTo lower upper)⟩

end OrderedMap

/-! ## Parameters as a map -/

namespace Params

/-- The ordered map that parameters are. -/
def toMap (p : Params) : OrderedMap := ⟨p.names, p.get?⟩

theorem get?_insert {p : Params} {name : String} (h : name ∉ p.names) (value : Float) :
    (p.insert name value).get? = p.toMap.written name value := by
  funext n
  rw [get?, entries_insert h, List.lookup_append, lookup_cons_ite, List.lookup_nil,
    OrderedMap.written, Function.update_apply]
  by_cases heq : n = name
  · rw [if_pos heq, if_pos heq, heq, lookup_eq_none h, Option.none_or]
  · rw [if_neg heq, if_neg heq, Option.or_none]
    rfl

theorem toMap_add (p : Params) (name : String) (value : Float) :
    (p.add name value).map toMap = p.toMap.add name value := by
  rw [add, OrderedMap.add]
  by_cases h : name ∈ p.names
  · rw [if_pos (by simpa [contains] using h), if_pos (show name ∈ p.toMap.order from h)]
    rfl
  · rw [if_neg (by simpa [contains] using h), if_neg (show name ∉ p.toMap.order from h)]
    exact congrArg Except.ok (congrArg₂ OrderedMap.mk (names_insert h value) (get?_insert h value))

theorem toMap_foldlM (entries : List (String × Float)) (p : Params) :
    (entries.foldlM (fun (p : Params) (n, v) => p.add n v) p).map toMap =
      entries.foldlM (fun (map : OrderedMap) (n, v) => map.add n v) p.toMap := by
  induction entries generalizing p with
  | nil => rfl
  | cons entry entries ih =>
    rw [List.foldlM_cons, List.foldlM_cons]
    dsimp only
    rw [← toMap_add]
    cases p.add entry.1 entry.2 with
    | error e => rfl
    | ok p' => exact ih p'

theorem toMap_ofList (entries : List (String × Float)) :
    (ofList entries).map toMap = OrderedMap.ofList entries :=
  toMap_foldlM entries empty

theorem names_mapValues (f : String → Float → Float) (p : Params) :
    (p.mapValues f).names = p.names := by
  rw [names, entries_mapValues, List.map_map]
  rfl

theorem get?_mapValues (f : String → Float → Float) (p : Params) (n : String) :
    (p.mapValues f).get? n = (p.get? n).map (f n) := by
  rw [get?, entries_mapValues, get?]
  induction p.entries with
  | nil => rfl
  | cons entry entries ih =>
    rw [List.map_cons]
    dsimp only
    rw [lookup_cons_ite, ih, ← entry.eta, lookup_cons_ite]
    by_cases h : n = entry.1
    · rw [if_pos h, if_pos h, h]
      rfl
    · rw [if_neg h, if_neg h]

theorem toMap_clamp (p : Params) (lower upper : Float) :
    (p.clamp lower upper).toMap = p.toMap.clamp lower upper :=
  congrArg₂ OrderedMap.mk (names_mapValues _ p) (funext (get?_mapValues _ p))

theorem mem_names_iff {p : Params} {n : String} : n ∈ p.names ↔ (p.get? n).isSome := by
  constructor
  · intro h
    obtain ⟨v, hv⟩ := exists_assignment h
    rw [show p.get? n = some v from hv, Option.isSome_some]
  · intro h
    by_contra hnew
    rw [get?, lookup_eq_none hnew] at h
    cases h

theorem toMap_set (p : Params) (name : String) (value : Float) :
    (p.set name value).map toMap = p.toMap.assign name value := by
  rw [set, OrderedMap.assign]
  by_cases h : name ∈ p.names
  · rw [if_pos (by simpa [contains] using h), if_pos (show name ∈ p.toMap.order from h)]
    refine congrArg Except.ok (congrArg₂ OrderedMap.mk (names_mapValues _ p) (funext fun n => ?_))
    rw [get?_mapValues, OrderedMap.written, Function.update_apply]
    by_cases heq : n = name
    · obtain ⟨v, hv⟩ := Option.isSome_iff_exists.mp (mem_names_iff.mp h)
      rw [if_pos heq, heq, hv, Option.map_some, if_pos rfl]
    · rw [if_neg heq]
      simp [heq, toMap]
  · rw [if_neg (by simpa [contains] using h), if_neg (show name ∉ p.toMap.order from h)]
    rfl

theorem toMap_setValues (p : Params) (values : List Float) :
    (p.setValues values).map toMap = p.toMap.overwrite values := by
  have hsize : p.toMap.order.length = p.size := p.size_eq_length_names.symm
  rw [OrderedMap.overwrite, hsize]
  by_cases h : values.length = p.size
  · rw [if_pos h, setValues_eq_ok h]
    have hentries : (p.withValues values).entries = p.names.zip values :=
      List.zip_of_prod (p.names_withValues values) (values_withValues h)
    refine congrArg Except.ok (congrArg₂ OrderedMap.mk (p.names_withValues values) (funext fun n => ?_))
    rw [get?, hentries]
    rfl
  · rw [if_neg h, setValues, if_neg h]
    rfl

end Params

/-! ## A map in memory -/

namespace ParamsMemory

/-- Every way to read a list gives what the map says: the names in order and each once, the position of a
name and of no other, one value for each name, and the same names and values listed, counted and as a
dictionary. -/
structure Reads (m : ParamsMemory) (r : Nat) (map : OrderedMap) : Prop where
  names_eq : m.names r = map.order
  distinct : map.order.Nodup
  position_iff : ∀ n i, m.position? r n = some i ↔ map.order[i]? = some n
  contains_iff : ∀ n, m.contains r n = true ↔ n ∈ map.order
  isSome_iff : ∀ n, (map.value n).isSome ↔ n ∈ map.order
  get_eq : ∀ n, m.get r n = map.get n
  values_eq : (m.values r).map some = map.order.map map.value
  dictionary_eq : m.dictionary r = m.entries r
  lookup_eq : ∀ n, (m.dictionary r).lookup n = map.value n
  size_eq : m.size r = map.order.length

theorem Holds.reads {m : ParamsMemory} {r : Nat} {p : Params} (h : m.Holds r p) (hm : m.Sound) :
    m.Reads r p.toMap where
  names_eq := h.names_eq
  distinct := p.distinct
  position_iff n i := by
    rw [h.position?_eq hm]
    exact idxOf?_eq_some_iff_of_nodup p.distinct
  contains_iff n := by
    rw [h.contains_eq hm, Params.contains, List.contains_iff_mem]
    rfl
  isSome_iff n := Params.mem_names_iff.symm
  get_eq n := h.get_eq hm n
  values_eq := by
    rw [values, h.entries_eq]
    change (p.entries.map Prod.snd).map some = (p.entries.map Prod.fst).map p.get?
    rw [List.map_map, List.map_map]
    exact List.map_congr_left fun entry hentry => (lookup_of_mem p.distinct hentry).symm
  dictionary_eq := by rw [h.dictionary_eq, h.entries_eq]
  lookup_eq n := by
    rw [h.dictionary_eq]
    rfl
  size_eq := by
    rw [h.size_eq]
    exact p.size_eq_length_names

end ParamsMemory

end FormulaSearch
