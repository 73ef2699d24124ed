import FormulaSearch.Candidate
import FormulaSearch.Proofs.Double
import FormulaSearch.Proofs.Expr.Names
import FormulaSearch.Proofs.Failure
import FormulaSearch.Proofs.Generation

/-!
# Candidates carry the parameters of their formula

A candidate that a search produces lists exactly the parameters of its formula, in the order of their
first occurrence, and each has a number for its value. This holds of a template's candidate and of a
grown one after its simplification, which drops and renames parameters.
-/

namespace FormulaSearch

/-! ## Accepted settings -/

theorem Settings.check_passes {s : Settings} (h : s.error? = none) {c : Bool × SettingsError}
    (hc : c ∈ s.checks) : c.1 = false := by
  rw [error?, Option.map_eq_none_iff, List.find?_eq_none] at h
  simpa using h c hc

namespace Config

theorem ofSettings_eq_ok {s : Settings} (h : s.error? = none) : ofSettings s = .ok ⟨s, h⟩ := by
  rw [ofSettings]
  split
  · rfl
  · rename_i e he
    rw [h] at he
    cases he

theorem domain_lt (config : Config) : config.paramValueMin < config.paramValueMax := by
  simpa using config.check_passes config.accepted (.head _)

theorem domain_isFinite (config : Config) :
    config.paramValueMin.isFinite = true ∧ config.paramValueMax.isFinite = true := by
  simpa using config.check_passes config.accepted (.tail _ (.head _))

theorem domain_le (config : Config) : config.paramValueMin ≤ config.paramValueMax :=
  Double.le_of_lt config.domain_lt

theorem iterations_pos (config : Config) : 1 ≤ config.fitMaxIters := by
  have := config.check_passes config.accepted (.tail _ (.tail _ (.tail _ (.head _))))
  simp only [decide_eq_false_iff_not] at this
  omega

end Config

/-! ## Dictionaries -/

theorem lookup_cons_ite {α β : Type} [DecidableEq α] (key : α) (value : β) (d : List (α × β)) (k : α) :
    List.lookup k ((key, value) :: d) = if k = key then some value else d.lookup k := by
  rw [List.lookup_cons]
  by_cases h : k = key
  · rw [if_pos h, beq_iff_eq.mpr h]
  · rw [if_neg h, beq_eq_false_iff_ne.mpr h]

theorem lookup_eq_none {α β : Type} [DecidableEq α] {d : List (α × β)} {key : α}
    (h : key ∉ d.map Prod.fst) : d.lookup key = none := by
  rw [List.lookup_eq_none_iff]
  intro entry hmem
  rw [bne_iff_ne]
  rintro rfl
  exact h (List.mem_map_of_mem hmem)

theorem lookup_of_mem {α β : Type} [DecidableEq α] {d : List (α × β)} (hd : (d.map Prod.fst).Nodup)
    {key : α} {value : β} (h : (key, value) ∈ d) : d.lookup key = some value := by
  induction d with
  | nil => cases h
  | cons entry d ih =>
    rw [List.map_cons, List.nodup_cons] at hd
    rw [← entry.eta, lookup_cons_ite]
    rcases List.mem_cons.mp h with heq | hmem
    · rw [← heq, if_pos rfl]
    · have hne : key ≠ entry.1 := by
        rintro rfl
        exact hd.1 (List.mem_map.mpr ⟨_, hmem, rfl⟩)
      rw [if_neg hne]
      exact ih hd.2 hmem

/-- Among distinct names the position of a name is the one where it stands. -/
theorem idxOf?_eq_some_iff_of_nodup {names : List String} (h : names.Nodup) {n : String} {i : Nat} :
    names.idxOf? n = some i ↔ names[i]? = some n := by
  rw [List.idxOf?_eq_some_iff, List.getElem?_eq_some_iff]
  refine exists_congr fun hi => ⟨fun hfirst => hfirst.1, fun heq => ⟨heq, fun j hj hsame => ?_⟩⟩
  have := (List.getElem_inj h).mp (hsame.trans heq.symm)
  omega

/-! ## Parameter lists -/

namespace Params

/-- Every value is a number. -/
def Numeric (p : Params) : Prop := ∀ v ∈ p.values, v.isNaN = false

theorem entries_insert {p : Params} {name : String} (h : name ∉ p.names) (value : Float) :
    (p.insert name value).entries = p.entries ++ [(name, value)] := by
  unfold insert
  rw [dif_neg (show name ∉ p.entries.map Prod.fst from h)]

theorem mem_values_insert {p : Params} {name : String} {value v : Float}
    (h : v ∈ (p.insert name value).values) : v ∈ p.values ∨ v = value := by
  rw [insert] at h
  split at h
  · exact .inl h
  · rw [values, List.map_append, List.mem_append] at h
    exact h.imp_right List.mem_singleton.mp

theorem names_insert {p : Params} {name : String} (h : name ∉ p.names) (value : Float) :
    (p.insert name value).names = p.names ++ [name] := by
  rw [names, entries_insert h]
  simp [names]

/-- The first of some new and distinct names is new, and so are the others after it. -/
theorem nodup_names_insert {p : Params} {name : String} {value : Float}
    {entries : List (String × Float)}
    (h : (p.names ++ ((name, value) :: entries).map Prod.fst).Nodup) :
    name ∉ p.names ∧ ((p.insert name value).names ++ entries.map Prod.fst).Nodup := by
  have hnew : name ∉ p.names := by
    rw [List.map_cons, List.nodup_append] at h
    exact fun hmem => h.2.2 name hmem name (by simp) rfl
  exact ⟨hnew, by simpa [names_insert hnew] using h⟩

/-- Entries with new and distinct names are appended as they are. -/
theorem entries_foldl_insert {p : Params} {entries : List (String × Float)}
    (h : (p.names ++ entries.map Prod.fst).Nodup) :
    (entries.foldl (fun p (n, v) => p.insert n v) p).entries = p.entries ++ entries := by
  induction entries generalizing p with
  | nil => simp
  | cons entry entries ih =>
    obtain ⟨hnew, hrest⟩ := nodup_names_insert h
    rw [List.foldl_cons, ih hrest, entries_insert hnew]
    simp

/-- Entries with new and distinct names can be added. -/
theorem foldlM_add {p : Params} {entries : List (String × Float)}
    (h : (p.names ++ entries.map Prod.fst).Nodup) :
    entries.foldlM (fun p (n, v) => p.add n v) p =
      .ok (entries.foldl (fun p (n, v) => p.insert n v) p) := by
  induction entries generalizing p with
  | nil => rfl
  | cons entry entries ih =>
    obtain ⟨hnew, hrest⟩ := nodup_names_insert h
    have hadd : p.add entry.1 entry.2 = .ok (p.insert entry.1 entry.2) := by
      rw [add, if_neg (by simpa [contains] using hnew)]
    rw [List.foldlM_cons, List.foldl_cons, ← ih hrest]
    dsimp only
    rw [hadd, ok_bind]

/-- A list of parameters made from entries with distinct names has these entries. -/
theorem entries_ofEntries {entries : List (String × Float)} (h : (entries.map Prod.fst).Nodup) :
    (entries.foldl (fun p (n, v) => p.insert n v) empty).entries = entries := by
  rw [entries_foldl_insert (by simpa [names, empty] using h)]
  rfl

/-- Parameters can be listed anew. -/
theorem ofList_entries (p : Params) : ofList p.entries = .ok p := by
  have hall := entries_ofEntries p.distinct
  rw [ofList, foldlM_add (by simpa [names, empty] using p.distinct)]
  generalize p.entries.foldl _ _ = q at hall ⊢
  cases q
  cases p
  cases hall
  rfl

/-- What is looked up is one of the values. -/
theorem mem_values_of_assignment {p : Params} {name : String} {v : Float}
    (h : p.assignment name = some v) : v ∈ p.values := by
  obtain ⟨before, after, hentries, -⟩ := List.lookup_eq_some_iff.mp h
  rw [values, hentries]
  simp

/-- A parameter has the value that it is listed with. -/
theorem assignment_of_mem {p : Params} {name : String} {v : Float} (h : (name, v) ∈ p.entries) :
    p.assignment name = some v :=
  lookup_of_mem p.distinct h

/-- A parameter that is listed has a value. -/
theorem exists_assignment {p : Params} {name : String} (h : name ∈ p.names) :
    ∃ v, p.assignment name = some v := by
  obtain ⟨entry, hentry, rfl⟩ := List.mem_map.mp h
  exact ⟨entry.2, assignment_of_mem hentry⟩

theorem entries_mapValues (f : String → Float → Float) (p : Params) :
    (p.mapValues f).entries = p.entries.map fun (n, v) => (n, f n v) := rfl

theorem names_withValues (p : Params) (values : List Float) :
    (p.withValues values).names = p.names :=
  map_fst_overwrite p.entries values

theorem map_snd_overwrite {entries : List (String × Float)} {values : List Float}
    (h : values.length = entries.length) : (overwrite entries values).map Prod.snd = values := by
  induction entries generalizing values with
  | nil => rw [List.length_eq_zero_iff.mp h]; rfl
  | cons entry entries ih =>
    cases values with
    | nil => simp at h
    | cons v values => simpa [overwrite] using ih (by simpa using h)

/-- New values, one for each parameter, are the values afterwards. -/
theorem values_withValues {p : Params} {values : List Float} (h : values.length = p.size) :
    (p.withValues values).values = values :=
  map_snd_overwrite h

theorem setValues_eq_ok {p : Params} {values : List Float} (h : values.length = p.size) :
    p.setValues values = .ok (p.withValues values) := if_pos h

theorem length_values (p : Params) : p.values.length = p.size := List.length_map _

theorem size_eq_length_names (p : Params) : p.size = p.names.length := (List.length_map _).symm

end Params

namespace Candidate

/-- The parameters are those of the formula, in the order of their first occurrence. -/
def WellNamed (c : Candidate) : Prop := c.params.names = c.expression.parameterNames

/-- Entries for the parameters of a formula, in their order, make a candidate of it. -/
theorem wellNamed_ofEntries {e : Formula} {entries : List (String × Float)}
    (h : entries.map Prod.fst = e.parameterNames) :
    let params := entries.foldl (fun p (n, v) => p.insert n v) Params.empty
    WellNamed ⟨e, params⟩ ∧ params.values = entries.map Prod.snd := by
  have hdistinct : (entries.map Prod.fst).Nodup := by
    rw [h]
    exact Expr.nodup_firstOccurrences _
  have hall := Params.entries_ofEntries hdistinct
  exact ⟨by rw [WellNamed, Params.names, hall, h], by rw [Params.values, hall]⟩

/-! ## Simplification -/

theorem canonicalRenaming_getElem {names : List String} (h : names.Nodup) {i : Nat}
    (hi : i < names.length) : canonicalRenaming names names[i] = canonicalName i := by
  have hfind : names.idxOf? names[i] = some i :=
    (idxOf?_eq_some_iff_of_nodup h).mpr (List.getElem?_eq_getElem hi)
  rw [canonicalRenaming, hfind]

theorem canonicalRenaming_injective {names : List String} (h : names.Nodup) :
    ∀ m ∈ names, ∀ n ∈ names, canonicalRenaming names m = canonicalRenaming names n → m = n := by
  intro m hm n hn heq
  obtain ⟨i, hi, rfl⟩ := List.mem_iff_getElem.mp hm
  obtain ⟨j, hj, rfl⟩ := List.mem_iff_getElem.mp hn
  rw [canonicalRenaming_getElem h hi, canonicalRenaming_getElem h hj] at heq
  cases canonicalName_injective heq
  rfl

theorem map_canonicalRenaming {names : List String} (h : names.Nodup) :
    names.map (canonicalRenaming names) = canonicalNames names.length := by
  refine List.ext_getElem (by simp [canonicalNames]) fun i hi _ => ?_
  have hi : i < names.length := by simpa using hi
  rw [List.getElem_map, canonicalRenaming_getElem h hi, getElem_canonicalNames]

theorem map_zipIdx_canonicalName (names : List String) :
    names.zipIdx.map (fun (_, i) => canonicalName i) = canonicalNames names.length := by
  rw [canonicalNames, List.range_eq_range', ← List.zipIdx_map_snd 0 names, List.map_map]
  rfl

/-- Values under canonical names: the names by place, each value looked up. -/
theorem mapM_renamed {p : Assignment} {xs : List (String × Nat)} {entries : List (String × Float)}
    (h : (xs.mapM fun (name, i) => (p.value name).map (canonicalName i, ·)) = .ok entries) :
    entries.map Prod.fst = xs.map (fun (_, i) => canonicalName i) ∧
      ∀ v ∈ entries.map Prod.snd, ∃ name, p name = some v := by
  induction xs generalizing entries with
  | nil =>
    cases h
    simp
  | cons x xs ih =>
    rw [List.mapM_cons] at h
    obtain ⟨entry, hentry, hmore⟩ := bind_eq_ok_iff.mp h
    obtain ⟨rest, hrest, hdone⟩ := bind_eq_ok_iff.mp hmore
    obtain ⟨hnames, hvalues⟩ := ih hrest
    obtain ⟨v, hv, rfl⟩ := map_eq_ok_iff.mp hentry
    cases hdone
    refine ⟨by simp [hnames], fun w hw => ?_⟩
    rw [List.map_cons] at hw
    rcases List.mem_cons.mp hw with rfl | hw
    · refine ⟨x.1, ?_⟩
      rw [Assignment.value] at hv
      split at hv
      · cases hv
        assumption
      · cases hv
    · exact hvalues w hw

/-- Simplification gives each parameter of the simplified formula a canonical name and its value. -/
theorem simplify_eq_ok {c c' : Candidate} (h : c.simplify = .ok c') :
    c'.WellNamed ∧ c'.params.values ⊆ c.params.values := by
  rw [simplify] at h
  obtain ⟨entries, hentries, hdone⟩ := bind_eq_ok_iff.mp h
  cases hdone
  have hnodup : c.expression.simplify.parameterNames.Nodup := Expr.nodup_firstOccurrences _
  obtain ⟨hnames, hvalues⟩ := mapM_renamed hentries
  rw [map_zipIdx_canonicalName, ← map_canonicalRenaming hnodup,
    ← Expr.parameterNames_rename (canonicalRenaming_injective hnodup)] at hnames
  obtain ⟨hnamed, hall⟩ := wellNamed_ofEntries hnames
  refine ⟨hnamed, fun v hv => ?_⟩
  rw [hall] at hv
  obtain ⟨name, hname⟩ := hvalues v hv
  exact Params.mem_values_of_assignment hname

theorem simplify_wellNamed {c c' : Candidate} (h : c.simplify = .ok c') :
    c'.WellNamed ∧ (c.params.Numeric → c'.params.Numeric) := by
  obtain ⟨hnamed, hvalues⟩ := simplify_eq_ok h
  exact ⟨hnamed, fun hp v hv => hp v (hvalues hv)⟩

end Candidate

/-! ## Candidates from templates -/

namespace Candidate

theorem startingValues_numeric {σ : Type} {settings : Settings} {given : Assignment}
    {supply : σ → Float × σ} (hs : ∀ s, (supply s).1.isNaN = false) {names : List String} {s t : σ}
    {entries : List (String × Float)}
    (h : startingValues settings given supply names s = .ok (entries, t)) :
    entries.map Prod.fst = names ∧ ∀ v ∈ entries.map Prod.snd, v.isNaN = false := by
  induction names generalizing s t entries with
  | nil =>
    cases h
    simp
  | cons name names ih =>
    rw [startingValues] at h
    split at h
    · split at h
      · rename_i hin
        obtain ⟨⟨rest, u⟩, hrest, hdone⟩ := bind_eq_ok_iff.mp h
        obtain ⟨hnames, hvalues⟩ := ih hrest
        cases hdone
        refine ⟨by simp [hnames], fun v hv => ?_⟩
        rcases List.mem_cons.mp hv with rfl | hv
        · exact Double.not_isNaN_of_isWithin hin
        · exact hvalues v hv
      · cases h
    · obtain ⟨⟨rest, u⟩, hrest, hdone⟩ := bind_eq_ok_iff.mp h
      obtain ⟨hnames, hvalues⟩ := ih hrest
      cases hdone
      refine ⟨by simp [hnames], fun v hv => ?_⟩
      rcases List.mem_cons.mp hv with rfl | hv
      · exact hs s
      · exact hvalues v hv

theorem ofTemplateWith_wellNamed {σ : Type} {settings : Settings} {t : Template}
    {supply : σ → Float × σ} (hs : ∀ s, (supply s).1.isNaN = false) {s u : σ} {c : Candidate}
    (h : ofTemplateWith settings t supply s = .ok (c, u)) : c.WellNamed ∧ c.params.Numeric := by
  rw [ofTemplateWith] at h
  split at h
  · cases h
  · rename_i e _
    dsimp only at h
    split at h
    · obtain ⟨⟨entries, u'⟩, hentries, hdone⟩ := bind_eq_ok_iff.mp h
      obtain ⟨hnames, hvalues⟩ := startingValues_numeric hs hentries
      cases hdone
      obtain ⟨hnamed, hall⟩ := wellNamed_ofEntries hnames
      refine ⟨hnamed, fun v hv => ?_⟩
      rw [hall] at hv
      exact hvalues v hv
    · cases h

/-- The middle of a finite domain is a number, even if the sum of its bounds overflows. -/
theorem not_isNaN_midpoint (config : Config) : (midpoint config.toSettings).isNaN = false := by
  obtain ⟨hl, hu⟩ := config.domain_isFinite
  exact Double.not_isNaN_half (Double.not_isNaN_add hl (Double.not_isNaN_of_isFinite hu))

theorem ofTemplate_wellNamed {config : Config} {t : Template} {c : Candidate}
    (h : ofTemplate config.toSettings t = .ok c) : c.WellNamed ∧ c.params.Numeric := by
  obtain ⟨⟨c', u⟩, hc, rfl⟩ := map_eq_ok_iff.mp h
  refine ofTemplateWith_wellNamed ?_ hc
  exact fun _ => not_isNaN_midpoint config

end Candidate

/-! ## Random candidates -/

section

variable {σ : Type} [RandomSource σ] {settings : Settings} {source : σ}

section

variable {P : Float → Prop}
  (hd : ∀ s, Drawn source s → P (RandomSource.uniform settings.paramValueMin settings.paramValueMax s).1)
include hd

/-- The values of the parameters keep a property that all draws from the domain have. -/
theorem DrawsLeaf.values {params : Params} {s : σ} {out : Formula × Params × σ}
    (h : DrawsLeaf settings params s out) (hs : Drawn source s) (hp : ∀ v ∈ params.values, P v) :
    ∀ v ∈ out.2.1.values, P v := by
  cases h with
  | var => exact hp
  | parameter hroll hvalue =>
    have hdrawn := hd _ (hs.of_unit hroll)
    rw [hvalue] at hdrawn
    intro v hv
    rcases Params.mem_values_insert hv with hv | rfl
    · exact hp v hv
    · exact hdrawn
  | constant => exact hp

theorem GrowsTo.values {budget : Nat} {params : Params} {s : σ} {out : Formula × Params × σ}
    (h : GrowsTo settings budget params s out) (hs : Drawn source s)
    (hp : ∀ v ∈ params.values, P v) : ∀ v ∈ out.2.1.values, P v := by
  induction h with
  | exhausted => exact (drawsLeaf_randomLeaf ..).values hd hs hp
  | leaf _ _ hroll _ => exact (drawsLeaf_randomLeaf ..).values hd (hs.of_unit hroll) hp
  | unary hroll _ hroll' _ hop _ ih => exact ih (hs.operator hroll hroll' hop) hp
  | binary hroll _ hroll' _ hop hcut _ hleft _ ihl ihr =>
    have hrest := (hs.operator hroll hroll' hop).of_between hcut
    exact ihr (hleft.drawn hrest) (ihl hrest hp)

/-- The values of a grown candidate are draws from the domain. -/
theorem enters_generateWithin (budget : Int) {s : σ} (h : Drawn source s) :
    Drawn source (Candidate.generateWithin settings budget s).2 ∧
      ∀ v ∈ (Candidate.generateWithin settings budget s).1.params.values, P v := by
  have hgrown := growsTo_grow settings budget.toNat .empty s
  exact ⟨hgrown.drawn h, hgrown.values hd h fun _ hv => nomatch hv⟩

theorem enters_generate {s : σ} (h : Drawn source s) :
    Drawn source (Candidate.generate settings s).2 ∧
      ∀ v ∈ (Candidate.generate settings s).1.params.values, P v :=
  enters_generateWithin hd _ (h.bounded _)

end

/-- A grown candidate has numbers for its values. -/
theorem grows_generate (hd : NumericDraws source settings.paramValueMin settings.paramValueMax)
    {s : σ} (h : Drawn source s) :
    Drawn source (Candidate.generate settings s).2 ∧
      (Candidate.generate settings s).1.params.Numeric :=
  enters_generate (P := fun v => v.isNaN = false) hd h

end

end FormulaSearch
