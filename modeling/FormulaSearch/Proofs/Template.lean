import Mathlib
import FormulaSearch.Proofs.Candidate

/-!
# Candidates from templates

A template is refused by the first of three tests that it fails: its text is a formula, each value is for a
parameter of the formula, and each value lies in the domain. The candidate of one that passes keeps the values
that are given, and its other parameters take what is supplied, one after another in their order.
-/

namespace FormulaSearch

namespace Double

/-- A value that does not lie in an interval; one that is no number lies in none. -/
def Outside (lower upper v : Float) : Prop := v.isNaN = true ∨ v < lower ∨ upper < v

theorem isWithin_eq_false_iff {lower upper v : Float} (hl : lower.isNaN = false)
    (hu : upper.isNaN = false) : isWithin lower upper v = false ↔ Outside lower upper v := by
  rw [← Bool.not_eq_true, isWithin_iff, Outside, ← Bool.not_eq_false]
  constructor
  · intro h
    by_contra hnot
    simp only [not_or, not_not] at hnot
    exact h ⟨le_of_not_lt hnot.1 hl hnot.2.1, le_of_not_lt hu hnot.1 hnot.2.2⟩
  · rintro (hnan | hlt | hlt) ⟨hlow, hhigh⟩
    · exact hnan (not_isNaN_of_le hlow).2
    · exact not_le_of_lt hlt hlow
    · exact not_le_of_lt hlt hhigh

end Double

namespace Candidate

/-! ## Supplies -/

/-- What is supplied so many times, in order, and the state after that. -/
def supplies {σ : Type} (supply : σ → Float × σ) : Nat → σ → List Float × σ
  | 0, s => ([], s)
  | n + 1, s =>
    let (v, s) := supply s
    let (vs, s) := supplies supply n s
    (v :: vs, s)

theorem supplies_uniform {σ : Type} [RandomSource σ] (lower upper : Float) (n : Nat) (s : σ) :
    supplies (RandomSource.uniform lower upper) n s = RandomSource.uniforms lower upper n s := by
  induction n generalizing s with
  | zero => rfl
  | succ n ih => simp only [supplies, RandomSource.uniforms, ih]

theorem supplies_same {σ : Type} (v : Float) (n : Nat) (s : σ) :
    supplies (fun s => (v, s)) n s = (List.replicate n v, s) := by
  induction n with
  | zero => rfl
  | succ n ih =>
    rw [supplies]
    dsimp only
    rw [ih]
    rfl

/-! ## Starting values -/

/-- The names without a given value. -/
def missing (given : Assignment) (names : List String) : List String :=
  names.filter fun name => (given name).isNone

/-- Each given value lies in an interval. -/
def GivenWithin (lower upper : Float) (given : Assignment) (names : List String) : Prop :=
  ∀ name ∈ names, ∀ v, given name = some v → isWithin lower upper v = true

/-- Entries under some names: the given values are kept, and the others are those supplied, in order. -/
structure Filled (given : Assignment) (names : List String) (supplied : List Float)
    (entries : List (String × Float)) : Prop where
  names_eq : entries.map Prod.fst = names
  kept : ∀ entry ∈ entries, ∀ v, given entry.1 = some v → entry.2 = v
  supplied_eq : (entries.filter fun entry => (given entry.1).isNone).map Prod.snd = supplied

section

variable {σ : Type} {settings : Settings} {given : Assignment} {supply : σ → Float × σ}

theorem Filled.cons_given {names : List String} {supplied : List Float}
    {entries : List (String × Float)} (h : Filled given names supplied entries) {name : String}
    {v : Float} (hv : given name = some v) :
    Filled given (name :: names) supplied ((name, v) :: entries) where
  names_eq := by rw [List.map_cons, h.names_eq]
  kept entry hentry w hw := by
    rcases List.mem_cons.mp hentry with rfl | hentry
    · rw [hv] at hw
      exact Option.some.inj hw
    · exact h.kept entry hentry w hw
  supplied_eq := by rw [List.filter_cons_of_neg (by simp [hv]), h.supplied_eq]

theorem Filled.cons_missing {names : List String} {supplied : List Float}
    {entries : List (String × Float)} (h : Filled given names supplied entries) {name : String}
    (hname : given name = none) (v : Float) :
    Filled given (name :: names) (v :: supplied) ((name, v) :: entries) where
  names_eq := by rw [List.map_cons, h.names_eq]
  kept entry hentry w hw := by
    rcases List.mem_cons.mp hentry with rfl | hentry
    · rw [hname] at hw
      cases hw
    · exact h.kept entry hentry w hw
  supplied_eq := by rw [List.filter_cons_of_pos (by simp [hname]), List.map_cons, h.supplied_eq]

/-- As many values are supplied as are missing. -/
theorem Filled.length_supplied {names : List String} {supplied : List Float}
    {entries : List (String × Float)} (h : Filled given names supplied entries) :
    supplied.length = (missing given names).length := by
  rw [← h.supplied_eq, ← h.names_eq, missing, List.filter_map, List.length_map, List.length_map]
  rfl

/-- Values that lie in the domain are taken, and there is one supply for each other parameter. -/
theorem startingValues_of_within {names : List String}
    (h : GivenWithin settings.paramValueMin settings.paramValueMax given names)
    (supply : σ → Float × σ) (s : σ) :
    ∃ entries, Filled given names (supplies supply (missing given names).length s).1 entries ∧
      startingValues settings given supply names s =
        .ok (entries, (supplies supply (missing given names).length s).2) := by
  induction names generalizing s with
  | nil => exact ⟨[], ⟨rfl, by simp, rfl⟩, rfl⟩
  | cons name names ih =>
    have ih := ih fun n hn => h n (List.mem_cons_of_mem _ hn)
    rw [startingValues]
    cases hv : given name with
    | some v =>
      obtain ⟨entries, hfilled, hentries⟩ := ih s
      dsimp only
      rw [if_pos (h name List.mem_cons_self v hv), hentries, missing,
        List.filter_cons_of_neg (by simp [hv])]
      exact ⟨_, hfilled.cons_given hv, rfl⟩
    | none =>
      obtain ⟨entries, hfilled, hentries⟩ := ih (supply s).2
      dsimp only
      rw [hentries, missing, List.filter_cons_of_pos (by simp [hv]), List.length_cons]
      exact ⟨_, hfilled.cons_missing hv (supply s).1, rfl⟩

/-- The first value that lies outside of the domain is the one that is reported. -/
theorem startingValues_of_outside {before after : List String} {name : String} {v : Float}
    (hbefore : GivenWithin settings.paramValueMin settings.paramValueMax given before)
    (hv : given name = some v)
    (hout : isWithin settings.paramValueMin settings.paramValueMax v = false) (s : σ) :
    startingValues settings given supply (before ++ name :: after) s =
      .error (.outOfDomain name v settings.paramValueMin settings.paramValueMax) := by
  induction before generalizing s with
  | nil =>
    rw [List.nil_append, startingValues, hv]
    dsimp only
    rw [if_neg (Bool.eq_false_iff.mp hout)]
  | cons n before ih =>
    have ih := ih fun m hm => hbefore m (List.mem_cons_of_mem _ hm)
    rw [List.cons_append, startingValues]
    cases hn : given n with
    | some w =>
      dsimp only
      rw [if_pos (hbefore n List.mem_cons_self w hn), ih s]
      rfl
    | none =>
      dsimp only
      rw [ih]
      rfl

/-- The first of some names whose given value lies outside of an interval. -/
structure FirstOutside (lower upper : Float) (given : Assignment) (names : List String) (name : String)
    (v : Float) : Prop where
  given_eq : given name = some v
  outside : Double.Outside lower upper v
  first : ∃ before after, names = before ++ name :: after ∧ GivenWithin lower upper given before

theorem givenWithin_or_firstOutside {lower upper : Float} (hl : lower.isNaN = false)
    (hu : upper.isNaN = false) (given : Assignment) (names : List String) :
    GivenWithin lower upper given names ∨ ∃ name v, FirstOutside lower upper given names name v := by
  induction names with
  | nil => exact .inl (by simp [GivenWithin])
  | cons n names ih =>
    have hcons (hn : ∀ v, given n = some v → isWithin lower upper v = true) :
        GivenWithin lower upper given (n :: names) ∨
          ∃ name v, FirstOutside lower upper given (n :: names) name v := by
      rcases ih with ih | ⟨name, v, hv, hout, before, after, rfl, hbefore⟩
      · exact .inl (List.forall_mem_cons.mpr ⟨hn, ih⟩)
      · exact .inr ⟨name, v, hv, hout, n :: before, after, rfl,
          List.forall_mem_cons.mpr ⟨hn, hbefore⟩⟩
    cases hv : given n with
    | none => exact hcons (by simp [hv])
    | some v =>
      cases hin : isWithin lower upper v with
      | true => exact hcons (by simpa [hv] using hin)
      | false => exact .inr ⟨n, v, hv, (Double.isWithin_eq_false_iff hl hu).mp hin, [], names, rfl,
          by simp [GivenWithin]⟩

end

/-! ## Names that are not known -/

/-- The given names that are no parameters of a formula, in order and each once. -/
structure Unknown (t : Template) (e : Formula) (names : List String) : Prop where
  sorted : names.Pairwise (· < ·)
  mem_iff : ∀ n, n ∈ names ↔ n ∈ t.values.map Prod.fst ∧ n ∉ e.parameterNames

theorem Unknown.unique {t : Template} {e : Formula} {names names' : List String}
    (h : Unknown t e names) (h' : Unknown t e names') : names = names' := by
  have hperm : names.Perm names' :=
    (List.perm_ext_iff_of_nodup (h.sorted.imp ne_of_lt) (h'.sorted.imp ne_of_lt)).mpr fun n =>
      (h.mem_iff n).trans (h'.mem_iff n).symm
  exact hperm.eq_of_pairwise (fun a b _ _ hab hba => absurd hab hba.not_gt) h.sorted h'.sorted

theorem sorted_sortNames {names : List String} (h : names.Nodup) :
    (sortNames names).Pairwise (· < ·) := by
  have hle (a b : String) : (!(b < a : Bool)) = true ↔ a ≤ b := by
    rw [Bool.not_eq_true', decide_eq_false_iff_not, not_lt]
  have hsorted := @List.pairwise_mergeSort String (fun a b => !(b < a : Bool))
    (fun a b c => by simpa only [hle] using le_trans)
    (fun a b => by simpa only [Bool.or_eq_true, hle] using le_total a b) names
  have hnodup : (sortNames names).Nodup := (List.mergeSort_perm names _).nodup_iff.mpr h
  exact (hsorted.and hnodup).imp fun hab => lt_of_le_of_ne ((hle _ _).mp hab.1) hab.2

theorem mem_sortNames {names : List String} {n : String} : n ∈ sortNames names ↔ n ∈ names :=
  List.mem_mergeSort

/-- The names that are reported. -/
def unknownNames (t : Template) (e : Formula) : List String :=
  sortNames (Expr.firstOccurrences ((t.values.map Prod.fst).filter (!e.parameterNames.contains ·)))

theorem unknown_unknownNames (t : Template) (e : Formula) : Unknown t e (unknownNames t e) where
  sorted := sorted_sortNames (Expr.nodup_firstOccurrences _)
  mem_iff n := by
    rw [unknownNames, mem_sortNames, Expr.mem_firstOccurrences, List.mem_filter, Bool.not_eq_true',
      ← Bool.not_eq_true, List.contains_iff_mem]

/-! ## Outcomes -/

section

variable {σ : Type} {config : Config} {t : Template} {e : Formula} {supply : σ → Float × σ} {s : σ}

theorem ofTemplateWith_of_unknown {names : List String} (hparse : parse t.text = .ok e)
    (hne : names ≠ []) (h : Unknown t e names) :
    ofTemplateWith config.toSettings t supply s = .error (.unknownParameters names) := by
  obtain rfl := h.unique (unknown_unknownNames t e)
  rw [ofTemplateWith, hparse]
  dsimp only
  rw [if_neg fun hempty => hne ?_]
  · rfl
  · rw [unknownNames, List.isEmpty_iff.mp hempty]
    simp [sortNames, Expr.firstOccurrences]

theorem ofTemplateWith_of_known (hparse : parse t.text = .ok e) (h : Unknown t e []) :
    ofTemplateWith config.toSettings t supply s = (do
      let (entries, s) ← startingValues config.toSettings (valuesByName t.values) supply
        e.parameterNames s
      return (⟨e, entries.foldl (fun p (n, v) => p.insert n v) .empty⟩, s)) := by
  rw [ofTemplateWith, hparse]
  dsimp only
  rw [if_pos]
  rw [List.isEmpty_iff, List.filter_eq_nil_iff]
  intro n hn
  have := mt (h.mem_iff n).mpr List.not_mem_nil
  simpa [hn] using this

theorem ofTemplateWith_of_outside {name : String} {v : Float} (hparse : parse t.text = .ok e)
    (hknown : Unknown t e []) (h : FirstOutside config.paramValueMin config.paramValueMax
      (valuesByName t.values) e.parameterNames name v) :
    ofTemplateWith config.toSettings t supply s =
      .error (.outOfDomain name v config.paramValueMin config.paramValueMax) := by
  obtain ⟨hl, hu⟩ := config.domain_isFinite
  obtain ⟨hv, hout, before, after, hnames, hbefore⟩ := h
  have hout := (Double.isWithin_eq_false_iff (Double.not_isNaN_of_isFinite hl)
    (Double.not_isNaN_of_isFinite hu)).mpr hout
  rw [ofTemplateWith_of_known hparse hknown, hnames, startingValues_of_outside hbefore hv hout]
  rfl

/-- The candidate of a template that passes all tests. -/
structure Built (t : Template) (supplied : Nat → List Float × σ) (c : Candidate) (s : σ) : Prop where
  parsed : parse t.text = .ok c.expression
  filled : Filled (valuesByName t.values) c.expression.parameterNames
    (supplied (missing (valuesByName t.values) c.expression.parameterNames).length).1 c.params.entries
  state_eq : s = (supplied (missing (valuesByName t.values) c.expression.parameterNames).length).2

theorem ofTemplateWith_of_within (hparse : parse t.text = .ok e) (hknown : Unknown t e [])
    (h : GivenWithin config.paramValueMin config.paramValueMax (valuesByName t.values)
      e.parameterNames) :
    ∃ c u, ofTemplateWith config.toSettings t supply s = .ok (c, u) ∧
      Built t (fun n => supplies supply n s) c u := by
  obtain ⟨entries, hfilled, hentries⟩ := startingValues_of_within h supply s
  have hnodup : (entries.map Prod.fst).Nodup := by
    rw [hfilled.names_eq]
    exact Expr.nodup_firstOccurrences _
  rw [ofTemplateWith_of_known hparse hknown, hentries]
  refine ⟨_, _, rfl, hparse, ?_, rfl⟩
  rwa [Params.entries_ofEntries hnodup]

/-- How a template comes out: which test it fails first, and what its candidate is if it fails none. -/
structure ComesTo (config : Config) (t : Template) (supplied : Nat → List Float × σ)
    (result : Except TemplateError (Candidate × σ)) : Prop where
  parse_iff : ∀ e, result = .error (.parse e) ↔ parse t.text = .error e
  unknown_iff : ∀ names, result = .error (.unknownParameters names) ↔
    ∃ e, parse t.text = .ok e ∧ names ≠ [] ∧ Unknown t e names
  outside_iff : ∀ name v lower upper, result = .error (.outOfDomain name v lower upper) ↔
    lower = config.paramValueMin ∧ upper = config.paramValueMax ∧
      ∃ e, parse t.text = .ok e ∧ Unknown t e [] ∧
        FirstOutside lower upper (valuesByName t.values) e.parameterNames name v
  ok_iff : (∃ c s, result = .ok (c, s)) ↔ ∃ e, parse t.text = .ok e ∧ Unknown t e [] ∧
    GivenWithin config.paramValueMin config.paramValueMax (valuesByName t.values) e.parameterNames
  built : ∀ c s, result = .ok (c, s) → Built t supplied c s

/-- What a template comes to, by the first test that it fails. -/
inductive Verdict (config : Config) (t : Template) (supplied : Nat → List Float × σ) :
    Except TemplateError (Candidate × σ) → Prop
  | unparsed {e : ParseError} (h : parse t.text = .error e) :
    Verdict config t supplied (.error (.parse e))
  | unknown {e : Formula} {names : List String} (hparse : parse t.text = .ok e) (hne : names ≠ [])
    (h : Unknown t e names) : Verdict config t supplied (.error (.unknownParameters names))
  | outside {e : Formula} {name : String} {v : Float} (hparse : parse t.text = .ok e)
    (hknown : Unknown t e []) (h : FirstOutside config.paramValueMin config.paramValueMax
      (valuesByName t.values) e.parameterNames name v) :
    Verdict config t supplied
      (.error (.outOfDomain name v config.paramValueMin config.paramValueMax))
  | built {e : Formula} {c : Candidate} {s : σ} (hparse : parse t.text = .ok e)
    (hknown : Unknown t e []) (h : GivenWithin config.paramValueMin config.paramValueMax
      (valuesByName t.values) e.parameterNames) (hbuilt : Built t supplied c s) :
    Verdict config t supplied (.ok (c, s))

theorem verdict_ofTemplateWith (config : Config) (t : Template) (supply : σ → Float × σ) (s : σ) :
    Verdict config t (fun n => supplies supply n s)
      (ofTemplateWith config.toSettings t supply s) := by
  obtain ⟨hl, hu⟩ := config.domain_isFinite
  cases hparse : parse t.text with
  | error e =>
    rw [ofTemplateWith, hparse]
    exact .unparsed hparse
  | ok e =>
    have hunknown := unknown_unknownNames t e
    by_cases hne : unknownNames t e = []
    · rw [hne] at hunknown
      rcases givenWithin_or_firstOutside (Double.not_isNaN_of_isFinite hl)
        (Double.not_isNaN_of_isFinite hu) (valuesByName t.values) e.parameterNames with
        h | ⟨name, v, h⟩
      · obtain ⟨c, u, hresult, hbuilt⟩ := ofTemplateWith_of_within hparse hunknown h
        rw [hresult]
        exact .built hparse hunknown h hbuilt
      · rw [ofTemplateWith_of_outside hparse hunknown h]
        exact .outside hparse hunknown h
    · rw [ofTemplateWith_of_unknown hparse hne hunknown]
      exact .unknown hparse hne hunknown

theorem comesTo_ofTemplateWith (config : Config) (t : Template) (supply : σ → Float × σ) (s : σ) :
    ComesTo config t (fun n => supplies supply n s)
      (ofTemplateWith config.toSettings t supply s) := by
  have hverdict := verdict_ofTemplateWith config t supply s
  constructor
  case parse_iff =>
    refine fun e => ⟨fun h => ?_, fun h => by rw [ofTemplateWith, h]⟩
    rw [h] at hverdict
    cases hverdict
    assumption
  case unknown_iff =>
    intro names
    constructor
    · intro h
      rw [h] at hverdict
      cases hverdict with
      | unknown hparse hne h => exact ⟨_, hparse, hne, h⟩
    · rintro ⟨e, hparse, hne, h⟩
      exact ofTemplateWith_of_unknown hparse hne h
  case outside_iff =>
    intro name v lower upper
    constructor
    · intro h
      rw [h] at hverdict
      cases hverdict with
      | outside hparse hknown hfirst => exact ⟨rfl, rfl, _, hparse, hknown, hfirst⟩
    · rintro ⟨rfl, rfl, e, hparse, hknown, h⟩
      exact ofTemplateWith_of_outside hparse hknown h
  case ok_iff =>
    constructor
    · rintro ⟨c, u, h⟩
      rw [h] at hverdict
      cases hverdict with
      | built hparse hknown h => exact ⟨_, hparse, hknown, h⟩
    · rintro ⟨e, hparse, hknown, h⟩
      obtain ⟨c, u, hresult, -⟩ := ofTemplateWith_of_within hparse hknown h
      exact ⟨c, u, hresult⟩
  case built =>
    intro c u h
    rw [h] at hverdict
    cases hverdict
    assumption

/-- A template is refused if its text is no formula, for what is wrong with the text; otherwise if values
are given for names that are no parameters, for these names in order; otherwise if values lie outside of
the domain, for the first of them; and in no other case. Its candidate keeps the given values, and its
other parameters start at the middle of the domain or at one draw each, in their order. -/
theorem ofTemplate_comesTo (config : Config) (t : Template) :
    ComesTo config t (fun n => (List.replicate n (midpoint config.toSettings), ()))
        ((ofTemplate config.toSettings t).map (·, ())) ∧
      ∀ (σ : Type) [RandomSource σ] (s : σ),
        ComesTo config t (fun n => RandomSource.uniforms config.paramValueMin config.paramValueMax n s)
          (ofTemplateAtRandom config.toSettings t s) := by
  constructor
  · have h := comesTo_ofTemplateWith config t (fun s : Unit => (midpoint config.toSettings, s)) ()
    simp only [supplies_same] at h
    have hresult : (ofTemplate config.toSettings t).map (·, ()) =
        ofTemplateWith config.toSettings t (fun s : Unit => (midpoint config.toSettings, s)) () := by
      rw [ofTemplate]
      generalize ofTemplateWith config.toSettings t _ () = result
      cases result <;> rfl
    rwa [hresult]
  · intro σ _ s
    have h := comesTo_ofTemplateWith config t
      (RandomSource.uniform config.paramValueMin config.paramValueMax) s
    simp only [supplies_uniform] at h
    exact h

end

end Candidate

end FormulaSearch
