import FormulaSearch.Proofs.Search.Step

/-!
# Histories of a search

The best record of a search is the latest minimum of its history. Only the trials of the steps and the
threshold of the configuration decide about it: folding the trials with a residue that is finite into the
first record leaves the last of the least among them, if it reaches the threshold, and the first record
otherwise.
-/

namespace FormulaSearch

/-! ## Folding trials into a record -/

/-- The trials with a finite residue. -/
def finiteTrials (ts : List Trial) : List Trial := ts.filter (·.residue.isFinite)

/-- No trial has a smaller residue, and no later one has one as small. -/
def LastOfLeast (ts : List Trial) (t : Trial) : Prop :=
  ∃ before after, ts = before ++ t :: after ∧ (∀ u ∈ before, t.residue ≤ u.residue) ∧
    ∀ u ∈ after, t.residue < u.residue

theorem LastOfLeast.cons {t u : Trial} {ts : List Trial} (h : LastOfLeast ts t)
    (hu : t.residue ≤ u.residue) : LastOfLeast (u :: ts) t := by
  obtain ⟨before, after, rfl, hbefore, hafter⟩ := h
  exact ⟨u :: before, after, rfl, List.forall_mem_cons.mpr ⟨hu, hbefore⟩, hafter⟩

theorem LastOfLeast.mem {t : Trial} {ts : List Trial} (h : LastOfLeast ts t) : t ∈ ts := by
  obtain ⟨before, after, rfl, -, -⟩ := h
  simp

theorem finiteTrials_cons_of_isFinite {t : Trial} (h : t.residue.isFinite = true)
    (ts : List Trial) : finiteTrials (t :: ts) = t :: finiteTrials ts :=
  List.filter_cons_of_pos h

theorem finiteTrials_cons_of_not_isFinite {t : Trial} (h : ¬ t.residue.isFinite = true)
    (ts : List Trial) : finiteTrials (t :: ts) = finiteTrials ts :=
  List.filter_cons_of_neg h

theorem not_isNaN_of_mem_finiteTrials {t : Trial} {ts : List Trial} (h : t ∈ finiteTrials ts) :
    t.residue.isNaN = false :=
  Double.not_isNaN_of_isFinite (List.mem_filter.mp h).2

namespace Best

/-- Trials leave a record that is smaller than all of them, or the last of the least of them. -/
theorem foldl_next_cases {b : Best} (hb : b.residue.isNaN = false) (ts : List Trial) :
    (ts.foldl next b = b ∧ ∀ t ∈ finiteTrials ts, b.residue < t.residue) ∨
      ∃ t, ts.foldl next b = t.record ∧ t.residue ≤ b.residue ∧
        LastOfLeast (finiteTrials ts) t := by
  induction ts generalizing b with
  | nil => exact .inl ⟨rfl, by simp [finiteTrials]⟩
  | cons t ts ih =>
    rw [List.foldl_cons, next]
    by_cases hfinite : t.residue.isFinite = true
    · rw [finiteTrials_cons_of_isFinite hfinite]
      have ht : t.residue.isNaN = false := Double.not_isNaN_of_isFinite hfinite
      by_cases hle : t.residue ≤ b.residue
      · -- the trial is stored, and stays unless a later one is as small
        rw [if_pos (show t.Accepted b from ⟨hfinite, hle⟩)]
        rcases ih (b := t.record) ht with ⟨hfold, hlater⟩ | ⟨u, hfold, hu, hlast⟩
        · exact .inr ⟨t, hfold, hle, [], finiteTrials ts, rfl, by simp, hlater⟩
        · exact .inr ⟨u, hfold, Double.le_trans hu hle, hlast.cons hu⟩
      · rw [if_neg (show ¬ t.Accepted b from fun h => hle h.2)]
        have hlt : b.residue < t.residue := Double.lt_of_not_le ht hb hle
        rcases ih hb with ⟨hfold, hlater⟩ | ⟨u, hfold, hu, hlast⟩
        · exact .inl ⟨hfold, List.forall_mem_cons.mpr ⟨hlt, hlater⟩⟩
        · exact .inr ⟨u, hfold, hu, hlast.cons (Double.le_trans hu (Double.le_of_lt hlt))⟩
    · rw [if_neg (show ¬ t.Accepted b from fun h => hfinite h.1),
        finiteTrials_cons_of_not_isFinite hfinite]
      exact ih hb

/-- The least of the first residue and those of the trials. -/
theorem residue_foldl_next {b : Best} (hb : b.residue.isNaN = false) (ts : List Trial) :
    (ts.foldl next b).residue ∈ b.residue :: (finiteTrials ts).map Trial.residue ∧
      ∀ r ∈ b.residue :: (finiteTrials ts).map Trial.residue, (ts.foldl next b).residue ≤ r := by
  rcases foldl_next_cases hb ts with ⟨hfold, hgreater⟩ | ⟨t, hfold, hle, hlast⟩
  · rw [hfold]
    refine ⟨List.mem_cons_self .., List.forall_mem_cons.mpr ⟨Double.le_refl hb, ?_⟩⟩
    exact List.forall_mem_map.mpr fun t ht => Double.le_of_lt (hgreater t ht)
  · rw [hfold]
    have hmem := hlast.mem
    refine ⟨List.mem_cons_of_mem _ (List.mem_map_of_mem hmem),
      List.forall_mem_cons.mpr ⟨hle, List.forall_mem_map.mpr fun u hu => ?_⟩⟩
    obtain ⟨before, after, heq, hbefore, hafter⟩ := hlast
    rw [heq, List.mem_append, List.mem_cons] at hu
    rcases hu with hu | rfl | hu
    · exact hbefore u hu
    · exact Double.le_refl (not_isNaN_of_mem_finiteTrials hmem)
    · exact Double.le_of_lt (hafter u hu)

theorem not_isNaN_foldl_next {b : Best} (hb : b.residue.isNaN = false) (ts : List Trial) :
    (ts.foldl next b).residue.isNaN = false :=
  (Double.not_isNaN_of_le ((residue_foldl_next hb ts).2 _ (List.mem_cons_self ..))).1

/-- A trial is accepted after others exactly if its residue is finite and exceeds neither the first one nor
theirs. -/
theorem accepted_foldl_next_iff {b : Best} (hb : b.residue.isNaN = false) {ts : List Trial}
    {t : Trial} : t.Accepted (ts.foldl next b) ↔
      t.residue.isFinite = true ∧ t.residue ≤ b.residue ∧
        ∀ u ∈ finiteTrials ts, t.residue ≤ u.residue := by
  obtain ⟨hmem, hleast⟩ := residue_foldl_next hb ts
  rw [← List.forall_mem_map (P := fun r => t.residue ≤ r),
    ← List.forall_mem_cons (p := fun r => t.residue ≤ r)]
  constructor
  · rintro ⟨hfinite, hle⟩
    exact ⟨hfinite, fun r hr => Double.le_trans hle (hleast r hr)⟩
  · rintro ⟨hfinite, hall⟩
    exact ⟨hfinite, hall _ hmem⟩

end Best

/-! ## Histories -/

/-- What a step came to and the trial that it made, if it made one. -/
structure StepRecord where
  outcome : Except StepFailure StepOutcome
  trial : Option Trial

/-- The trials of some steps, in order. -/
def trialsOf (records : List StepRecord) : List Trial := records.flatMap (·.trial.toList)

namespace SearchState

variable {σ φ : Type} [RandomSource σ] [Fitter φ] {plan : SearchPlan}

/-- A number of steps: what is recorded of each, in order, and the state after them. -/
def history (plan : SearchPlan) : Nat → SearchState σ φ → List StepRecord × SearchState σ φ
  | 0, s => ([], s)
  | n + 1, s =>
    let (records, t) := history plan n (s.step plan).2
    (⟨(s.step plan).1, s.trial? plan⟩ :: records, t)

theorem length_history (n : Nat) (s : SearchState σ φ) : (history plan n s).1.length = n := by
  induction n generalizing s with
  | zero => rfl
  | succ n ih => exact congrArg (· + 1) (ih (s.step plan).2)

theorem history_add (plan : SearchPlan) (m n : Nat) (s : SearchState σ φ) :
    (history plan (m + n) s).2 = (history plan n (history plan m s).2).2 := by
  induction m generalizing s with
  | zero => rw [Nat.zero_add]; rfl
  | succ m ih => rw [Nat.add_right_comm]; exact ih (s.step plan).2

/-- Steps fold their trials into the record and count themselves and their trials. -/
theorem history_counts (hp : plan.WellNamed) (n : Nat) (s : SearchState σ φ) :
    (history plan n s).2.best = (trialsOf (history plan n s).1).foldl Best.next s.best ∧
      (history plan n s).2.generated = s.generated + n ∧
      (history plan n s).2.fitted = s.fitted + (trialsOf (history plan n s).1).length := by
  induction n generalizing s with
  | zero => exact ⟨rfl, rfl, rfl⟩
  | succ n ih =>
    obtain ⟨hbest, hgenerated, hfitted, -⟩ := advanced_step hp s
    obtain ⟨ihbest, ihgenerated, ihfitted⟩ := ih (s.step plan).2
    rw [history, trialsOf, List.flatMap_cons, List.foldl_append, List.length_append, ← trialsOf,
      ← hbest]
    dsimp only
    refine ⟨ihbest, ?_, ?_⟩
    · rw [ihgenerated, hgenerated]
      omega
    · rw [ihfitted, hfitted]
      omega

/-- A step of a history announces a new best record exactly if its trial is accepted after the trials
before it. -/
theorem newBest_history_iff [KeepsNames φ] (hp : plan.WellNamed) {n : Nat} {s : SearchState σ φ}
    {before after : List StepRecord} {r : StepRecord}
    (h : (history plan n s).1 = before ++ r :: after) :
    r.outcome = .ok .newBest ↔
      ∃ t, r.trial = some t ∧ t.Accepted ((trialsOf before).foldl Best.next s.best) := by
  induction n generalizing s before with
  | zero => simp [history] at h
  | succ n ih =>
    cases before with
    | nil =>
      obtain ⟨rfl, -⟩ := List.cons.inj h
      exact newBest_iff hp
    | cons r' before =>
      obtain ⟨rfl, hrest⟩ := List.cons.inj h
      rw [ih hrest, (advanced_step hp s).1, trialsOf, trialsOf, List.flatMap_cons,
        List.foldl_append]

/-- After any number of steps of a new search, whoever fits: every step is counted, and every trial. The
residue of the best record is the least of the threshold and the finite residues of the trials. If one of
these reaches the threshold, the record is that of the last trial that has the least residue, and otherwise
it is the first record. A step has announced a new best record exactly if its residue was finite and
exceeded neither the threshold nor any before it, and the best residue has never increased. -/
theorem best_of_history [KeepsNames φ] {dataset : Dataset} {config : Config}
    (hplan : SearchPlan.make dataset config = .ok plan)
    (hthreshold : config.residueThreshold.isNaN = false) (source : σ) (fitter : φ) (clock : Clock)
    (symbolic : Symbolic) (n : Nat) :
    let first : SearchState σ φ := start plan source fitter clock symbolic
    let records := (history plan n first).1
    let final := (history plan n first).2
    let finite := finiteTrials (trialsOf records)
    records.length = n ∧
      final.generated = n ∧
      final.fitted = (trialsOf records).length ∧
      final.best.residue ∈ config.residueThreshold :: finite.map Trial.residue ∧
      (∀ r ∈ config.residueThreshold :: finite.map Trial.residue, final.best.residue ≤ r) ∧
      ((∃ t ∈ finite, t.residue ≤ config.residueThreshold) →
        ∃ t, LastOfLeast finite t ∧ final.best = t.record) ∧
      ((∀ t ∈ finite, ¬ t.residue ≤ config.residueThreshold) → final.best = .initial config) ∧
      (∀ before r after, records = before ++ r :: after →
        (r.outcome = .ok .newBest ↔ ∃ t, r.trial = some t ∧ t.residue.isFinite = true ∧
          t.residue ≤ config.residueThreshold ∧
            ∀ u ∈ finiteTrials (trialsOf before), t.residue ≤ u.residue)) ∧
      ∀ m ≤ n, final.best.residue ≤ (history plan m first).2.best.residue := by
  intro first records final finite
  have hp := SearchPlan.wellNamed_of_make hplan
  obtain ⟨rfl, rfl, -⟩ := SearchPlan.make_ready hplan
  have hfirst : first.best.residue.isNaN = false := hthreshold
  obtain ⟨hbest, hgenerated, hfitted⟩ := history_counts hp n first
  obtain ⟨hmem, hleast⟩ := Best.residue_foldl_next hfirst (trialsOf records)
  have hcases := Best.foldl_next_cases hfirst (trialsOf records)
  rw [← hbest] at hmem hleast hcases
  refine ⟨length_history n first, hgenerated.trans (Nat.zero_add n), hfitted.trans (Nat.zero_add _),
    hmem, hleast, ?_, ?_, fun before r after hrecords => ?_, fun m hm => ?_⟩
  · rintro ⟨t, ht, hle⟩
    rcases hcases with ⟨-, hgreater⟩ | ⟨u, hu, -, hlast⟩
    · exact absurd hle (Double.not_le_of_lt (hgreater t ht))
    · exact ⟨u, hlast, hu⟩
  · intro hnone
    rcases hcases with ⟨hsame, -⟩ | ⟨u, -, hle, hlast⟩
    · exact hsame
    · exact absurd hle (hnone u hlast.mem)
  · rw [newBest_history_iff hp hrecords]
    exact exists_congr fun t => and_congr_right fun _ => Best.accepted_foldl_next_iff hfirst
  · obtain ⟨k, rfl⟩ := Nat.exists_eq_add_of_le hm
    have hmiddle : (history plan m first).2.best.residue.isNaN = false := by
      rw [(history_counts hp m first).1]
      exact Best.not_isNaN_foldl_next hfirst _
    show (history plan (m + k) first).2.best.residue ≤ _
    rw [history_add, (history_counts hp k _).1]
    exact (Best.residue_foldl_next hmiddle _).2 _ (List.mem_cons_self ..)

/-- Five fits of the template `a` under a threshold of five: the last but one is as good as the best before
it. -/
theorem best_of_scripted :
    let dataset : Dataset := ⟨[0.0], [0.0], none, rfl, by decide⟩
    let config : Config :=
      ⟨{ paramValueMin := -1.0, paramValueMax := 1.0, residueThreshold := 5.0,
          template := some "a" }, by decide +kernel⟩
    let plan : SearchPlan :=
      ⟨dataset, config, some ⟨.parameter "a", Params.empty.insert "a" 0.0⟩⟩
    let fits : ScriptedFits :=
      ⟨[.result ⟨3.0, 4⟩, .failure .noParameters, .result ⟨2.0, 5⟩, .result ⟨2.0, 6⟩,
        .result ⟨7.0, 8⟩]⟩
    let h := history plan 5 (start plan (ScriptedDraws.ofList [0.25]) fits (.withStep 0.0))
    SearchPlan.make dataset config = .ok plan ∧ config.residueThreshold.isNaN = false ∧
      h.2.generated = 5 ∧ h.2.fitted = 4 ∧ h.2.best.iterations = 6 ∧
      ∃ t, LastOfLeast (finiteTrials (trialsOf h.1)) t ∧ h.2.best = t.record := by
  intro dataset config plan fits h
  have hplan : SearchPlan.make dataset config = .ok plan := by
    dsimp only [dataset, config, plan]
    rfl
  have hthreshold : config.residueThreshold.isNaN = false := by decide +kernel
  obtain ⟨-, hgenerated, hfitted, -, -, hfound, -⟩ :=
    best_of_history hplan hthreshold (ScriptedDraws.ofList [0.25]) fits (.withStep 0.0) .absent 5
  refine ⟨hplan, hthreshold, hgenerated, hfitted.trans (by decide +kernel), by decide +kernel,
    hfound ⟨⟨⟨.parameter "a", Params.empty.insert "a" 0.0⟩, ⟨3.0, 4⟩⟩, ?_, by decide +kernel⟩⟩
  exact List.mem_cons_self ..

end SearchState

end FormulaSearch
