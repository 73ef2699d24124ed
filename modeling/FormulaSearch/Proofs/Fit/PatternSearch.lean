import FormulaSearch.Fit.PatternSearch
import FormulaSearch.Proofs.Double

/-!
# Pattern search keeps the best point it has seen

Every point that a pattern search evaluates has the dimension of the start and lies in the domain, because
a step from a finite coordinate leads to a number and a number is moved into the domain. Where the search
stands is one of these points and none of them has a lower cost, also after a trial move that was given up.
A round that moves nothing has therefore polled every coordinate from one and the same point, so the search
converges at a point from which no move of the last step leads down. The search has a step for each coordinate;
steps that start equal stay equal, so all this is shown of a search with a single step and carried over.
-/

namespace FormulaSearch.Fit

/-- A domain with finite bounds in their order, and a cost that is a number everywhere. -/
structure Problem.WellPosed (problem : Problem) : Prop where
  le : problem.lower ≤ problem.upper
  lower_isFinite : problem.lower.isFinite = true
  upper_isFinite : problem.upper.isFinite = true
  not_isNaN_cost : ∀ p, (problem.cost p).isNaN = false

/-- Every coordinate lies in the domain. -/
def Problem.Contains (problem : Problem) (p : Point) : Prop :=
  ∀ v ∈ p, isWithin problem.lower problem.upper v = true

/-- A point of the domain with its own cost. -/
structure Visit.Sound (problem : Problem) (dimension : Nat) (v : Visit) : Prop where
  cost_eq : v.cost = problem.cost v.point
  length_eq : v.point.length = dimension
  contains : problem.Contains v.point

/-- No move of a coordinate, one step up or one step down, leads from a visit to a lower cost, as far as
it leads anywhere else. -/
def Problem.Polled (problem : Problem) (step : Float) (v : Visit) (i : Nat) : Prop :=
  ∀ target ∈ [v.point.getD i 0.0 + step, v.point.getD i 0.0 - step],
    (clampTo problem.lower problem.upper target == v.point.getD i 0.0) = false →
      ¬ problem.cost (v.point.set i (clampTo problem.lower problem.upper target)) < v.cost

namespace PatternSearch

/-- The held point with the held cost. -/
def Walk.held (w : Walk) : Visit := ⟨w.point, w.cost⟩

/-- The visits are sound, the start is the first of them, and what is held is one that has the least
cost. -/
structure Walk.Sound (problem : Problem) (start : Point) (w : Walk) : Prop where
  sound_visits : ∀ v ∈ w.visits, v.Sound problem start.length
  start_mem : ⟨start, problem.cost start⟩ ∈ w.visits
  held_mem : w.held ∈ w.visits
  least : ∀ v ∈ w.visits, w.cost ≤ v.cost

variable {problem : Problem} {start : Point} {w : Walk}

theorem Walk.Sound.held_sound (hw : w.Sound problem start) :
    w.held.Sound problem start.length :=
  hw.sound_visits _ hw.held_mem

/-! ## One step for all coordinates -/

/-- One round over the given coordinates with the same step. -/
def sweep (problem : Problem) (step : Float) : List Nat → Bool × Walk → Bool × Walk
  | [], state => state
  | i :: rest, (improved, w) =>
    let (moved, w) := tryCoordinate problem step i w
    sweep problem step rest (improved || moved, w)

/-- How a search with one step ends. -/
structure Finish where
  walk : Walk
  step : Float
  rounds : Nat
  converged : Bool

/-- Rounds until the step is below the least step or no round is left. -/
def rounds (problem : Problem) (minStep : Float) (done : Nat) (step : Float) (w : Walk) :
    Nat → Finish
  | 0 => ⟨w, step, done, !(step ≥ minStep : Bool)⟩
  | left + 1 =>
    if step ≥ minStep then
      let (improved, w) := sweep problem step (List.range w.point.length) (false, w)
      rounds problem minStep (done + 1) (if improved then step else step / 2.0) w left
    else ⟨w, step, done, true⟩

/-- The search from a point of the domain with a first step. -/
def run (problem : Problem) (minStep step : Float) (maxRounds : Nat) (start : Point) : Finish :=
  let cost := problem.cost start
  rounds problem minStep 0 step ⟨start, cost, [⟨start, cost⟩]⟩ maxRounds

/-! ## One move -/

theorem Walk.Sound.isFinite_getD (hp : problem.WellPosed) (hw : w.Sound problem start) (i : Nat) :
    (w.point.getD i 0.0).isFinite = true := by
  rw [List.getD_eq_getElem?_getD]
  cases hi : w.point[i]? with
  | none => rfl
  | some v =>
    exact Double.isFinite_of_isWithin hp.lower_isFinite hp.upper_isFinite
      (hw.held_sound.contains v (List.mem_of_getElem? hi))

theorem Problem.Contains.set {p : Point} (h : problem.Contains p) {v : Float}
    (hv : isWithin problem.lower problem.upper v = true) (i : Nat) :
    problem.Contains (p.set i v) := by
  intro u hu
  rcases List.mem_or_eq_of_mem_set hu with hu | rfl
  · exact h u hu
  · exact hv

/-- A number that a coordinate is moved to becomes a coordinate of the domain. -/
theorem Walk.Sound.moved_sound (hp : problem.WellPosed) (hw : w.Sound problem start) (i : Nat)
    {target : Float} (ht : target.isNaN = false) :
    let moved := w.point.set i (clampTo problem.lower problem.upper target)
    Visit.Sound problem start.length ⟨moved, problem.cost moved⟩ where
  cost_eq := rfl
  length_eq := by rw [List.length_set]; exact hw.held_sound.length_eq
  contains := Problem.Contains.set hw.held_sound.contains (Double.isWithin_clampTo hp.le ht) i

/-- A visit of a lower cost becomes the one that is held. -/
theorem Walk.Sound.keep (hp : problem.WellPosed) (hw : w.Sound problem start) {v : Visit}
    (hv : v.Sound problem start.length) (hlt : v.cost < w.cost) :
    Walk.Sound problem start ⟨v.point, v.cost, v :: w.visits⟩ where
  sound_visits := List.forall_mem_cons.mpr ⟨hv, hw.sound_visits⟩
  start_mem := List.mem_cons_of_mem _ hw.start_mem
  held_mem := List.mem_cons_self ..
  least := by
    refine List.forall_mem_cons.mpr ⟨?_, fun u hu => ?_⟩
    · refine Double.le_refl ?_
      rw [hv.cost_eq]
      exact hp.not_isNaN_cost _
    · exact Double.le_trans (Double.le_of_lt hlt) (hw.least u hu)

/-- A visit of no lower cost only enters the record. -/
theorem Walk.Sound.record (hp : problem.WellPosed) (hw : w.Sound problem start) {v : Visit}
    (hv : v.Sound problem start.length) (hlt : ¬ v.cost < w.cost) :
    Walk.Sound problem start { w with visits := v :: w.visits } where
  sound_visits := List.forall_mem_cons.mpr ⟨hv, hw.sound_visits⟩
  start_mem := List.mem_cons_of_mem _ hw.start_mem
  held_mem := List.mem_cons_of_mem _ hw.held_mem
  least := by
    refine List.forall_mem_cons.mpr ⟨?_, hw.least⟩
    -- numbers can be compared, so the held cost is below or equal
    refine Double.le_of_not_lt ?_ ?_ hlt
    · rw [hv.cost_eq]
      exact hp.not_isNaN_cost _
    · rw [show w.cost = _ from hw.held_sound.cost_eq]
      exact hp.not_isNaN_cost _

theorem tryMove_sound (hp : problem.WellPosed) (hw : w.Sound problem start) (i : Nat)
    {target : Float} (ht : target.isNaN = false) :
    (tryMove problem i target w).2.Sound problem start := by
  have hmoved := hw.moved_sound hp i ht
  rw [tryMove]
  dsimp only
  split
  · exact hw
  · split
    · rename_i hlt
      exact hw.keep hp hmoved hlt
    · rename_i hlt
      exact hw.record hp hmoved hlt

theorem tryCoordinate_sound (hp : problem.WellPosed) (hw : w.Sound problem start) {step : Float}
    (hs : step.isNaN = false) (i : Nat) :
    (tryCoordinate problem step i w).2.Sound problem start := by
  have hbase := hw.isFinite_getD hp i
  have hup := tryMove_sound hp hw i (Double.not_isNaN_add hbase hs)
  rw [tryCoordinate]
  split
  · rename_i w' hmove
    rwa [hmove] at hup
  · rename_i w' hmove
    rw [hmove] at hup
    exact tryMove_sound hp hup i (Double.not_isNaN_sub hbase hs)

/-! ## Rounds -/

theorem sweep_invariant {P : Walk → Prop} {step : Float}
    (h : ∀ i w, P w → P (tryCoordinate problem step i w).2) (coordinates : List Nat)
    {improved : Bool} (hw : P w) : P (sweep problem step coordinates (improved, w)).2 := by
  induction coordinates generalizing improved w with
  | nil => exact hw
  | cons i rest ih => exact ih (h i w hw)

/-- What a search keeps whenever it tries a coordinate, with a step that is large enough, it keeps. -/
theorem rounds_invariant {P : Walk → Prop} {minStep : Float}
    (h : ∀ step i w, minStep ≤ step → P w → P (tryCoordinate problem step i w).2) (left : Nat)
    {done : Nat} {step : Float} (hw : P w) : P (rounds problem minStep done step w left).walk := by
  induction left generalizing done step w with
  | zero => exact hw
  | succ left ih =>
    rw [rounds]
    split
    · rename_i hstep
      exact ih (sweep_invariant (fun i w => h step i w hstep) _ hw)
    · exact hw

/-- There are at most as many rounds as are left. -/
theorem rounds_le (problem : Problem) (minStep : Float) (left done : Nat) (step : Float) (w : Walk) :
    (rounds problem minStep done step w left).rounds ≤ done + left := by
  induction left generalizing done step w with
  | zero => exact Nat.le_refl _
  | succ left ih =>
    rw [rounds]
    split
    · refine Nat.le_trans (ih _ _ _) ?_
      omega
    · exact Nat.le_add_right _ _

theorem run_rounds_le (problem : Problem) (minStep step : Float) (maxRounds : Nat) (start : Point) :
    (run problem minStep step maxRounds start).rounds ≤ maxRounds :=
  Nat.le_trans (rounds_le problem minStep maxRounds 0 step _) (Nat.le_of_eq (Nat.zero_add _))

/-- A search from a point of the domain ends soundly. -/
theorem run_sound (hp : problem.WellPosed) (h : problem.Contains start) (minStep step : Float)
    (maxRounds : Nat) : (run problem minStep step maxRounds start).walk.Sound problem start := by
  have hw : Walk.Sound problem start
      ⟨start, problem.cost start, [⟨start, problem.cost start⟩]⟩ :=
    { sound_visits := List.forall_mem_singleton.mpr ⟨rfl, rfl, h⟩
      start_mem := List.mem_singleton_self _
      held_mem := List.mem_singleton_self _
      least := List.forall_mem_singleton.mpr (Double.le_refl (hp.not_isNaN_cost start)) }
  refine rounds_invariant (fun step i w hstep hw => ?_) maxRounds hw
  -- a step that was compared with the least step is a number
  exact tryCoordinate_sound hp hw (Double.not_isNaN_of_le hstep).2 i

theorem length_tryMove (problem : Problem) (i : Nat) (target : Float) (w : Walk) :
    (tryMove problem i target w).2.point.length = w.point.length := by
  rw [tryMove]
  dsimp only
  split
  · rfl
  · split
    · exact List.length_set
    · rfl

theorem length_tryCoordinate (problem : Problem) (step : Float) (i : Nat) (w : Walk) :
    (tryCoordinate problem step i w).2.point.length = w.point.length := by
  have hup := length_tryMove problem i (w.point.getD i 0.0 + step) w
  rw [tryCoordinate]
  split
  · rename_i w' hmove
    rwa [hmove] at hup
  · rename_i w' hmove
    rw [hmove] at hup
    exact (length_tryMove problem i _ w').trans hup

/-- The dimension stays, whatever the start. -/
theorem length_run (problem : Problem) (minStep step : Float) (maxRounds : Nat) (start : Point) :
    (run problem minStep step maxRounds start).walk.point.length = start.length :=
  rounds_invariant (P := fun w => w.point.length = start.length)
    (fun step i w _ hw => (length_tryCoordinate problem step i w).trans hw) maxRounds rfl

/-! ## Steps that stay equal -/

/-- The end of a search with one step, as the end of one with a step for each coordinate. -/
def Finish.spread (dimension : Nat) (finish : Finish) : FinishEach :=
  ⟨finish.walk, List.replicate dimension finish.step, finish.rounds, finish.converged⟩

section

variable {dimension : Nat} {minStep step : Float}

theorem any_replicate_ge (hd : 0 < dimension) :
    (List.replicate dimension step).any (· ≥ minStep) = (step ≥ minStep : Bool) := by
  rw [List.any_replicate, if_neg (Nat.ne_of_gt hd)]

theorem sweepEach_replicate {coordinates : List Nat} (h : ∀ i ∈ coordinates, i < dimension)
    (improved : Bool) (w : Walk) :
    sweepEach problem (List.replicate dimension step) coordinates (improved, w) =
      sweep problem step coordinates (improved, w) := by
  induction coordinates generalizing improved w with
  | nil => rfl
  | cons i rest ih =>
    obtain ⟨hi, hrest⟩ := List.forall_mem_cons.mp h
    have hstep : (List.replicate dimension step).getD i 0.0 = step := by
      rw [List.getD_eq_getElem _ _ (by rwa [List.length_replicate]), List.getElem_replicate]
    rw [sweepEach, hstep]
    exact ih hrest _ _

theorem roundsEach_replicate (hd : 0 < dimension) (left done : Nat) (hw : w.point.length = dimension) :
    roundsEach problem minStep done (List.replicate dimension step) w left =
      (rounds problem minStep done step w left).spread dimension := by
  -- a round keeps the dimension, and then all steps are halved or none is
  induction left generalizing done step w with
  | zero =>
    rw [roundsEach, rounds, any_replicate_ge hd]
    rfl
  | succ left ih =>
    have hswept : (sweep problem step (List.range w.point.length) (false, w)).2.point.length =
        dimension :=
      sweep_invariant (P := fun w => w.point.length = dimension)
        (fun i w hw => (length_tryCoordinate problem step i w).trans hw) _ hw
    rw [roundsEach, rounds, any_replicate_ge hd, sweepEach_replicate fun i hi => by
      rw [← hw]
      exact List.mem_range.mp hi]
    dsimp only
    generalize sweep problem step (List.range w.point.length) (false, w) = swept at hswept ⊢
    obtain ⟨improved, w'⟩ := swept
    by_cases hstep : step ≥ minStep
    · rw [if_pos (decide_eq_true hstep), if_pos hstep]
      cases improved with
      | true => exact ih _ hswept
      | false =>
        rw [if_neg Bool.false_ne_true, if_neg Bool.false_ne_true, List.map_replicate]
        exact ih _ hswept
    · rw [if_neg (by simpa using hstep), if_neg hstep]
      rfl

/-- Steps that are equal at the start stay equal, and the search runs like one with a single step. -/
theorem runEach_replicate (hstart : start.length = dimension) (hd : 0 < dimension) (maxRounds : Nat) :
    runEach problem minStep (List.replicate dimension step) maxRounds start =
      (run problem minStep step maxRounds start).spread dimension :=
  roundsEach_replicate hd maxRounds 0 hstart

end

/-! ## Coordinates that cannot be moved down -/

/-- A move that is given up leaves what is held, and it did not lead down. -/
theorem tryMove_fails {i : Nat} {target : Float} (h : (tryMove problem i target w).1 = false) :
    (tryMove problem i target w).2.held = w.held ∧
      ((clampTo problem.lower problem.upper target == w.point.getD i 0.0) = false →
        ¬ problem.cost (w.point.set i (clampTo problem.lower problem.upper target)) < w.cost) := by
  rw [tryMove] at h ⊢
  dsimp only at h ⊢
  split at h
  · rename_i hsame
    rw [if_pos hsame]
    exact ⟨rfl, fun hother => absurd hsame (Bool.eq_false_iff.mp hother)⟩
  · rename_i hother
    rw [if_neg hother]
    split at h
    · cases h
    · rename_i hlt
      rw [if_neg hlt]
      exact ⟨rfl, fun _ => hlt⟩

/-- A coordinate that stays has been polled. -/
theorem tryCoordinate_fails {step : Float} {i : Nat}
    (h : (tryCoordinate problem step i w).1 = false) :
    (tryCoordinate problem step i w).2.held = w.held ∧ problem.Polled step w.held i := by
  rw [tryCoordinate] at h ⊢
  have hup := @tryMove_fails problem w i (w.point.getD i 0.0 + step)
  split at h
  · cases h
  · rename_i w' hmove
    rw [hmove] at hup
    obtain ⟨hheld, hnot⟩ := hup rfl
    obtain ⟨hheld', hnot'⟩ := tryMove_fails h
    -- the second move starts where the first one did
    have hpoint : w'.point = w.point := congrArg Visit.point hheld
    have hcost : w'.cost = w.cost := congrArg Visit.cost hheld
    rw [hpoint, hcost] at hnot'
    refine ⟨hheld'.trans hheld, ?_⟩
    intro target htarget
    rcases List.mem_pair.mp htarget with rfl | rfl
    · exact hnot
    · exact hnot'

theorem sweep_cons (problem : Problem) (step : Float) (i : Nat) (rest : List Nat) (improved : Bool)
    (w : Walk) :
    sweep problem step (i :: rest) (improved, w) =
      sweep problem step rest
        (improved || (tryCoordinate problem step i w).1, (tryCoordinate problem step i w).2) := rfl

/-- A round in which nothing moves has polled every coordinate from the same point. -/
theorem sweep_fails {step : Float} {coordinates : List Nat} {improved : Bool}
    (h : (sweep problem step coordinates (improved, w)).1 = false) :
    improved = false ∧ (sweep problem step coordinates (improved, w)).2.held = w.held ∧
      ∀ i ∈ coordinates, problem.Polled step w.held i := by
  induction coordinates generalizing improved w with
  | nil => exact ⟨h, rfl, List.forall_mem_nil _⟩
  | cons i rest ih =>
    rw [sweep_cons] at h ⊢
    obtain ⟨hnone, hheld, hrest⟩ := ih h
    obtain ⟨himproved, hmoved⟩ := Bool.or_eq_false_iff.mp hnone
    obtain ⟨hfirst, hpolled⟩ := tryCoordinate_fails hmoved
    rw [hfirst] at hheld hrest
    exact ⟨himproved, hheld, List.forall_mem_cons.mpr ⟨hpolled, hrest⟩⟩

/-- A step halved a number of times. -/
def halved (step : Float) (n : Nat) : Float := (· / 2.0)^[n] step

/-- A search ended at a point from which every coordinate has been polled with a step that is large
enough, but half of which is not. The step is the first one halved a number of times. -/
def Finish.Optimal (problem : Problem) (minStep step : Float) (finish : Finish) : Prop :=
  ∃ n, minStep ≤ halved step n ∧ ¬ minStep ≤ halved step n / 2.0 ∧
    ∀ i < finish.walk.point.length, problem.Polled (halved step n) finish.walk.held i

theorem rounds_optimal {minStep : Float} {left done : Nat} {step : Float}
    (h : (rounds problem minStep done step w left).converged = true) :
    rounds problem minStep done step w left = ⟨w, step, done, true⟩ ∧ ¬ minStep ≤ step ∨
      done < (rounds problem minStep done step w left).rounds ∧
        (rounds problem minStep done step w left).Optimal problem minStep step := by
  -- on the rounds left; the round after which none is left to do is the one that polls
  induction left generalizing done step w with
  | zero =>
    rw [rounds] at h ⊢
    have hstep : ¬ minStep ≤ step := by simpa using h
    exact .inl ⟨by simp [hstep], hstep⟩
  | succ left ih =>
    rw [rounds] at h ⊢
    split at h
    · rename_i hstep
      rw [if_pos hstep]
      have hfails := @sweep_fails problem w step (List.range w.point.length) false
      generalize sweep problem step (List.range w.point.length) (false, w) = swept at h hfails ⊢
      obtain ⟨improved, w'⟩ := swept
      refine .inr ?_
      cases improved with
      | true =>
        show _ < (rounds problem minStep (done + 1) step w' left).rounds ∧ _
        rcases ih h with ⟨-, hsmall⟩ | ⟨hrounds, hoptimal⟩
        · exact absurd hstep hsmall
        · exact ⟨Nat.lt_of_succ_lt hrounds, hoptimal⟩
      | false =>
        show _ < (rounds problem minStep (done + 1) (step / 2.0) w' left).rounds ∧
          (rounds problem minStep (done + 1) (step / 2.0) w' left).Optimal problem minStep step
        rcases ih h with ⟨heq, hsmall⟩ | ⟨hrounds, n, hle, hhalf, hpolled⟩
        · obtain ⟨-, hheld, hpolled⟩ := hfails rfl
          have hheld : w'.held = w.held := hheld
          have hpoint : w'.point = w.point := congrArg Visit.point hheld
          rw [show rounds problem minStep (done + 1) (step / 2.0) w' left = _ from heq]
          refine ⟨Nat.lt_succ_self done, 0, hstep, hsmall, fun i hi => ?_⟩
          show problem.Polled step w'.held i
          rw [hheld]
          exact hpolled i (List.mem_range.mpr (hpoint ▸ hi))
        · exact ⟨Nat.lt_of_succ_lt hrounds, n + 1, hle, hhalf, hpolled⟩
    · rename_i hstep
      rw [if_neg hstep]
      exact .inl ⟨rfl, hstep⟩

/-- A search that converges took no round because the first step is too small, or it ends at a point that
has been polled with a step whose half is. -/
theorem run_optimal {minStep step : Float} {maxRounds : Nat}
    (h : (run problem minStep step maxRounds start).converged = true) :
    (run problem minStep step maxRounds start).rounds = 0 ∧ ¬ minStep ≤ step ∨
      0 < (run problem minStep step maxRounds start).rounds ∧
        (run problem minStep step maxRounds start).Optimal problem minStep step := by
  rcases rounds_optimal h with ⟨heq, hsmall⟩ | hoptimal
  · exact .inl ⟨congrArg Finish.rounds heq, hsmall⟩
  · exact .inr hoptimal

end PatternSearch

end FormulaSearch.Fit
