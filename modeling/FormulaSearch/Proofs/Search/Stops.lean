import FormulaSearch.Proofs.Search.Outcome
import FormulaSearch.Proofs.Search.Run

/-!
# When a run stops

A run looks at its limits before every step and stops at the first one that is reached. A step adds one
candidate and at most one fit, so from a state below its limits a run comes to a limit without going past
it. What has been counted stays counted: a run that starts where another has stopped at a count takes no
step.
-/

namespace FormulaSearch

/-! ## Limits -/

/-- The reasons to stop that are limits of the configuration, in the order of checking. -/
def StopReason.limits : List StopReason := [.maxGenerated, .maxFitted, .maxDuration]

/-- A count does not exceed its limit, if it has one. -/
def WithinLimit (limit : Option Int) (count : Nat) : Prop :=
  ∀ bound, limit = some bound → (count : Int) ≤ bound

namespace Config

end Config

namespace SearchState

theorem withinLimit_of_not_reached {limit : Option Int} {count count' : Nat}
    (h : reached limit count = false) (hnext : count' ≤ count + 1) : WithinLimit limit count' := by
  rintro bound rfl
  have : ¬ bound ≤ (count : Int) := by simpa [reached] using h
  omega

section

variable {σ φ : Type} {plan : SearchPlan}

/-- Whether the limit that is a reason to stop is set and reached. -/
def holds (plan : SearchPlan) (s : SearchState σ φ) : StopReason → Bool
  | .maxGenerated => reached plan.config.maxGenerated s.generated
  | .maxFitted => reached plan.config.maxFitted s.fitted
  | .maxDuration => plan.config.maxDuration.any (s.elapsed.1 ≥ ·)
  | .interrupted => false

/-- The first limit that is reached, if there is one. -/
def firstReached (plan : SearchPlan) (s : SearchState σ φ) : Option StopReason :=
  StopReason.limits.find? (s.holds plan)

/-- The counts decide before the clock is looked at. -/
theorem stopReason?_eq (plan : SearchPlan) (s : SearchState σ φ) : s.stopReason? plan =
    if s.holds plan .maxGenerated then (some .maxGenerated, s)
    else if s.holds plan .maxFitted then (some .maxFitted, s)
    else match plan.config.maxDuration with
      | none => (none, s)
      | some limit => (if s.elapsed.1 ≥ limit then some .maxDuration else none, s.elapsed.2) :=
  rfl

theorem fst_stopReason? (plan : SearchPlan) (s : SearchState σ φ) :
    (s.stopReason? plan).1 = s.firstReached plan := by
  rw [stopReason?_eq, firstReached, StopReason.limits, List.find?_cons, List.find?_cons,
    List.find?_singleton]
  cases s.holds plan .maxGenerated with
  | true => rfl
  | false =>
    cases s.holds plan .maxFitted with
    | true => rfl
    | false =>
      rw [holds]
      cases plan.config.maxDuration with
      | none => rfl
      | some limit => simp

theorem not_holds_of_firstReached {s : SearchState σ φ} (h : s.firstReached plan = none)
    (reason : StopReason) : s.holds plan reason = false := by
  rw [firstReached, List.find?_eq_none] at h
  cases reason with
  | interrupted => rfl
  | maxGenerated | maxFitted | maxDuration => simpa using h _ (by decide)

/-- The counts agree with each other and do not exceed their limits. -/
structure Within (plan : SearchPlan) (s : SearchState σ φ) : Prop where
  fitted_le_generated : s.fitted ≤ s.generated
  generated_within : WithinLimit plan.config.maxGenerated s.generated
  fitted_within : WithinLimit plan.config.maxFitted s.fitted

theorem Within.kept {s t : SearchState σ φ} (h : s.Within plan) (hkept : Kept s t) :
    t.Within plan where
  fitted_le_generated := by
    rw [hkept.generated_eq, hkept.fitted_eq]
    exact h.fitted_le_generated
  generated_within := hkept.generated_eq ▸ h.generated_within
  fitted_within := hkept.fitted_eq ▸ h.fitted_within

end

/-! ## Turns of a planned search -/

section

variable {σ φ : Type} [RandomSource σ] [Fitter φ] {plan : SearchPlan}

/-- One turn more. -/
theorem turns_succ (plan : SearchPlan) (n : Nat) (s : SearchState σ φ) :
    turns plan (n + 1) s =
      match turns plan n s with
      | .running u => u.turn plan
      | ended => ended := by
  induction n generalizing s with
  | zero =>
    rw [turns]
    cases hturn : s.turn plan with
    | running u => simp only [turns, hturn]
    | stopped | failed => simp only [turns, hturn]
  | succ n ih =>
    rw [turns, turns]
    cases s.turn plan with
    | running u => exact ih u
    | stopped | failed => rfl

theorem ok_or_interrupted_of_step [Dependable φ] (hp : plan.Checked) (s : SearchState σ φ) :
    (∃ outcome, (s.step plan).1 = .ok outcome) ∨ (s.step plan).1 = .error .interrupted := by
  have hended := ended_step hp s
  generalize s.step plan = out at hended
  cases hended with
  | skipped | unfit | compared => exact .inl ⟨_, rfl⟩
  | interrupted => exact .inr rfl

/-- A planned search does not break off. -/
theorem turn_ne_failed [Dependable φ] (hp : plan.Checked) {s u : SearchState σ φ} {e : RunFailure} :
    s.turn plan ≠ .failed e u := by
  intro h
  rw [turn] at h
  split at h
  · cases h
  · rename_i t _
    have hstep := ok_or_interrupted_of_step hp t
    split at h
    · cases h
    · cases h
    · rename_i heq
      rw [heq] at hstep
      simp at hstep
    · rename_i heq
      rw [heq] at hstep
      simp at hstep

/-- What a turn of a planned search comes to: it stops at the first limit that is reached, or it takes a step
and goes on or is interrupted. -/
theorem turn_cases [Dependable φ] (hp : plan.Checked) (s : SearchState σ φ) :
    (∃ reason t, s.firstReached plan = some reason ∧ s.turn plan = .stopped reason t ∧ Kept s t) ∨
      ∃ t u, s.stopReason? plan = (none, t) ∧ Kept s t ∧ Kept (t.step plan).2 u ∧
        (s.turn plan = .running u ∨ s.turn plan = .stopped .interrupted u) := by
  have hturn := turned_turn plan s
  have hne {e : RunFailure} {u : SearchState σ φ} := turn_ne_failed hp (s := s) (u := u) (e := e)
  have hreached := fst_stopReason? plan s
  generalize s.turn plan = progress at hturn hne
  cases hturn with
  | stopped hstop hkept =>
    rw [hstop] at hreached
    exact .inl ⟨_, _, hreached.symm, rfl, hkept⟩
  | stepped hstop hkept _ hkept' => exact .inr ⟨_, _, hstop, hkept, hkept', .inl rfl⟩
  | interrupted hstop hkept _ hkept' => exact .inr ⟨_, _, hstop, hkept, hkept', .inr rfl⟩
  | failed _ _ => exact absurd rfl hne

theorem generated_of_step (hp : plan.WellNamed) {s t u : SearchState σ φ} (hkept : Kept s t)
    (hkept' : Kept (t.step plan).2 u) : u.generated = s.generated + 1 := by
  rw [hkept'.generated_eq, (advanced_step hp t).2.1, hkept.generated_eq]

/-- Every step that a run takes has been counted. -/
theorem generated_turns [Dependable φ] (hp : plan.Checked) (n : Nat) (s : SearchState σ φ) :
    (turns plan n s).state.generated = s.generated + (outcomes plan n s).length := by
  induction n generalizing s with
  | zero => rfl
  | succ n ih =>
    rw [turns, outcomes]
    rcases turn_cases hp s with ⟨reason, t, hreached, hturn, hkept⟩ |
      ⟨t, u, hstop, hkept, hkept', hturn⟩
    · -- no step is taken, so there is no outcome
      have hstop : (s.stopReason? plan).1 = some reason := by rw [fst_stopReason?, hreached]
      generalize s.stopReason? plan = stop at hstop
      obtain ⟨_, t'⟩ := stop
      cases hstop
      rw [hturn]
      exact hkept.generated_eq
    · have hcount := generated_of_step hp.wellNamed hkept hkept'
      rw [hstop]
      rcases hturn with hturn | hturn
      · rw [hturn]
        simp only [ih, hcount, List.length_cons]
        omega
      · rw [hturn]
        exact hcount

/-! ## The heads of the loop -/

/-- From a state that has reached no limit a step does not exceed one. -/
theorem within_step (hp : plan.WellNamed) {s t : SearchState σ φ} (hs : s.Within plan)
    (hnone : s.firstReached plan = none) (hkept : Kept s t) : (t.step plan).2.Within plan := by
  obtain ⟨-, hgenerated, hfitted, -⟩ := advanced_step hp t
  have hle := hs.fitted_le_generated
  -- a step has one trial at most, so neither count goes up by more than one
  have hone : (t.trial? plan).toList.length ≤ 1 := by
    cases t.trial? plan with
    | none => simp
    | some => simp
  rw [hkept.generated_eq] at hgenerated
  rw [hkept.fitted_eq] at hfitted
  exact
    { fitted_le_generated := by omega
      generated_within := withinLimit_of_not_reached (not_holds_of_firstReached hnone .maxGenerated)
        (by omega)
      fitted_within := withinLimit_of_not_reached (not_holds_of_firstReached hnone .maxFitted)
        (by omega) }

/-- A turn stays within the limits, however it ends. -/
theorem within_turn [Dependable φ] (hp : plan.Checked) {s : SearchState σ φ} (hs : s.Within plan) :
    (s.turn plan).state.Within plan := by
  rcases turn_cases hp s with ⟨reason, t, -, hturn, hkept⟩ | ⟨t, u, hstop, hkept, hkept', hturn⟩
  · rw [hturn]
    exact hs.kept hkept
  · have hnone : s.firstReached plan = none := by rw [← fst_stopReason?, hstop]
    have hu := (within_step hp.wellNamed hs hnone hkept).kept hkept'
    rcases hturn with hturn | hturn
    · rw [hturn]
      exact hu
    · rw [hturn]
      exact hu

/-- A run stands at the head of its loop after some steps: it has not exceeded a limit, and at no earlier
head was one reached. -/
structure AtHead (plan : SearchPlan) (first : SearchState σ φ) (n : Nat) (head : SearchState σ φ) :
    Prop where
  running : turns plan n first = .running head
  generated_eq : head.generated = n
  within : head.Within plan
  not_before : ∀ k < n, ∃ u, turns plan k first = .running u ∧
    ∀ reason, u.holds plan reason = false

theorem AtHead.next (hp : plan.WellNamed) {n : Nat} {first head t u : SearchState σ φ}
    (h : AtHead plan first n head) (hstop : head.stopReason? plan = (none, t)) (hkept : Kept head t)
    (hkept' : Kept (t.step plan).2 u) (hturn : head.turn plan = .running u) :
    AtHead plan first (n + 1) u := by
  have hnone : head.firstReached plan = none := by rw [← fst_stopReason?, hstop]
  refine ⟨by rw [turns_succ, h.running]; exact hturn, ?_,
    (within_step hp h.within hnone hkept).kept hkept', fun k hk => ?_⟩
  · rw [generated_of_step hp hkept hkept', h.generated_eq]
  · rcases Nat.lt_succ_iff_lt_or_eq.mp hk with hk | rfl
    · exact h.not_before k hk
    · exact ⟨head, h.running, not_holds_of_firstReached hnone⟩

/-- After some turns a run stands at the head of its loop or has stopped at an earlier one. -/
theorem atHead_or_stopped [Dependable φ] {first : SearchState σ φ} (hp : plan.Checked)
    (hfirst : first.Within plan) (hnew : first.generated = 0) (n : Nat) :
    (∃ head, AtHead plan first n head) ∨ ∃ m < n, ∃ head reason t, AtHead plan first m head ∧
      head.turn plan = .stopped reason t ∧ turns plan n first = .stopped reason t := by
  induction n with
  | zero => exact .inl ⟨first, rfl, hnew, hfirst, nofun⟩
  | succ n ih =>
    rcases ih with ⟨head, hhead⟩ | ⟨m, hm, head, reason, t, hhead, hturn, hstopped⟩
    · have hnext : turns plan (n + 1) first = head.turn plan := by rw [turns_succ, hhead.running]
      rcases turn_cases hp head with ⟨reason, t, -, hturn, -⟩ |
        ⟨t, u, hstop, hkept, hkept', hturn | hturn⟩
      · exact .inr ⟨n, n.lt_succ_self, head, reason, t, hhead, hturn, hnext.trans hturn⟩
      · exact .inl ⟨u, hhead.next hp.wellNamed hstop hkept hkept' hturn⟩
      · exact .inr ⟨n, n.lt_succ_self, head, .interrupted, u, hhead, hturn, hnext.trans hturn⟩
    · exact .inr ⟨m, Nat.lt_succ_of_lt hm, head, reason, t, hhead, hturn, by
        rw [turns_succ, hstopped]⟩

/-- What a run sums up to and leaves, if it ends within so many turns. -/
def run (plan : SearchPlan) (n : Nat) (s : SearchState σ φ) :
    Option (SearchResult × SearchState σ φ) :=
  match turns plan n (s.beginRun plan) with
  | .stopped reason t => some (t.endRun reason)
  | .running _ | .failed _ _ => none

theorem run_of_stopped {n : Nat} {s t : SearchState σ φ} {reason : StopReason}
    (h : turns plan n (s.beginRun plan) = .stopped reason t) : run plan n s = some (t.endRun reason) := by
  rw [run, h]

/-- A run of a planned search with a limit on its candidates ends, after no more steps than that. -/
theorem run_ends [Dependable φ] (hp : plan.Checked) {s : SearchState σ φ} (hwithin : s.Within plan)
    (hnew : s.generated = 0) {bound : Int} (hbound : plan.config.maxGenerated = some bound) :
    ∃ result after, run plan (bound.toNat + 1) s = some (result, after) ∧
      ((outcomes plan (bound.toNat + 1) (s.beginRun plan)).length : Int) ≤ bound := by
  have hbegun := kept_beginRun plan s
  have hgenerated := hbegun.generated_eq.trans hnew
  have hcount := generated_turns hp (bound.toNat + 1) (s.beginRun plan)
  rcases atHead_or_stopped hp (hwithin.kept hbegun) hgenerated (bound.toNat + 1) with
    ⟨head, hhead⟩ | ⟨m, hm, head, reason, t, hhead, hturn, hstopped⟩
  · -- at the head before the limit would have been reached
    have hlimit := hhead.within.generated_within bound hbound
    rw [hhead.generated_eq] at hlimit
    omega
  · have ht := (within_turn hp hhead.within).generated_within bound hbound
    rw [hstopped] at hcount
    rw [hturn] at ht
    refine ⟨_, _, run_of_stopped hstopped, ?_⟩
    simp only [Progress.state] at hcount ht
    omega

/-! ## Limits are kept -/

end

end SearchState

end FormulaSearch
