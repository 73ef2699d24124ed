import FormulaSearch.CommandLine.Session
import FormulaSearch.Proofs.Search.Handed

/-!
# The cap on parameters in a session

A search looks at the number of parameters before each fit. A session that fits its template once or
repeatedly does not: there the cap only holds if the template happens to be small enough.
-/

namespace FormulaSearch

/-- Whether a search is asked for, not fits of the template. -/
def Work.Searches (w : Work) : Prop := w.options.fitOnce = false ∧ w.options.benchmark = none

namespace Session

/-! ## Handed candidates -/

/-- The candidate that the next turn of a session hands over to be fitted, if it does. -/
def handed? : Session → Option Candidate
  | .repeating job _ => if job.left = 0 then none else some job.candidate
  | .searching plan s _ => s.handedByTurn? plan
  | .ended _ _ | .crashed _ _ => none

/-- The candidates that a session hands over to be fitted: that of its template at once, or one at a turn. -/
inductive Hands (w : Work) (inv : Invocation) : Candidate → Prop where
  | once {c : Candidate} (honce : w.options.fitOnce = true)
      (hc : templateCandidate w.config = .ok c) : Hands w inv c
  | turn {c : Candidate} (n : Nat) (h : (advance n (beginWork w inv)).handed? = some c) :
      Hands w inv c

/-! ## Where a session stands -/

/-- A session repeats fits of its template, unless it is to search, or searches with its settings. It has
its dataset, so loading is over. -/
def For (w : Work) : Session → Prop
  | .repeating job _ => ¬ w.Searches ∧ templateCandidate w.config = .ok job.candidate
  | .searching plan _ _ => plan.config = w.config
  | .crashed (.load _) _ => False
  | .ended _ _ | .crashed _ _ => True

theorem for_refuse (w : Work) (t : Transcript) (message : String) : (refuse t message).For w :=
  trivial

theorem for_fitOnce (w : Work) : (fitOnce w.config w.dataset w.transcript).For w := by
  rw [fitOnce]
  dsimp only
  split
  · exact for_refuse _ _ _
  · split
    · trivial
    · exact for_refuse _ _ _
    · trivial
    · split
      · trivial
      · trivial

theorem for_beginRepetition {w : Work} {n : Int} (hn : w.options.benchmark = some n)
    (repeats : Nat) (clock : Clock) :
    (beginRepetition w.config w.dataset repeats clock w.transcript).For w := by
  rw [beginRepetition]
  dsimp only
  split
  · exact for_refuse _ _ _
  · refine ⟨fun hsearches => ?_, ‹_›⟩
    rw [hsearches.2] at hn
    cases hn

theorem for_beginSearch (w : Work) (inv : Invocation) :
    (beginSearch w.config w.dataset inv w.transcript).For w := by
  rw [beginSearch]
  split
  · exact for_refuse _ _ _
  · exact for_refuse _ _ _
  · rename_i plan hplan
    exact (SearchPlan.make_ready hplan).2.1

theorem for_beginWork (w : Work) (inv : Invocation) : (beginWork w inv).For w := by
  rw [beginWork]
  split
  · exact for_fitOnce w
  · split
    · exact for_beginRepetition ‹_› _ _
    · exact for_beginSearch w inv

theorem for_repetitionTurn {w : Work} {job : Repetition} (t : Transcript)
    (h : (Session.repeating job t).For w) : (repetitionTurn job t).For w := by
  rw [repetitionTurn]
  split
  · trivial
  · dsimp only
    split
    · exact h
    · exact for_refuse _ _ _
    · trivial
    · exact h

theorem for_endSearch (w : Work) (plan : SearchPlan) (reason : StopReason)
    (s : SearchState RandomStream Optimizer) (t : Transcript) :
    (endSearch plan reason s t).For w := by
  rw [endSearch]
  dsimp only
  split
  · trivial
  · split
    · trivial
    · split
      · trivial
      · trivial

theorem for_searchTurn {w : Work} {plan : SearchPlan} (s : SearchState RandomStream Optimizer)
    (t : Transcript) (h : plan.config = w.config) : (searchTurn plan s t).For w := by
  rw [searchTurn]
  split
  · exact for_endSearch _ _ _ _ _
  · trivial
  · exact h

/-- A turn keeps a session to what it works with. -/
theorem for_turn {w : Work} {session : Session} (h : session.For w) : session.turn.For w := by
  cases session with
  | repeating job t => exact for_repetitionTurn t h
  | searching plan s t => exact for_searchTurn s t h
  | ended | crashed => trivial

theorem for_advance {w : Work} {session : Session} (h : session.For w) (n : Nat) :
    (advance n session).For w := by
  induction n generalizing session with
  | zero => exact h
  | succ n ih => exact ih (for_turn h)

/-! ## Getting ready -/

/-- A session that gets ready to repeat fits does so at least once. -/
theorem benchmark_of_prepareWithOptions {o : Options} {inv : Invocation} {files : FileStore}
    {t : Transcript} {w : Work} (h : prepareWithOptions o inv files t = .ok w) :
    w.options.benchmark.any (· < 1) = false := by
  rw [prepareWithOptions] at h
  split at h
  · cases h
  · split at h
    · cases h
    · rename_i hcount
      split at h
      · cases h
      · split at h
        · cases h
        · cases h
        · cases h
          simpa using hcount

theorem benchmark_of_prepare {inv : Invocation} {w : Work} (h : prepare inv = .ok w) :
    w.options.benchmark.any (· < 1) = false := by
  rw [prepare] at h
  split at h
  · cases h
  · cases h
  · rw [prepareWithArguments] at h
    split at h
    · cases h
    · dsimp only at h
      split at h
      · exact benchmark_of_prepareWithOptions h
      · split at h
        · cases h
        · exact benchmark_of_prepareWithOptions h

/-! ## The cap -/

/-- What a session at work hands over is its template's candidate, unless it is to search, or has few enough
parameters. -/
theorem For.handed {w : Work} {session : Session} (h : session.For w) {c : Candidate}
    (hc : session.handed? = some c) :
    (¬ w.Searches ∧ templateCandidate w.config = .ok c) ∨
      (c.paramCount : Int) ≤ w.config.maxParams := by
  cases session with
  | repeating job t =>
    rw [handed?] at hc
    split at hc
    · cases hc
    · cases hc
      exact .inl h
  | searching plan s t =>
    have hcap := SearchState.paramCount_le_of_handedByTurn? hc
    rw [show plan.config = w.config from h] at hcap
    exact .inr hcap
  | ended | crashed => cases hc

/-- A session that is not to search hands over the candidate of its template. -/
theorem hands_template {inv : Invocation} {w : Work} (hw : prepare inv = .ok w)
    (hsearches : ¬ w.Searches) {c : Candidate} (hc : templateCandidate w.config = .ok c) :
    Hands w inv c := by
  by_cases honce : w.options.fitOnce = true
  · exact .once honce hc
  · have hpositive := benchmark_of_prepare hw
    cases hn : w.options.benchmark with
    | none => exact absurd ⟨by simpa using honce, hn⟩ hsearches
    | some n =>
      have hleft : n.toNat ≠ 0 := by
        have : ¬ n < 1 := by simpa [hn] using hpositive
        omega
      refine .turn 0 ?_
      rw [advance, beginWork, if_neg honce, hn]
      dsimp only
      rw [beginRepetition, hc]
      exact if_neg hleft

/-- A session only hands over candidates with no more parameters than are allowed exactly if it is to search
or if the candidate of its template has no more. -/
theorem cap_holds_iff {inv : Invocation} {w : Work} (hw : prepare inv = .ok w) :
    (∀ c, Hands w inv c → (c.paramCount : Int) ≤ w.config.maxParams) ↔
      w.Searches ∨ ∀ c, templateCandidate w.config = .ok c →
        (c.paramCount : Int) ≤ w.config.maxParams := by
  constructor
  · intro hcap
    by_cases hsearches : w.Searches
    · exact .inl hsearches
    · exact .inr fun c hc => hcap c (hands_template hw hsearches hc)
  · intro hsmall c hc
    cases hc with
    | once honce hc =>
      rcases hsmall with ⟨hnot, -⟩ | hsmall
      · rw [honce] at hnot
        cases hnot
      · exact hsmall c hc
    | turn n hc =>
      rcases (for_advance (for_beginWork w inv) n).handed hc with ⟨hnot, hc⟩ | hle
      · rcases hsmall with hsearches | hsmall
        · exact absurd hsearches hnot
        · exact hsmall c hc
      · exact hle

/-- A search that allows one parameter. -/
theorem cap_holds_search :
    let inv : Invocation :=
      { arguments := ["data.dat", "--max-params", "1"]
        files := ⟨[(["data.dat"], .file [48, 32, 48, 10])]⟩
        clockStep := 0.0 }
    ∃ w, prepare inv = .ok w ∧ w.config.maxParams = 1 ∧
      ∀ c, Hands w inv c → (c.paramCount : Int) ≤ w.config.maxParams := by
  intro inv
  have hready : (match prepare inv with
      | .ok w => !w.options.fitOnce && w.options.benchmark.isNone && w.config.maxParams == 1
      | .error _ => false) = true := by decide +kernel
  split at hready
  · rename_i w hw
    have hsearches : (w.options.fitOnce = false ∧ w.options.benchmark = none) ∧
        w.config.maxParams = 1 := by simpa using hready
    exact ⟨w, hw, hsearches.2, (cap_holds_iff hw).mpr (.inl hsearches.1)⟩
  · cases hready

/-- Where one parameter is allowed, the template `a+b` is fitted once and the fit is done. -/
theorem fitOnce_exceeds_cap :
    let inv : Invocation :=
      { arguments :=
          ["data.dat", "--fit-once", "--template", "a+b", "--max-params", "1", "--min-step", "2"]
        files := ⟨[(["data.dat"], .file [48, 32, 48, 10])]⟩
        clockStep := 0.0 }
    ∃ w c, prepare inv = .ok w ∧ Hands w inv c ∧ w.config.maxParams = 1 ∧ c.paramCount = 2 ∧
      ∃ t, start inv = .ended exitDone t := by
  intro inv
  have hready : (match prepare inv with
      | .ok w => w.options.fitOnce && w.config.maxParams == 1 &&
        (templateCandidate w.config).toOption.map Candidate.paramCount == some 2
      | .error _ => false) = true := by decide +kernel
  have hended : (match start inv with
      | .ended code _ => code == exitDone
      | _ => false) = true := by decide +kernel
  split at hready
  · rename_i w hw
    obtain ⟨⟨honce, hallowed⟩, hcount⟩ : (w.options.fitOnce = true ∧ w.config.maxParams = 1) ∧
        (templateCandidate w.config).toOption.map Candidate.paramCount = some 2 := by
      simpa using hready
    cases hc : templateCandidate w.config with
    | error e =>
      rw [hc] at hcount
      cases hcount
    | ok c =>
      rw [hc] at hcount
      refine ⟨w, c, hw, .once honce hc, hallowed, Option.some.inj hcount, ?_⟩
      split at hended
      · rename_i t hstart
        obtain rfl := beq_iff_eq.mp hended
        exact ⟨t, hstart⟩
      · cases hended
  · cases hready

end Session

end FormulaSearch
