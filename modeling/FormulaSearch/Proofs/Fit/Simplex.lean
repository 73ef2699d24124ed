import FormulaSearch.Fit.Simplex
import FormulaSearch.Proofs.Double

/-!
# The simplex keeps evaluated points

Every vertex of the simplex holds the cost of its point, has the dimension of the search and is one of
the points that were evaluated. An iteration only drops vertices, evaluates new ones and sorts, so that
there is always one vertex more than there are parameters. Vertices between which there is a distance
consist of numbers, so the search does not converge at a point that has none for a coordinate.
-/

namespace FormulaSearch.Fit.Simplex

/-- A point of the dimension with its own cost. -/
structure Evaluated (problem : Problem) (dimension : Nat) (v : Visit) : Prop where
  cost_eq : v.cost = problem.cost v.point
  length_eq : v.point.length = dimension

/-- Every vertex is an evaluated point of the record. -/
def State.Sound (problem : Problem) (dimension : Nat) (s : State) : Prop :=
  ∀ v ∈ s.vertices, Evaluated problem dimension v ∧ v ∈ s.visits

variable {problem : Problem} {dimension : Nat}

/-! ## Dimensions -/

theorem evaluated_visit {p : Point} (h : p.length = dimension) :
    Evaluated problem dimension (visit problem (clip problem p)) :=
  ⟨rfl, by simpa [visit, clip] using h⟩

theorem length_zipWith {f : Float → Float → Float} {p q : Point} (hp : p.length = dimension)
    (hq : q.length = dimension) : (List.zipWith f p q).length = dimension := by
  rw [List.length_zipWith, hp, hq, Nat.min_self]

theorem length_centroid {points : List Point} (h : ∀ p ∈ points, p.length = dimension) :
    (centroid dimension points).length = dimension := by
  have hsum (sum : Point) (hs : sum.length = dimension) :
      (points.foldl (List.zipWith (· + ·)) sum).length = dimension := by
    induction points generalizing sum with
    | nil => exact hs
    | cons p points ih =>
      exact ih (fun q hq => h q (List.mem_cons_of_mem p hq)) _
        (length_zipWith hs (h p (List.mem_cons_self ..)))
  rw [centroid, List.length_map]
  exact hsum _ List.length_replicate

theorem length_corners (problem : Problem) {start : Point} :
    ∀ p ∈ corners problem start, p.length = start.length := by
  intro p hp
  obtain ⟨q, hq, rfl⟩ := List.mem_map.mp hp
  have hlen : q.length = start.length := by
    rcases List.mem_cons.mp hq with rfl | hq
    · rfl
    · obtain ⟨k, -, rfl⟩ := List.mem_map.mp hq
      exact List.length_set
  simpa [clip] using hlen

/-! ## One iteration -/

/-- A point put in the place of the worst vertex has been evaluated. -/
def Move.Sound (problem : Problem) (dimension : Nat) (chosen : Move × List Visit) : Prop :=
  ∀ v, chosen.1 = .replace v → Evaluated problem dimension v ∧ v ∈ chosen.2

theorem sound_begin (problem : Problem) (start : Point) :
    (begin problem start).Sound problem start.length := by
  intro v hv
  have hv : v ∈ (corners problem start).map (visit problem) := by
    simpa [begin, sort] using hv
  refine ⟨?_, by simpa [begin] using hv⟩
  obtain ⟨p, hp, rfl⟩ := List.mem_map.mp hv
  exact ⟨rfl, length_corners problem p hp⟩

section

variable {mean : Point} {best second worst : Visit} (hm : mean.length = dimension)
  (hw : worst.point.length = dimension)
include hm hw

theorem sound_contract (reflected : Visit) :
    Move.Sound problem dimension (contract problem mean worst reflected) := by
  have hout : Evaluated problem dimension (visit problem (clip problem
      (reflect 1.5 mean 0.5 worst.point))) := evaluated_visit (length_zipWith hm hw)
  have hin : Evaluated problem dimension (visit problem (clip problem
      (affine 0.5 mean 0.5 worst.point))) := evaluated_visit (length_zipWith hm hw)
  intro v hv
  rw [contract] at hv ⊢
  split at hv
  · rw [if_pos ‹_›]
    dsimp only at hv ⊢
    split at hv
    · cases hv
      exact ⟨hout, by simp⟩
    · cases hv
  · rw [if_neg ‹_›]
    dsimp only at hv ⊢
    split at hv
    · cases hv
      exact ⟨hin, by simp⟩
    · cases hv

theorem sound_chooseMove :
    Move.Sound problem dimension (chooseMove problem mean best second worst) := by
  have hr : Evaluated problem dimension (visit problem (clip problem
      (reflect 2.0 mean 1.0 worst.point))) := evaluated_visit (length_zipWith hm hw)
  have he : Evaluated problem dimension (visit problem (clip problem
      (reflect 3.0 mean 2.0 worst.point))) := evaluated_visit (length_zipWith hm hw)
  have hc : Move.Sound problem dimension (contract problem mean worst (visit problem (clip problem
      (reflect 2.0 mean 1.0 worst.point)))) := sound_contract hm hw _
  rw [chooseMove]
  dsimp only
  split
  · intro v hv
    cases hv
    dsimp only
    split
    · exact ⟨he, by simp⟩
    · exact ⟨hr, by simp⟩
  · split
    · intro v hv
      cases hv
      exact ⟨hr, by simp⟩
    · intro v hv
      obtain ⟨heval, hmem⟩ := hc v hv
      exact ⟨heval, List.mem_append_left _ hmem⟩

end

/-- What an iteration makes of a simplex: one of two or more vertices has its worst vertex replaced, or all
but the best drawn nearer to the best. -/
inductive Iterated (problem : Problem) (s : State) : State → Prop where
  | idle : Iterated problem s s
  | replaced {best second worst v : Visit} {others seen : List Visit}
      (vertices_eq : s.vertices = best :: others) (others_ne : others ≠ [])
      (worst_mem : worst ∈ s.vertices)
      (chosen : chooseMove problem (centroid best.point.length (s.vertices.dropLast.map (·.point)))
        best second worst = (.replace v, seen)) :
      Iterated problem s ⟨sort (s.vertices.dropLast ++ [v]), seen ++ s.visits⟩
  | shrunk {best second worst : Visit} {others seen : List Visit}
      (vertices_eq : s.vertices = best :: others) (worst_mem : worst ∈ s.vertices)
      (chosen : chooseMove problem (centroid best.point.length (s.vertices.dropLast.map (·.point)))
        best second worst = (.shrink, seen)) :
      Iterated problem s ⟨sort (best :: others.map (shrinkVertex problem best)),
        (others.map (shrinkVertex problem best)).reverse ++ seen ++ s.visits⟩

theorem iterated (problem : Problem) (s : State) : Iterated problem s (iterate problem s) := by
  rw [iterate]
  split
  · rename_i best others worst second more hvertices hreverse
    have hworst : worst ∈ s.vertices := List.mem_reverse.mp (by simp [hreverse])
    have hothers : others ≠ [] := by
      rintro rfl
      simp [hvertices] at hreverse
    dsimp only
    split
    · exact .replaced hvertices hothers hworst ‹_›
    · exact .shrunk hvertices hworst ‹_›
  · exact .idle

section

variable {s : State} (hs : s.Sound problem dimension) {best worst : Visit} {others : List Visit}
  (hvertices : s.vertices = best :: others)
include hs hvertices

theorem length_mean : (centroid best.point.length
    (s.vertices.dropLast.map (·.point))).length = dimension := by
  rw [(hs best (by simp [hvertices])).1.length_eq]
  refine length_centroid fun p hp => ?_
  obtain ⟨v, hv, rfl⟩ := List.mem_map.mp hp
  exact (hs v (List.dropLast_subset _ hv)).1.length_eq

theorem sound_chosen (hworst : worst ∈ s.vertices) (second : Visit) :
    Move.Sound problem dimension (chooseMove problem
      (centroid best.point.length (s.vertices.dropLast.map (·.point))) best second worst) :=
  sound_chooseMove (length_mean hs hvertices) (hs worst hworst).1.length_eq

end

theorem sound_iterate {s : State} (hs : s.Sound problem dimension) :
    (iterate problem s).Sound problem dimension := by
  have hiterated := iterated problem s
  generalize iterate problem s = next at hiterated ⊢
  cases hiterated with
  | idle => exact hs
  | @replaced best second _ v _ _ hvertices _ hworst hchosen =>
    have hmove := sound_chosen hs hvertices hworst second
    rw [hchosen] at hmove
    intro u hu
    rcases List.mem_append.mp (List.mem_mergeSort.mp hu) with hu | hu
    · obtain ⟨heval, hmem⟩ := hs u (List.dropLast_subset _ hu)
      exact ⟨heval, List.mem_append_right _ hmem⟩
    · obtain rfl := List.mem_singleton.mp hu
      obtain ⟨heval, hmem⟩ := hmove u rfl
      exact ⟨heval, List.mem_append_left _ hmem⟩
  | @shrunk best _ _ others _ hvertices _ _ =>
    have hbest : best ∈ s.vertices := by simp [hvertices]
    -- all vertices but the best are evaluated anew
    intro u hu
    rcases List.mem_cons.mp (List.mem_mergeSort.mp hu) with rfl | hu
    · obtain ⟨heval, hmem⟩ := hs u hbest
      exact ⟨heval, List.mem_append_right _ hmem⟩
    · refine ⟨?_, List.mem_append_left _ (List.mem_append_left _ (List.mem_reverse.mpr hu))⟩
      obtain ⟨v, hv, rfl⟩ := List.mem_map.mp hu
      have hv : v ∈ s.vertices := by simp [hvertices, hv]
      exact evaluated_visit (length_zipWith (hs best hbest).1.length_eq (hs v hv).1.length_eq)

/-! ## The search -/

theorem sound_iterations (minStep : Float) (left : Nat) {done : Nat} {s : State}
    (hs : s.Sound problem dimension) :
    (iterations problem minStep done s left).state.Sound problem dimension := by
  induction left generalizing done s with
  | zero => exact hs
  | succ left ih =>
    rw [iterations]
    split
    · exact hs
    · exact ih (sound_iterate hs)

/-- The search ends with vertices that were evaluated. -/
theorem sound_run (problem : Problem) (minStep : Float) (maxIterations : Nat) (start : Point) :
    (run problem minStep maxIterations start).state.Sound problem start.length :=
  sound_iterations minStep _ (sound_begin problem start)

/-! ## Convergence -/

theorem length_sort (vertices : List Visit) : (sort vertices).length = vertices.length :=
  List.length_mergeSort _

theorem length_iterate (s : State) :
    (iterate problem s).vertices.length = s.vertices.length := by
  have hiterated := iterated problem s
  generalize iterate problem s = next at hiterated ⊢
  cases hiterated with
  | idle => rfl
  | replaced hvertices =>
    rw [length_sort, List.length_append, List.length_dropLast, hvertices]
    rfl
  | shrunk hvertices =>
    rw [length_sort, List.length_cons, List.length_map, hvertices, List.length_cons]

theorem length_iterations (minStep : Float) (left : Nat) {done : Nat} {s : State} :
    (iterations problem minStep done s left).state.vertices.length = s.vertices.length := by
  induction left generalizing done s with
  | zero => rfl
  | succ left ih =>
    rw [iterations]
    split
    · rfl
    · rw [ih, length_iterate]

theorem length_run (problem : Problem) (minStep : Float) (maxIterations : Nat) (start : Point) :
    (run problem minStep maxIterations start).state.vertices.length = start.length + 1 := by
  rw [run, length_iterations, begin, length_sort]
  simp [corners]

/-- Fewer iterations than allowed are enough only for vertices that are close together. -/
theorem hasConverged_iterations {minStep : Float} {left done : Nat} {s : State}
    (h : (iterations problem minStep done s left).iterations < done + left) :
    hasConverged minStep (iterations problem minStep done s left).state.vertices = true := by
  induction left generalizing done s with
  | zero =>
    simp only [iterations] at h
    omega
  | succ left ih =>
    unfold iterations at h ⊢
    split
    · assumption
    · rw [if_neg ‹_›] at h
      exact ih (by omega)

theorem not_isNaN_of_greater {m x : Float}
    (h : (if m.isNaN then m else if x.isNaN || x > m then x else m).isNaN = false) :
    m.isNaN = false ∧ x.isNaN = false := by
  cases hm : m.isNaN with
  | true =>
    rw [if_pos hm, hm] at h
    cases h
  | false =>
    rw [if_neg (by rw [hm]; decide)] at h
    cases hx : x.isNaN with
    | true =>
      rw [hx, Bool.true_or, if_pos rfl, hx] at h
      cases h
    | false => exact ⟨rfl, rfl⟩

/-- The greatest is a number only if all are. -/
theorem not_isNaN_of_greatest {vs : List Float} (h : (greatest vs).isNaN = false) :
    ∀ v ∈ vs, v.isNaN = false := by
  cases vs with
  | nil => exact List.forall_mem_nil _
  | cons v vs =>
    rw [greatest] at h
    induction vs generalizing v with
    | nil => exact List.forall_mem_singleton.mpr h
    | cons x vs ih =>
      obtain ⟨hgreater, hvs⟩ := List.forall_mem_cons.mp (ih _ h)
      obtain ⟨hv, hx⟩ := not_isNaN_of_greater hgreater
      exact List.forall_mem_cons.mpr ⟨hv, List.forall_mem_cons.mpr ⟨hx, hvs⟩⟩

/-- A simplex of two or more vertices has converged only if its best one consists of numbers. -/
theorem numeric_of_hasConverged {minStep : Float} {best other : Visit} {others : List Visit}
    (h : hasConverged minStep (best :: other :: others) = true)
    (hlength : other.point.length = best.point.length) : ∀ x ∈ best.point, x.isNaN = false := by
  rw [hasConverged, Bool.and_eq_true, decide_eq_true_iff] at h
  have hdistances := not_isNaN_of_greatest (Double.not_isNaN_of_le h.1).1
  intro x hx
  obtain ⟨i, hi, rfl⟩ := List.mem_iff_getElem.mp hx
  have hdistance : ((other.point[i] - best.point[i]).abs).isNaN = false := by
    refine hdistances _ (List.mem_flatMap.mpr ⟨other, List.mem_cons_self .., ?_⟩)
    exact List.mem_iff_getElem.mpr ⟨i, by simp [hlength, hi], by simp⟩
  exact (Double.not_isNaN_of_distance hdistance).2

/-- A search over some parameters that ends in time ends at numbers. -/
theorem numeric_run {minStep : Float} {maxIterations : Nat} {start : Point}
    (hstart : 0 < start.length)
    (h : (run problem minStep maxIterations start).iterations < maxIterations) {best : Visit}
    {others : List Visit}
    (hvertices : (run problem minStep maxIterations start).state.vertices = best :: others) :
    ∀ x ∈ best.point, x.isNaN = false := by
  have hconverged : hasConverged minStep
      (run problem minStep maxIterations start).state.vertices = true :=
    hasConverged_iterations (by rw [run] at h; omega)
  have hlength := length_run problem minStep maxIterations start
  have hsound := sound_run problem minStep maxIterations start
  rw [State.Sound, hvertices] at hsound
  rw [hvertices] at hconverged hlength
  cases others with
  | nil =>
    rw [List.length_singleton] at hlength
    omega
  | cons other others =>
    refine numeric_of_hasConverged hconverged ?_
    rw [(hsound other (by simp)).1.length_eq, (hsound best (by simp)).1.length_eq]

/-! ## Two vertices -/

theorem sort_pair (u v : Visit) : sort [u, v] = if v.cost < u.cost then [v, u] else [u, v] := by
  rw [sort, List.mergeSort]
  simp [List.MergeSort.Internal.splitInTwo, List.merge]

/-- The first simplex for one parameter, in order. -/
theorem begin_singleton (problem : Problem) (x : Float) : begin problem [x] =
    let u := visit problem (clip problem [turnBack problem.upper x])
    let v := visit problem (clip problem [turnBack problem.upper (enlarge x)])
    ⟨if v.cost < u.cost then [v, u] else [u, v], [v, u]⟩ := by
  rw [begin, show (corners problem [x]).map (visit problem) = [_, _] from rfl, sort_pair]
  rfl

end FormulaSearch.Fit.Simplex
