import FormulaSearch.Proofs.Fit.PatternSearch
import FormulaSearch.Proofs.Fit.Simplex

/-!
# The simplex holds the best point it has seen

Every point that the search evaluates has been moved into the domain, the start is one of them, and the
first vertex has the least cost of all. A move is chosen so that no evaluated point is lost that is better
than both the best vertex and the one that comes in, whichever way the reflected point is followed up; and
the best vertex is never the one that goes. Sorting puts a vertex of the least cost first, because costs are
numbers and numbers can be compared.
-/

namespace FormulaSearch.Fit.Simplex

variable {problem : Problem} {dimension : Nat}

/-! ## Points moved into the domain -/

/-- A visit to a point of the dimension that was moved into the domain. -/
def Clipped (problem : Problem) (dimension : Nat) (v : Visit) : Prop :=
  ∃ p : Point, p.length = dimension ∧ v = visit problem (clip problem p)

theorem Clipped.cost_eq {v : Visit} (h : Clipped problem dimension v) :
    v.cost = problem.cost v.point := by
  obtain ⟨p, -, rfl⟩ := h
  rfl

theorem Clipped.length_eq {v : Visit} (h : Clipped problem dimension v) :
    v.point.length = dimension := by
  obtain ⟨p, hp, rfl⟩ := h
  simpa [visit, clip] using hp

/-- Where it has numbers for coordinates, they lie in the domain. -/
theorem Clipped.contains {v : Visit} (hle : problem.lower ≤ problem.upper)
    (h : Clipped problem dimension v) (hn : ∀ x ∈ v.point, x.isNaN = false) :
    problem.Contains v.point := by
  obtain ⟨p, -, rfl⟩ := h
  intro x hx
  have hx' := hn x hx
  obtain ⟨y, -, rfl⟩ := List.mem_map.mp hx
  exact Double.isWithin_clampTo hle (Double.not_isNaN_of_clampTo hx')

/-- A point of the domain stays where it is. -/
theorem clip_of_contains {p : Point} (h : problem.Contains p) : clip problem p = p :=
  (List.map_congr_left fun v hv => Double.clampTo_of_isWithin (h v hv)).trans (List.map_id p)

theorem turnBack_of_le {upper v : Float} (h : v ≤ upper) : turnBack upper v = v :=
  if_neg fun hlt => Double.not_le_of_lt hlt h

/-- A start in the domain is a corner of the first simplex. -/
theorem start_mem_corners {start : Point} (h : problem.Contains start) :
    start ∈ corners problem start := by
  refine List.mem_map.mpr ⟨start, List.mem_cons_self .., ?_⟩
  have hsame : start.map (turnBack problem.upper) = start :=
    (List.map_congr_left fun v hv =>
      turnBack_of_le (Double.isWithin_iff.mp (h v hv)).2).trans (List.map_id start)
  rw [hsame, clip_of_contains h]

/-! ## The least first -/

/-- Sorting by cost is sorting by rank if the costs are numbers, and ranks are linearly ordered. -/
theorem pairwise_sort {vertices : List Visit} (hn : ∀ v ∈ vertices, v.cost.isNaN = false) :
    (sort vertices).Pairwise fun u v =>
      ¬ Double.Before (Double.rank v.cost.toModel.unpack) (Double.rank u.cost.toModel.unpack) := by
  let rankOf := fun v : Visit => Double.rank v.cost.toModel.unpack
  let inOrder := fun p q : Int × Int × Int => !decide (Double.Before q p)
  have hranks : (sort vertices).map rankOf = (vertices.map rankOf).mergeSort inOrder := by
    refine List.map_mergeSort fun u hu v hv => congrArg (! ·) ?_
    rw [decide_eq_decide, Double.lt_iff_before]
    simp only [hn u hu, hn v hv, true_and]
    rfl
  have hsorted : ((vertices.map rankOf).mergeSort inOrder).Pairwise fun p q => inOrder p q = true := by
    refine List.pairwise_mergeSort (fun p q r hpq hqr => ?_) (fun p q => ?_) _
    · simp only [inOrder, Bool.not_eq_true', decide_eq_false_iff_not] at *
      exact Double.not_before_trans hpq hqr
    · simp only [inOrder, Bool.or_eq_true, Bool.not_eq_true', decide_eq_false_iff_not]
      exact or_iff_not_imp_left.mpr fun hbefore => (not_not.mp hbefore).asymm
  rw [← hranks, List.pairwise_map] at hsorted
  simpa only [inOrder, Bool.not_eq_true', decide_eq_false_iff_not] using hsorted

/-- The first of the sorted vertices has the least cost. -/
theorem head_sort_le {vertices : List Visit} (hn : ∀ v ∈ vertices, v.cost.isNaN = false)
    {best : Visit} (h : (sort vertices).head? = some best) : ∀ v ∈ vertices, best.cost ≤ v.cost := by
  obtain ⟨others, heq⟩ := List.head?_eq_some_iff.mp h
  have hsorted := pairwise_sort hn
  rw [heq, List.pairwise_cons] at hsorted
  have hmem {v : Visit} : v ∈ best :: others ↔ v ∈ vertices := by
    rw [← heq]
    exact List.mem_mergeSort
  have hbest := hn best (hmem.mp (List.mem_cons_self ..))
  intro v hv
  rcases List.mem_cons.mp (hmem.mpr hv) with rfl | hothers
  · exact Double.le_refl hbest
  · exact Double.le_iff_not_before.mpr ⟨hbest, hn v hv, hsorted.1 v hothers⟩

/-! ## Moves -/

/-- Of the points that were evaluated for a move, none is better than both the best vertex and the one that
comes in. -/
def Covered (best : Visit) (chosen : Move × List Visit) : Prop :=
  ∀ v ∈ chosen.2, best.cost ≤ v.cost ∨ ∃ u, chosen.1 = .replace u ∧ u.cost ≤ v.cost

section

variable {mean : Point} {best second worst : Visit}

theorem clipped_visit {f : Float → Float → Float} {p q : Point} (hp : p.length = dimension)
    (hq : q.length = dimension) :
    Clipped problem dimension (visit problem (clip problem (List.zipWith f p q))) :=
  ⟨_, length_zipWith hp hq, rfl⟩

theorem clipped_contract (hm : mean.length = dimension) (hw : worst.point.length = dimension)
    (reflected : Visit) :
    ∀ v ∈ (contract problem mean worst reflected).2, Clipped problem dimension v := by
  rw [contract]
  split
  · exact List.forall_mem_singleton.mpr (clipped_visit hm hw)
  · exact List.forall_mem_singleton.mpr (clipped_visit hm hw)

theorem clipped_chooseMove (hm : mean.length = dimension) (hw : worst.point.length = dimension) :
    ∀ v ∈ (chooseMove problem mean best second worst).2, Clipped problem dimension v := by
  have hr : Clipped problem dimension
      (visit problem (clip problem (reflect 2.0 mean 1.0 worst.point))) := clipped_visit hm hw
  rw [chooseMove]
  dsimp only
  split
  · exact List.forall_mem_cons.mpr ⟨clipped_visit hm hw, List.forall_mem_singleton.mpr hr⟩
  · split
    · exact List.forall_mem_singleton.mpr hr
    · intro v hv
      rcases List.mem_append.mp hv with hv | hv
      · exact clipped_contract hm hw _ v hv
      · exact List.mem_singleton.mp hv ▸ hr

/-- A point that comes in on a condition, and without it is no better than the best vertex. -/
theorem covered_ite {P : Prop} [Decidable P] {v : Visit} (hv : v.cost.isNaN = false)
    (h : ¬ P → best.cost ≤ v.cost) : Covered best (if P then .replace v else .shrink, [v]) := by
  refine List.forall_mem_singleton.mpr ?_
  by_cases hP : P
  · exact .inr ⟨v, if_pos hP, Double.le_refl hv⟩
  · exact .inl (h hP)

section

variable (hcost : ∀ p, (problem.cost p).isNaN = false) (hbest : best.cost.isNaN = false)
  (hle : best.cost ≤ worst.cost)
include hcost hle

theorem covered_contract {reflected : Visit} (hr : best.cost ≤ reflected.cost) :
    Covered best (contract problem mean worst reflected) := by
  have hreflected := (Double.not_isNaN_of_le hr).2
  have hworst := (Double.not_isNaN_of_le hle).2
  rw [contract]
  split
  · refine covered_ite (hcost _) fun hworse => ?_
    exact Double.le_trans hr (Double.le_of_lt (Double.lt_of_not_le (hcost _) hreflected hworse))
  · refine covered_ite (hcost _) fun hworse => ?_
    exact Double.le_trans hle (Double.le_of_not_lt (hcost _) hworst hworse)

include hbest

theorem covered_chooseMove : Covered best (chooseMove problem mean best second worst) := by
  rw [chooseMove]
  dsimp only
  have hr : (visit problem (clip problem (reflect 2.0 mean 1.0 worst.point))).cost.isNaN = false :=
    hcost _
  have he : (visit problem (clip problem (reflect 3.0 mean 2.0 worst.point))).cost.isNaN = false :=
    hcost _
  generalize visit problem (clip problem (reflect 2.0 mean 1.0 worst.point)) = reflected at hr ⊢
  generalize visit problem (clip problem (reflect 3.0 mean 2.0 worst.point)) = expanded at he ⊢
  split
  · -- the better of the reflected and the expanded point comes in
    intro v hv
    refine .inr ⟨_, rfl, ?_⟩
    split
    · rename_i hlt
      rcases List.mem_pair.mp hv with rfl | rfl
      · exact Double.le_refl he
      · exact Double.le_of_lt hlt
    · rename_i hlt
      rcases List.mem_pair.mp hv with rfl | rfl
      · exact Double.le_of_not_lt he hr hlt
      · exact Double.le_refl hr
  · rename_i hlt
    have hreflected := Double.le_of_not_lt hr hbest hlt
    split
    · exact List.forall_mem_singleton.mpr (.inl hreflected)
    · intro v hv
      rcases List.mem_append.mp hv with hv | hv
      · exact covered_contract hcost hle hreflected v hv
      · exact .inl (List.mem_singleton.mp hv ▸ hreflected)

end

end

/-! ## The search -/

/-- What the search holds on to: the vertices are evaluated points, every evaluated point has been moved into
the domain, the start is one of them, and the first vertex has the least cost of all. -/
structure State.Leads (problem : Problem) (start : Point) (s : State) : Prop where
  sound : s.Sound problem start.length
  clipped : ∀ v ∈ s.visits, Clipped problem start.length v
  start_mem : visit problem start ∈ s.visits
  least : ∀ best, s.vertices.head? = some best → ∀ v ∈ s.visits, best.cost ≤ v.cost

section

variable {start : Point} {s : State} (hcost : ∀ p, (problem.cost p).isNaN = false)
include hcost

theorem State.Sound.not_isNaN_cost (hs : s.Sound problem dimension) :
    ∀ v ∈ s.vertices, v.cost.isNaN = false := by
  intro v hv
  rw [(hs v hv).1.cost_eq]
  exact hcost _

theorem leads_begin (h : problem.Contains start) : (begin problem start).Leads problem start where
  sound := sound_begin problem start
  clipped := by
    intro v hv
    obtain ⟨p, hp, rfl⟩ := List.mem_map.mp (List.mem_reverse.mp hv)
    obtain ⟨q, hq, rfl⟩ := List.mem_map.mp hp
    refine ⟨q.map (turnBack problem.upper), ?_, rfl⟩
    simpa [clip] using length_corners problem _ (List.mem_map.mpr ⟨q, hq, rfl⟩)
  start_mem := List.mem_reverse.mpr (List.mem_map.mpr ⟨start, start_mem_corners h, rfl⟩)
  least best hbest v hv := by
    refine head_sort_le (fun u hu => ?_) hbest v (List.mem_reverse.mp hv)
    obtain ⟨p, -, rfl⟩ := List.mem_map.mp hu
    exact hcost p

/-- What keeps hold of the best point: the best vertex stays, and each point that is looked at has no lower
cost than some vertex of the next simplex. -/
theorem State.Leads.next (hs : s.Leads problem start) {best : Visit} {vertices seen : List Visit}
    (hhead : s.vertices.head? = some best) (hbest : best ∈ vertices)
    (hsound : State.Sound problem start.length ⟨sort vertices, seen ++ s.visits⟩)
    (hclipped : ∀ v ∈ seen, Clipped problem start.length v)
    (hcovered : ∀ v ∈ seen, ∃ u ∈ vertices, u.cost ≤ v.cost) :
    State.Leads problem start ⟨sort vertices, seen ++ s.visits⟩ where
  sound := hsound
  clipped v hv := (List.mem_append.mp hv).elim (hclipped v) (hs.clipped v)
  start_mem := List.mem_append_right _ hs.start_mem
  least first hfirst v hv := by
    have hnumbers : ∀ u ∈ vertices, u.cost.isNaN = false := fun u hu =>
      hsound.not_isNaN_cost hcost u (List.mem_mergeSort.mpr hu)
    have hle := head_sort_le hnumbers hfirst
    rcases List.mem_append.mp hv with hv | hv
    · obtain ⟨u, hu, huv⟩ := hcovered v hv
      exact Double.le_trans (hle u hu) huv
    · exact Double.le_trans (hle best hbest) (hs.least best hhead v hv)

theorem State.Leads.chosen (hs : s.Leads problem start) {best worst : Visit} {others : List Visit}
    (hvertices : s.vertices = best :: others) (hworst : worst ∈ s.vertices) (second : Visit) :
    let mean := centroid best.point.length (s.vertices.dropLast.map (·.point))
    let chosen := chooseMove problem mean best second worst
    Covered best chosen ∧ ∀ v ∈ chosen.2, Clipped problem start.length v := by
  have hbest : best.cost.isNaN = false :=
    hs.sound.not_isNaN_cost hcost best (by simp [hvertices])
  have hle : best.cost ≤ worst.cost :=
    hs.least best (by rw [hvertices]; rfl) worst (hs.sound worst hworst).2
  exact ⟨covered_chooseMove hcost hbest hle,
    clipped_chooseMove (length_mean hs.sound hvertices) (hs.sound worst hworst).1.length_eq⟩

/-- An iteration keeps hold of the best point. -/
theorem leads_iterate (hs : s.Leads problem start) : (iterate problem s).Leads problem start := by
  have hsound := sound_iterate hs.sound
  have hiterated := iterated problem s
  generalize iterate problem s = next at hsound hiterated ⊢
  cases hiterated with
  | idle => exact hs
  | @replaced best second worst v others seen hvertices hothers hworst hchosen =>
    obtain ⟨hcovered, hclipped⟩ := hs.chosen hcost hvertices hworst second
    rw [hchosen] at hcovered hclipped
    have hstays : best ∈ s.vertices.dropLast := by
      obtain ⟨other, more, rfl⟩ := List.exists_cons_of_ne_nil hothers
      rw [hvertices]
      exact List.mem_cons_self ..
    refine hs.next hcost (by rw [hvertices]; rfl) (List.mem_append_left _ hstays) hsound hclipped
      fun u hu => ?_
    rcases hcovered u hu with hle | ⟨w, hw, hle⟩
    · exact ⟨best, List.mem_append_left _ hstays, hle⟩
    · cases hw
      exact ⟨v, List.mem_append_right _ (List.mem_singleton_self v), hle⟩
  | @shrunk best second worst others seen hvertices hworst hchosen =>
    obtain ⟨hcovered, hclipped⟩ := hs.chosen hcost hvertices hworst second
    rw [hchosen] at hcovered hclipped
    have hlength : ∀ v ∈ s.vertices, v.point.length = start.length := fun v hv =>
      (hs.sound v hv).1.length_eq
    refine hs.next hcost (by rw [hvertices]; rfl) (List.mem_cons_self ..) hsound
      (fun u hu => ?_) fun u hu => ?_
    · rcases List.mem_append.mp hu with hu | hu
      · obtain ⟨v, hv, rfl⟩ := List.mem_map.mp (List.mem_reverse.mp hu)
        exact clipped_visit (hlength best (by simp [hvertices])) (hlength v (by simp [hvertices, hv]))
      · exact hclipped u hu
    · rcases List.mem_append.mp hu with hu | hu
      · -- a vertex that was drawn nearer is a vertex of the next simplex
        refine ⟨u, List.mem_cons_of_mem _ (List.mem_reverse.mp hu), ?_⟩
        obtain ⟨v, -, rfl⟩ := List.mem_map.mp (List.mem_reverse.mp hu)
        exact Double.le_refl (hcost _)
      · rcases hcovered u hu with hle | ⟨w, hw, -⟩
        · exact ⟨best, List.mem_cons_self .., hle⟩
        · cases hw

theorem leads_iterations (minStep : Float) (left : Nat) {done : Nat} (hs : s.Leads problem start) :
    (iterations problem minStep done s left).state.Leads problem start := by
  induction left generalizing done s with
  | zero => exact hs
  | succ left ih =>
    rw [iterations]
    split
    · exact hs
    · exact ih (leads_iterate hcost hs)

/-- The search ends with the best of all points that it has evaluated. -/
theorem leads_run (h : problem.Contains start) (minStep : Float) (maxIterations : Nat) :
    (run problem minStep maxIterations start).state.Leads problem start :=
  leads_iterations hcost minStep _ (leads_begin hcost h)

end

end FormulaSearch.Fit.Simplex
