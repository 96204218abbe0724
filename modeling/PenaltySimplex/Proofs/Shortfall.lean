import PenaltySimplex.Proofs.Answer
import PenaltySimplex.Proofs.RatioTest
import PenaltySimplex.Proofs.RowScaling

/-!
# PenaltySimplex.Proofs.Shortfall

How far below zero the pivot loop can take a right-hand side, and so a value.

With a positive tolerance the ratio test can miss the smallest ratio: it does not look at entries
up to the tolerance, and it settles ratios within the tolerance of the smallest one by index. What
that costs grows with the step (`Dictionary.shortfall`). A scan that drifts along near ties can end
farther than the tolerance from the smallest ratio, and what that costs on top is kept apart
(`Dictionary.drift`): it is nothing for tied rows (`Dictionary.IsTied.drift_eq_zero`). An exchange
takes right-hand sides down by at most both (`Canonical.neg_le_rhs_next`), a run by at most the sum
over its exchanges (`Tableau.neg_shortfall_le_rhs`). A tolerance that resolves the tableau has
neither (`Tableau.ResolvedBy.shortfall_eq_zero`).

Nothing after the loop looks at the signs of the values. So the shortfall is what bounds the values
of an optimal answer (`Solver.neg_shortfall_le_values`). With the settings that the program starts
with, a value can be further below zero than the bound for artificial variables
(`Solver.presetExact_negative`).
-/

namespace PenaltySimplex

open Linear

variable {K : Type} [Field K] [LinearOrder K]

namespace Dictionary

/-- No row with a positive entry in column `c` has a smaller ratio than row `r`. -/
def TakesMinimum (d : Dictionary K) (c r : Nat) : Prop :=
  ∀ i < d.tableau.numConstraints, 0 < d.tableau.entry (i + 1) c → d.ratio c r ≤ d.ratio c i

instance (d : Dictionary K) (c r : Nat) : Decidable (d.TakesMinimum c r) :=
  inferInstanceAs (Decidable (∀ i < _, _ → _))

/-- The largest magnitude of an entry of column `c` in the constraint rows. -/
def reach (d : Dictionary K) (c : Nat) : K :=
  Scalar.maximum ((List.range d.tableau.numConstraints).map fun i => |d.tableau.entry (i + 1) c|)

/-- A bound on how far an exchange in a tied row takes right-hand sides below the lowest one. The
last summand counts for a negative ratio, which there is only where a right-hand side is negative
already. -/
def shortfall (eps : K) (d : Dictionary K) (c r : Nat) : K :=
  (if d.TakesMinimum c r then 0 else eps * (max 0 (d.ratio c r) + d.reach c)) +
  max 0 (-d.ratio c r) * (1 + d.reach c)

/-- How far the ratio of row `r` is above the smallest ratio that the ratio test looks at. -/
def lag (eps : K) (d : Dictionary K) (c r : Nat) : K :=
  Scalar.maximum ((d.tableau.ratios eps c).map fun x => d.ratio c r - x.2)

/-- What an exchange in a row that is not tied takes right-hand sides down on top. -/
def drift (eps : K) (d : Dictionary K) (c r : Nat) : K :=
  max 0 (d.lag eps c r - eps) * d.reach c

/-- A bound of the next exchange, if there is one, from its column and its row counted from zero. -/
def ofNext (eps : K) (d : Dictionary K) (bound : Nat → Nat → K) : K :=
  match d.choose eps with
  | .exchange row c => bound c (row - 1)
  | _ => 0

theorem abs_le_reach {d : Dictionary K} {i : Nat} (hi : i < d.tableau.numConstraints) (c : Nat) :
    |d.tableau.entry (i + 1) c| ≤ d.reach c :=
  Scalar.le_maximum (List.mem_map.2 ⟨i, List.mem_range.2 hi, rfl⟩)

theorem reach_nonneg (d : Dictionary K) (c : Nat) : 0 ≤ d.reach c :=
  Scalar.maximum_nonneg _

variable [IsStrictOrderedRing K] {eps low : K} {d : Dictionary K} {c i r : Nat}

omit [IsStrictOrderedRing K] in
theorem ratio_mul_entry (h : 0 < d.tableau.entry (i + 1) c) :
    d.ratio c i * d.tableau.entry (i + 1) c = d.tableau.rhs (i + 1) :=
  div_mul_cancel₀ _ h.ne'

omit [IsStrictOrderedRing K] in
theorem ofNext_of_choose {bound : Nat → Nat → K} (h : d.choose eps = .exchange (r + 1) c) :
    d.ofNext eps bound = bound c r := by
  rw [ofNext, h]
  rfl

omit [IsStrictOrderedRing K] in
theorem ofNext_of_not_moves (h : ¬ d.Moves eps) (bound : Nat → Nat → K) :
    d.ofNext eps bound = 0 := by
  unfold ofNext
  split
  · rename_i row c hchoose
    exact absurd ⟨row, c, hchoose⟩ h
  · rfl

omit [IsStrictOrderedRing K] in
theorem ofNext_nonneg (eps : K) (d : Dictionary K) {bound : Nat → Nat → K}
    (h : ∀ c r, 0 ≤ bound c r) : 0 ≤ d.ofNext eps bound := by
  unfold ofNext
  split
  · exact h _ _
  · exact le_rfl

theorem mul_max_le_shortfall (heps : 0 ≤ eps) (d : Dictionary K) (c r : Nat) :
    max 0 (-d.ratio c r) * (1 + d.reach c) ≤ d.shortfall eps c r := by
  refine le_add_of_nonneg_left ?_
  split
  · exact le_rfl
  · have hreach := d.reach_nonneg c
    positivity

theorem shortfall_nonneg (heps : 0 ≤ eps) (d : Dictionary K) (c r : Nat) :
    0 ≤ d.shortfall eps c r :=
  le_trans (mul_nonneg (le_max_left _ _) (by linarith [d.reach_nonneg c]))
    (mul_max_le_shortfall heps d c r)

theorem shortfall_eq_zero (hmin : d.TakesMinimum c r) (hratio : 0 ≤ d.ratio c r) :
    d.shortfall eps c r = 0 := by
  rw [shortfall, if_pos hmin, max_eq_left (neg_nonpos.2 hratio), zero_mul, zero_add]

theorem drift_nonneg (eps : K) (d : Dictionary K) (c r : Nat) : 0 ≤ d.drift eps c r :=
  mul_nonneg (le_max_left _ _) (d.reach_nonneg c)

omit [IsStrictOrderedRing K] in
theorem ratio_sub_le_lag (hi : d.Bounds eps c i) : d.ratio c r - d.ratio c i ≤ d.lag eps c r :=
  Scalar.le_maximum (List.mem_map.2 ⟨_, mem_ratios_of_bounds hi, rfl⟩)

omit [IsStrictOrderedRing K] in
theorem lag_le {x : K} (hx : 0 ≤ x) (h : ∀ i, d.Bounds eps c i → d.ratio c r - d.ratio c i ≤ x) :
    d.lag eps c r ≤ x := by
  refine Scalar.maximum_le hx ?_
  intro y hy
  obtain ⟨z, hz, rfl⟩ := List.mem_map.1 hy
  obtain ⟨i, hi, rfl⟩ := bounds_of_mem_ratios hz
  exact h i hi

theorem drift_eq_zero_of_lag_le (h : d.lag eps c r ≤ eps) : d.drift eps c r = 0 := by
  rw [drift, max_eq_left (sub_nonpos.2 h), zero_mul]

theorem IsTied.drift_eq_zero (heps : 0 ≤ eps) (h : d.IsTied eps c r) : d.drift eps c r = 0 := by
  refine drift_eq_zero_of_lag_le (lag_le heps ?_)
  intro i hi
  linarith [(isTied_iff.1 h).2 i hi]

theorem TakesMinimum.drift_eq_zero (heps : 0 ≤ eps) (h : d.TakesMinimum c r) :
    d.drift eps c r = 0 := by
  refine drift_eq_zero_of_lag_le (lag_le heps ?_)
  intro i hi
  linarith [h i hi.1 (heps.trans_lt hi.2)]

/-- Each comparison but the first can add the tolerance. -/
theorem drift_le (heps : 0 ≤ eps) (hdrift : ∀ i, d.Bounds eps c i →
      d.ratio c r ≤ d.ratio c i + (d.tableau.numConstraints - 1 : Nat) * eps) :
    d.drift eps c r ≤ (d.tableau.numConstraints - 2 : Nat) * eps * d.reach c := by
  refine mul_le_mul_of_nonneg_right (max_le (by positivity) ?_) (d.reach_nonneg c)
  have hlag : d.lag eps c r ≤ (d.tableau.numConstraints - 1 : Nat) * eps :=
    lag_le (by positivity) fun i hi => by linarith [hdrift i hi]
  have hcount : ((d.tableau.numConstraints - 1 : Nat) : K) ≤
      (d.tableau.numConstraints - 2 : Nat) + 1 := by
    exact_mod_cast (by omega : d.tableau.numConstraints - 1 ≤ d.tableau.numConstraints - 2 + 1)
  have hmul := mul_le_mul_of_nonneg_right hcount heps
  linarith

/-! ## One exchange -/

/-- Where the entry is not positive only a step down lowers the right-hand side. -/
theorem neg_le_of_entry_nonpos (hi : i < d.tableau.numConstraints)
    (hentry : d.tableau.entry (i + 1) c ≤ 0) (hrhs : -low ≤ d.tableau.rhs (i + 1)) :
    -(low + max 0 (-d.ratio c r) * d.reach c) ≤
      d.tableau.rhs (i + 1) - d.tableau.entry (i + 1) c * d.ratio c r := by
  have hreach := (neg_le_abs _).trans (abs_le_reach hi c)
  have hdown : -d.ratio c r ≤ max 0 (-d.ratio c r) := le_max_right _ _
  have hprod : -d.tableau.entry (i + 1) c * -d.ratio c r ≤
      d.reach c * max 0 (-d.ratio c r) :=
    (mul_le_mul_of_nonneg_left hdown (neg_nonneg.2 hentry)).trans
      (mul_le_mul_of_nonneg_right hreach (le_max_left _ _))
  linarith

theorem nonneg_of_takesMinimum (hmin : d.TakesMinimum c r) (hi : i < d.tableau.numConstraints)
    (hentry : 0 < d.tableau.entry (i + 1) c) :
    0 ≤ d.tableau.rhs (i + 1) - d.tableau.entry (i + 1) c * d.ratio c r := by
  have hprod := mul_le_mul_of_nonneg_right (hmin i hi hentry) hentry.le
  rw [ratio_mul_entry hentry] at hprod
  linarith

/-- A row that the ratio test does not look at falls by the tolerance for each unit of the step, and
one that it looks at by the tolerance and the drift. -/
theorem neg_le_of_entry_pos (heps : 0 ≤ eps) (hlow : 0 ≤ low)
    (hi : i < d.tableau.numConstraints) (hentry : 0 < d.tableau.entry (i + 1) c)
    (hrhs : -low ≤ d.tableau.rhs (i + 1)) :
    -(low + eps * (max 0 (d.ratio c r) + d.reach c) + d.drift eps c r) ≤
      d.tableau.rhs (i + 1) - d.tableau.entry (i + 1) c * d.ratio c r := by
  have hup : 0 ≤ eps * max 0 (d.ratio c r) := mul_nonneg heps (le_max_left _ _)
  have hnear : 0 ≤ eps * d.reach c := mul_nonneg heps (d.reach_nonneg c)
  have hdrift := drift_nonneg eps d c r
  rcases le_or_gt (d.tableau.entry (i + 1) c) eps with hle | hgt
  · have hstep : d.tableau.entry (i + 1) c * d.ratio c r ≤ eps * max 0 (d.ratio c r) :=
      (mul_le_mul_of_nonneg_left (le_max_right 0 _) hentry.le).trans
        (mul_le_mul_of_nonneg_right hle (le_max_left _ _))
    linarith
  · have hexcess : d.lag eps c r ≤ eps + max 0 (d.lag eps c r - eps) := by
      linarith [le_max_right 0 (d.lag eps c r - eps)]
    have hhigh : d.ratio c r ≤ d.ratio c i + (eps + max 0 (d.lag eps c r - eps)) := by
      linarith [ratio_sub_le_lag (r := r) ⟨hi, hgt⟩]
    have hstep := mul_le_mul_of_nonneg_right hhigh hentry.le
    have hreach := mul_le_mul_of_nonneg_left ((le_abs_self _).trans (abs_le_reach hi c))
      (add_nonneg heps (le_max_left 0 (d.lag eps c r - eps)))
    rw [add_mul, ratio_mul_entry hentry] at hstep
    rw [drift] at hdrift ⊢
    linarith

theorem Canonical.neg_le_rhs_next (hd : d.Canonical) (heps : 0 ≤ eps) (hlow : 0 ≤ low)
    (hrhs : ∀ i < d.tableau.numConstraints, -low ≤ d.tableau.rhs (i + 1)) :
    ∀ i < d.tableau.numConstraints,
      -(low + d.ofNext eps (d.shortfall eps) + d.ofNext eps (d.drift eps)) ≤
        (d.next eps).tableau.rhs (i + 1) := by
  by_cases hmoves : d.Moves eps
  · obtain ⟨row, c, hchoose⟩ := hmoves
    obtain ⟨hc, _⟩ := place_of_choose heps hchoose
    obtain ⟨r, rfl, _, _⟩ := ratio_leaving_le heps (choose_eq_exchange hchoose).2
    have hdrift := drift_nonneg eps d c r
    have hdown := mul_max_le_shortfall heps d c r
    have hdown₀ : 0 ≤ max 0 (-d.ratio c r) * d.reach c :=
      mul_nonneg (le_max_left _ _) (d.reach_nonneg c)
    rw [mul_add, mul_one] at hdown
    rw [next_of_choose hchoose, ofNext_of_choose hchoose, ofNext_of_choose hchoose]
    intro i hi
    rw [rhs_exchange hd hc hi]
    split_ifs with hir
    · linarith [le_max_right 0 (-d.ratio c r)]
    · rcases le_or_gt (d.tableau.entry (i + 1) c) 0 with hentry | hentry
      · have hle := neg_le_of_entry_nonpos (r := r) hi hentry (hrhs i hi)
        linarith [le_max_left 0 (-d.ratio c r)]
      · by_cases hmin : d.TakesMinimum c r
        · have hnonneg := nonneg_of_takesMinimum hmin hi hentry
          linarith [shortfall_nonneg heps d c r]
        · have hle := neg_le_of_entry_pos (r := r) heps hlow hi hentry (hrhs i hi)
          rw [shortfall, if_neg hmin]
          linarith [le_max_left 0 (-d.ratio c r)]
  · intro i hi
    rw [next_of_not_moves hmoves]
    linarith [hrhs i hi, d.ofNext_nonneg eps (shortfall_nonneg heps d),
      d.ofNext_nonneg eps (drift_nonneg eps d)]

/-- The next exchange takes a tied row. -/
def NextIsTied (eps : K) (d : Dictionary K) : Prop :=
  ∀ c r, d.choose eps = .exchange (r + 1) c → d.IsTied eps c r

theorem NextIsTied.ofNext_drift (heps : 0 ≤ eps) (h : d.NextIsTied eps) :
    d.ofNext eps (d.drift eps) = 0 := by
  by_cases hmoves : d.Moves eps
  · obtain ⟨row, c, hchoose⟩ := hmoves
    obtain ⟨r, rfl, _, _⟩ := ratio_leaving_le heps (choose_eq_exchange hchoose).2
    rw [ofNext_of_choose hchoose, (h c r hchoose).drift_eq_zero heps]
  · exact ofNext_of_not_moves hmoves _

theorem ofNext_drift_le (heps : 0 ≤ eps) : d.ofNext eps (d.drift eps) ≤
    (d.tableau.numConstraints - 2 : Nat) * eps * d.ofNext eps fun c _ => d.reach c := by
  by_cases hmoves : d.Moves eps
  · obtain ⟨row, c, hchoose⟩ := hmoves
    obtain ⟨r, rfl, _, hdrift⟩ := ratio_leaving_le heps (choose_eq_exchange hchoose).2
    rw [ofNext_of_choose hchoose, ofNext_of_choose hchoose]
    exact drift_le heps hdrift
  · rw [ofNext_of_not_moves hmoves, ofNext_of_not_moves hmoves, mul_zero]

theorem IsDictionaryOf.ofNext_eq_zero {t : Tableau K} (hd : d.IsDictionaryOf t) (heps : 0 ≤ eps)
    (hres : d.Resolves eps) :
    d.ofNext eps (d.shortfall eps) = 0 ∧ d.ofNext eps (d.drift eps) = 0 := by
  by_cases hmoves : d.Moves eps
  · obtain ⟨row, c, hchoose⟩ := hmoves
    obtain ⟨r, rfl, hp⟩ := hres.isPivot_of_choose hchoose
    have hmin : d.TakesMinimum c r := hp.ratio_le
    rw [ofNext_of_choose hchoose, ofNext_of_choose hchoose]
    exact ⟨shortfall_eq_zero hmin (hd.ratio_nonneg hp), hmin.drift_eq_zero heps⟩
  · exact ⟨ofNext_of_not_moves hmoves _, ofNext_of_not_moves hmoves _⟩

theorem Canonical.neg_le_value (hd : d.Canonical) (hlow : 0 ≤ low)
    (hrhs : ∀ i < d.tableau.numConstraints, -low ≤ d.tableau.rhs (i + 1)) (j : Nat) :
    -low ≤ d.value j := by
  rw [hd.value_eq]
  by_cases hj : j ∈ d.basis
  · obtain ⟨i, hi, rfl⟩ := hd.mem_basis.1 hj
    rw [hd.basicPoint_basic hi]
    exact hrhs i hi
  · rw [hd.basicPoint_eq_zero hj]
    exact neg_nonpos.2 hlow

end Dictionary

/-! ## A run -/

namespace Tableau

/-- A bound of each exchange of a run, summed up. -/
def total (eps : K) (cap : Nat) (t : Tableau K) (bound : Dictionary K → Nat → Nat → K) : K :=
  ∑ k ∈ Finset.range cap,
    (t.solveFrom eps k).final.ofNext eps (bound (t.solveFrom eps k).final)

variable [IsStrictOrderedRing K] {eps : K} {t : Tableau K}

theorem total_nonneg {bound : Dictionary K → Nat → Nat → K} (h : ∀ d c r, 0 ≤ bound d c r)
    (cap : Nat) : 0 ≤ t.total eps cap bound :=
  Finset.sum_nonneg fun _ _ => Dictionary.ofNext_nonneg _ _ (h _)

theorem neg_shortfall_le_rhs (hbasis : t.HasUnitBasis) (heps : 0 ≤ eps)
    (hrhs : ∀ i < t.numConstraints, 0 ≤ t.rhs (i + 1)) (cap : Nat) :
    ∀ i < t.numConstraints,
      -(t.total eps cap (Dictionary.shortfall eps) + t.total eps cap (Dictionary.drift eps)) ≤
        (t.solveFrom eps cap).final.tableau.rhs (i + 1) := by
  induction cap with
  | zero =>
    rw [total, total, Finset.sum_range_zero, Finset.sum_range_zero, add_zero, neg_zero,
      final_solveFrom]
    exact hrhs
  | succ cap ih =>
    have hconstraints := (equivalent_final heps cap (t := t)).numConstraints
    have hlow : 0 ≤ t.total eps cap (Dictionary.shortfall eps) +
        t.total eps cap (Dictionary.drift eps) :=
      add_nonneg (total_nonneg (Dictionary.shortfall_nonneg heps) cap)
        (total_nonneg (Dictionary.drift_nonneg _) cap)
    rw [← hconstraints] at ih ⊢
    have hnext := (canonical_final hbasis heps cap).neg_le_rhs_next heps hlow ih
    intro i hi
    refine le_trans (le_of_eq ?_) ((hnext i hi).trans_eq (by rw [final_solveFrom_succ]))
    rw [total, total, Finset.sum_range_succ, Finset.sum_range_succ, ← total, ← total]
    ring

theorem total_drift_le (heps : 0 ≤ eps) (cap : Nat) : t.total eps cap (Dictionary.drift eps) ≤
    (t.numConstraints - 2 : Nat) * eps * t.total eps cap fun d c _ => d.reach c := by
  rw [total, total, Finset.mul_sum]
  refine Finset.sum_le_sum ?_
  intro k _
  rw [← (equivalent_final heps k (t := t)).numConstraints]
  exact Dictionary.ofNext_drift_le heps

theorem ResolvedBy.total_eq_zero (hres : t.ResolvedBy eps) (heps : 0 ≤ eps)
    (hbasis : t.HasUnitBasis) (hrhs : ∀ i < t.numConstraints, 0 ≤ t.rhs (i + 1)) (cap : Nat) :
    t.total eps cap (Dictionary.shortfall eps) = 0 ∧
      t.total eps cap (Dictionary.drift eps) = 0 := by
  have hzero : ∀ k, (t.solveFrom eps k).final.ofNext eps
        ((t.solveFrom eps k).final.shortfall eps) = 0 ∧
      (t.solveFrom eps k).final.ofNext eps ((t.solveFrom eps k).final.drift eps) = 0 := by
    intro k
    have hd := isDictionaryOf_final hres hbasis hrhs k
    exact hd.ofNext_eq_zero heps (hres _ hd)
  exact ⟨Finset.sum_eq_zero fun k _ => (hzero k).1, Finset.sum_eq_zero fun k _ => (hzero k).2⟩

end Tableau

/-! ## Answers -/

namespace Solver

/-- The shortfall of the run on an equality form that has been analyzed. -/
noncomputable def shortfall (s : Solver ℝ) (q : StandardForm ℝ) : ℝ :=
  (q.startingTableau s.penalty).total s.pivotTolerance s.maxIterations
    (Dictionary.shortfall s.pivotTolerance)

/-- What rows that are not tied add to it. -/
noncomputable def drift (s : Solver ℝ) (q : StandardForm ℝ) : ℝ :=
  (q.startingTableau s.penalty).total s.pivotTolerance s.maxIterations
    (Dictionary.drift s.pivotTolerance)

/-- The largest magnitudes of the entering columns, summed up. -/
noncomputable def totalReach (s : Solver ℝ) (q : StandardForm ℝ) : ℝ :=
  (q.startingTableau s.penalty).total s.pivotTolerance s.maxIterations fun d c _ => d.reach c

/-- Every exchange takes a row whose ratio is within the tolerance of the smallest one. -/
def TakesTiedRows (s : Solver ℝ) (q : StandardForm ℝ) : Prop :=
  ∀ k < s.maxIterations,
    ((q.startingTableau s.penalty).solveFrom s.pivotTolerance k).final.NextIsTied s.pivotTolerance

theorem neg_shortfall_le_of_outcome {s : Solver ℝ} (heps : 0 ≤ s.pivotTolerance)
    (q : StandardForm ℝ) :
    ∀ v ∈ (s.outcome q).final.values, -(s.shortfall q + s.drift q) ≤ v := by
  have hbasis := q.hasUnitBasis_startingTableau s.penalty
  have hrhs := Tableau.neg_shortfall_le_rhs hbasis heps (q.rhs_startingTableau_nonneg s.penalty)
    s.maxIterations
  have hconstraints := (Tableau.equivalent_final heps s.maxIterations
    (t := q.startingTableau s.penalty)).numConstraints
  have hlow : 0 ≤ s.shortfall q + s.drift q :=
    add_nonneg (Tableau.total_nonneg (Dictionary.shortfall_nonneg heps) _)
      (Tableau.total_nonneg (Dictionary.drift_nonneg _) _)
  rw [← hconstraints] at hrhs
  intro v hv
  obtain ⟨j, _, rfl⟩ := List.mem_map.1 hv
  exact (Tableau.canonical_final hbasis heps s.maxIterations).neg_le_value hlow hrhs j

theorem drift_eq_zero {s : Solver ℝ} (heps : 0 ≤ s.pivotTolerance) {q : StandardForm ℝ}
    (h : s.TakesTiedRows q) : s.drift q = 0 :=
  Finset.sum_eq_zero fun k hk => (h k (Finset.mem_range.1 hk)).ofNext_drift heps

theorem drift_le_totalReach {s : Solver ℝ} (heps : 0 ≤ s.pivotTolerance) (q : StandardForm ℝ) :
    s.drift q ≤ (q.numRows - 2 : Nat) * s.pivotTolerance * s.totalReach q :=
  Tableau.total_drift_le heps s.maxIterations (t := q.startingTableau s.penalty)

theorem exists_shortfall_eq_zero (q : StandardForm ℝ) (penalty : ℝ) :
    ∃ bound, 0 < bound ∧ ∀ s : Solver ℝ, s.penalty = penalty → 0 ≤ s.pivotTolerance →
      s.pivotTolerance ≤ bound → s.shortfall q = 0 ∧ s.drift q = 0 := by
  obtain ⟨bound, hbound, hres⟩ := (q.startingTableau penalty).exists_resolvedBy
  refine ⟨bound, hbound, ?_⟩
  rintro s rfl heps hle
  have hresolved : (q.startingTableau s.penalty).ResolvedBy s.pivotTolerance := by
    rcases heps.eq_or_lt with heq | hpos
    · rw [← heq]
      exact Tableau.resolvedBy_zero _
    · exact hres _ hpos hle
  exact hresolved.total_eq_zero heps (q.hasUnitBasis_startingTableau _)
    (q.rhs_startingTableau_nonneg _) _

/-- The values of an optimal answer are at least minus the shortfall and the drift of the run, and
there is no drift if every exchange takes a tied row. So a shortfall within the bound for artificial
variables keeps the values within it. For each problem, analyzer and penalty a small pivot tolerance
has neither. -/
theorem neg_shortfall_le_values (p : StandardForm ℝ) (a : Analyzer ℝ) (penalty : ℝ) :
    ∃ bound, 0 < bound ∧ ∀ s : Solver ℝ, s.analyzer = a → s.penalty = penalty →
      0 ≤ s.pivotTolerance → (s.solveStandard p).value.status = .optimal →
      ∃ q kept values, (a.analyze p).value = .feasible q kept ∧
        (s.solveStandard p).value.values = some values ∧ values.length = p.numColumns ∧
        (∀ v ∈ values, -(s.shortfall q + s.drift q) ≤ v) ∧
        (s.shortfall q + s.drift q ≤ a.tolerance * rhsScale q →
          ∀ v ∈ values, -(a.tolerance * rhsScale q) ≤ v) ∧
        (s.TakesTiedRows q → s.drift q = 0) ∧
        s.drift q ≤ (q.numRows - 2 : Nat) * s.pivotTolerance * s.totalReach q ∧
        (s.pivotTolerance ≤ bound →
          s.shortfall q = 0 ∧ s.drift q = 0 ∧ ∀ v ∈ values, 0 ≤ v) := by
  cases hanalyze : (a.analyze p).value with
  | infeasible r =>
    refine ⟨1, one_pos, ?_⟩
    rintro s rfl rfl _ hstatus
    rw [value_of_infeasible hanalyze] at hstatus
    cases hstatus
  | feasible q kept =>
    obtain ⟨bound, hbound, hzero⟩ := exists_shortfall_eq_zero q penalty
    refine ⟨bound, hbound, ?_⟩
    rintro s rfl hpenalty heps hstatus
    have hwhole := s.isWhole_solveStandard p
    rw [value_of_feasible hanalyze] at hstatus hwhole ⊢
    obtain ⟨_, _, hvalue⟩ := conclude_optimal hstatus
    have hle := neg_shortfall_le_of_outcome heps q
    refine ⟨q, kept, (s.outcome q).final.values, rfl, ?_, ?_, hle, ?_, drift_eq_zero heps,
      drift_le_totalReach heps q, ?_⟩
    · rw [hvalue]
      rfl
    · cases hwhole with
      | optimal values objective _ hvalues _ hlength =>
        rw [hvalue] at hvalues
        cases hvalues
        exact hlength
      | bare hne => exact absurd hstatus hne
    · intro hsmall v hv
      exact (neg_le_neg hsmall).trans (hle v hv)
    · intro hfine
      obtain ⟨hnone, hstill⟩ := hzero s hpenalty heps hfine
      refine ⟨hnone, hstill, fun v hv => ?_⟩
      have hv' := hle v hv
      rwa [hnone, hstill, add_zero, neg_zero] at hv'

/-! ## A step that is not looked at -/

/-- Minimize nothing subject to `a * y = 1` and `x + e * y = 0`. With `a` and `e` positive there is
one solution, and it has `x` negative. -/
def steep (a e : ℝ) : StandardForm ℝ where
  objective := [0, 0]
  equations := [⟨[0, a], 1⟩, ⟨[1, e], 0⟩]
  width := by simp

/-- Three rows and five columns with these entries. -/
structure Shows (t : Tableau ℝ) (rows : List (List ℝ)) : Prop where
  numRows : t.numRows = 3
  numColumns : t.numColumns = 5
  entry : ∀ i < 3, ∀ j < 5, t.entry i j = (rows.getD i []).getD j 0

namespace Shows

variable {t : Tableau ℝ} {rows : List (List ℝ)}

theorem numConstraints (h : Shows t rows) : t.numConstraints = 2 := by
  rw [Tableau.numConstraints, h.numRows]

theorem numVariables (h : Shows t rows) : t.numVariables = 4 := by
  rw [Tableau.numVariables, h.numColumns]

theorem rhs (h : Shows t rows) {i : Nat} (hi : i < 3) : t.rhs i = (rows.getD i []).getD 4 0 := by
  rw [Tableau.rhs, Tableau.rhsColumn, h.numColumns]
  exact h.entry i hi 4 (by omega)

theorem pivot (h : Shows t rows) {r c : Nat} (hr : r < 3) (hc : c < 5) {rows' : List (List ℝ)}
    (hrows : ∀ i < 3, ∀ j < 5, (rows'.getD i []).getD j 0 =
      if i = r then (rows.getD r []).getD j 0 / (rows.getD r []).getD c 0
      else (rows.getD i []).getD j 0 - (rows.getD i []).getD c 0 *
        ((rows.getD r []).getD j 0 / (rows.getD r []).getD c 0)) : Shows (t.pivot r c) rows' where
  numRows := h.numRows
  numColumns := h.numColumns
  entry i hi j hj := by
    rw [Tableau.entry_pivot_eq (h.numRows ▸ hi) (h.numColumns ▸ hj), h.entry r hr j hj,
      h.entry r hr c hc, h.entry i hi j hj, h.entry i hi c hc, hrows i hi j hj]

end Shows

section Steep

variable {a e eps penalty : ℝ}

theorem shows_start (a e penalty : ℝ) : Shows ((steep a e).startingTableau penalty)
    [[-penalty, -(penalty * (a + e)), 0, 0, -penalty], [0, a, 1, 0, 1], [1, e, 0, 1, 0]] where
  numRows := rfl
  numColumns := rfl
  entry i hi j hj := by
    interval_cases i <;> interval_cases j <;>
      simp [StandardForm.startingTableau, Tableau.entry_ofFn, StandardForm.startingCost,
        StandardForm.startingEntry, steep, Equation.oriented, Equation.orientation,
        StandardForm.numRows, StandardForm.numColumns, StandardForm.rhs]

theorem shows_middle (a e penalty : ℝ) : Shows (((steep a e).startingTableau penalty).pivot 2 0)
    [[0, -(penalty * a), 0, penalty, -penalty], [0, a, 1, 0, 1], [1, e, 0, 1, 0]] := by
  refine (shows_start a e penalty).pivot (by omega) (by omega) ?_
  intro i hi j hj
  interval_cases i <;> interval_cases j <;> simp
  ring

theorem shows_end (e penalty : ℝ) (ha : a ≠ 0) :
    Shows ((((steep a e).startingTableau penalty).pivot 2 0).pivot 1 1)
      [[0, 0, penalty, penalty, 0], [0, 1, a⁻¹, 0, a⁻¹], [1, 0, -(e / a), 1, -(e / a)]] := by
  refine (shows_middle a e penalty).pivot (by omega) (by omega) ?_
  intro i hi j hj
  interval_cases i <;> interval_cases j <;> simp [ha, div_eq_mul_inv]

theorem values_steep (ha : a ≠ 0) : (Dictionary.mk
    ((((steep a e).startingTableau penalty).pivot 2 0).pivot 1 1) [1, 0]).values =
      [-(e / a), a⁻¹] := by
  have hend := shows_end e penalty ha
  have hstructural : ((((steep a e).startingTableau penalty).pivot 2 0).pivot 1 1).numStructural =
      2 := rfl
  simp [Dictionary.values, Dictionary.value, hstructural, hend.rhs, List.range_succ]

variable (heps : 0 ≤ eps) (hone : eps < 1) (ha : eps < a) (he : e ≤ eps)
  (hpenalty : eps < penalty) (hprod : eps < penalty * a)

include heps hone ha he hpenalty hprod

/-- The second exchange passes over the row that `e` is in. -/
theorem choose_steep :
    (Dictionary.start ((steep a e).startingTableau penalty)).choose eps = .exchange 2 0 ∧
    (Dictionary.mk (((steep a e).startingTableau penalty).pivot 2 0) [2, 0]).choose eps =
      .exchange 1 1 ∧
    (Dictionary.mk ((((steep a e).startingTableau penalty).pivot 2 0).pivot 1 1) [1, 0]).choose
      eps = .optimal := by
  have hstart := shows_start a e penalty
  have hmiddle := shows_middle a e penalty
  have hend := shows_end e penalty (heps.trans_lt ha).ne'
  refine ⟨?_, ?_, ?_⟩
  · simp [Dictionary.choose, Dictionary.start, Tableau.entering?, Tableau.leaving?,
      Tableau.ratios, hstart.numVariables, hstart.numConstraints, hstart.entry, List.range_succ,
      List.range'_succ, heps, hpenalty, not_le.2 hone]
  · simp [Dictionary.choose, Tableau.entering?, Tableau.leaving?, Tableau.ratios,
      hmiddle.numVariables, hmiddle.numConstraints, hmiddle.entry, List.range_succ,
      List.range'_succ, heps, hprod, not_le.2 ha, he]
  · have hnot : -eps ≤ penalty := by linarith
    simp [Dictionary.choose, Tableau.entering?, hend.numVariables, hend.entry, List.range_succ,
      heps, hnot]

theorem solveFrom_steep_one : (((steep a e).startingTableau penalty).solveFrom eps 1).final =
    ⟨((steep a e).startingTableau penalty).pivot 2 0, [2, 0]⟩ := by
  obtain ⟨hfirst, _, _⟩ := choose_steep heps hone ha he hpenalty hprod
  rw [Tableau.final_solveFrom, Function.iterate_one]
  exact Dictionary.next_of_choose hfirst

theorem solveFrom_steep (cap : Nat) :
    (((steep a e).startingTableau penalty).solveFrom eps (cap + 2)).stop = .optimal ∧
    (((steep a e).startingTableau penalty).solveFrom eps (cap + 2)).final =
      ⟨(((steep a e).startingTableau penalty).pivot 2 0).pivot 1 1, [1, 0]⟩ := by
  obtain ⟨hfirst, hsecond, hthird⟩ := choose_steep heps hone ha he hpenalty hprod
  have hnext : (Dictionary.start ((steep a e).startingTableau penalty)).next eps =
      ⟨((steep a e).startingTableau penalty).pivot 2 0, [2, 0]⟩ := Dictionary.next_of_choose hfirst
  have hnext' : (Dictionary.mk (((steep a e).startingTableau penalty).pivot 2 0) [2, 0]).next eps =
      ⟨(((steep a e).startingTableau penalty).pivot 2 0).pivot 1 1, [1, 0]⟩ :=
    Dictionary.next_of_choose hsecond
  rw [Tableau.solveFrom, Dictionary.run_succ hfirst, hnext, Dictionary.run_succ hsecond, hnext',
    Dictionary.run_optimal hthird]
  exact ⟨rfl, rfl⟩

/-- Only the second exchange falls short, by the tolerance times its ratio and its reach. -/
theorem shortfall_steep (hpos : 0 < e) (hle : e ≤ a) (cap : Nat) :
    ((steep a e).startingTableau penalty).total eps (cap + 2) (Dictionary.shortfall eps) =
      eps * (a⁻¹ + a) := by
  obtain ⟨hfirst, hsecond, hthird⟩ := choose_steep heps hone ha he hpenalty hprod
  have hmiddle := shows_middle a e penalty
  have ha₀ : 0 < a := hpos.trans_le hle
  rw [Tableau.total, Finset.sum_eq_single 1]
  · rw [solveFrom_steep_one heps hone ha he hpenalty hprod, Dictionary.ofNext_of_choose hsecond]
    have hratio : (Dictionary.mk (((steep a e).startingTableau penalty).pivot 2 0)
        [2, 0]).ratio 1 0 = a⁻¹ := by
      simp [Dictionary.ratio, hmiddle.rhs, hmiddle.entry]
    have hreach : (Dictionary.mk (((steep a e).startingTableau penalty).pivot 2 0)
        [2, 0]).reach 1 = a := by
      simp [Dictionary.reach, hmiddle.numConstraints, hmiddle.entry, List.range_succ,
        Scalar.maximum, abs_of_pos ha₀, abs_of_pos hpos, ha₀, not_lt.2 hle]
    have hnot : ¬ (Dictionary.mk (((steep a e).startingTableau penalty).pivot 2 0)
        [2, 0]).TakesMinimum 1 0 := by
      intro hmin
      have hrow := hmin 1 (by simp [hmiddle.numConstraints]) (by simpa [hmiddle.entry] using hpos)
      rw [hratio] at hrow
      simp [Dictionary.ratio, hmiddle.rhs] at hrow
      exact absurd hrow (not_le.2 ha₀)
    rw [Dictionary.shortfall, if_neg hnot, hratio, hreach, max_eq_right (inv_pos.2 ha₀).le,
      max_eq_left (neg_nonpos.2 (inv_pos.2 ha₀).le), zero_mul, add_zero]
  · intro k _ hk
    obtain rfl | ⟨k, rfl⟩ : k = 0 ∨ ∃ k', k = k' + 2 := by
      rcases k with - | - | k
      · exact .inl rfl
      · exact absurd rfl hk
      · exact .inr ⟨k, rfl⟩
    · have hstart := shows_start a e penalty
      rw [Tableau.final_solveFrom, Function.iterate_zero, id_eq,
        Dictionary.ofNext_of_choose hfirst]
      have hratio : (Dictionary.start ((steep a e).startingTableau penalty)).ratio 0 1 = 0 := by
        simp [Dictionary.ratio, Dictionary.start, hstart.rhs]
      refine Dictionary.shortfall_eq_zero ?_ hratio.ge
      intro i hi hentry
      rw [hratio]
      have hi' : i < 2 := by simpa [Dictionary.start, hstart.numConstraints] using hi
      interval_cases i
      · simp [Dictionary.start, hstart.entry] at hentry
      · exact hratio.ge
    · rw [(solveFrom_steep heps hone ha he hpenalty hprod k).2, Dictionary.ofNext, hthird]
  · intro hout
    exact absurd (Finset.mem_range.2 (by omega)) hout

end Steep

/-- The settings that the program starts with, and the exact distance from the column space. -/
noncomputable def presetExact : Solver ℝ :=
  { preset with analyzer := { Analyzer.exact true with tolerance := 1e-8 } }

theorem keptRows_steep {a : ℝ} (ha : 1e-8 < a) (e : ℝ) :
    presetExact.analyzer.keptRows (steep a e).rows = [0, 1] := by
  have hpos : 0 < a := lt_trans (by norm_num) ha
  have hrows : (steep a e).rows = [[0, a], [1, e]] := rfl
  have hcandidates : presetExact.analyzer.candidates (steep a e).rows =
      [([0, a], 0), ([1, e], 1)] := by
    have hsmall : ¬ (1e-8 : ℝ) < 0 := by norm_num
    have hone : ¬ (1 : ℝ) < 1e-8 := by norm_num
    have hone' : (1e-8 : ℝ) ≤ 1 := by norm_num
    simp [Analyzer.candidates, presetExact, Analyzer.exact, hrows, prune, isSubstantial,
      isNearMultiple, anchor?, abs_of_pos hpos, ha, ha.le, hsmall, hone, hone', List.findIdx?_cons]
  have hfirst : Linear.norm (remainder [] [0, a]) = a := by
    show √(dot [0, a] [0, a]) = a
    rw [dot_eq_form]
    simp [hpos.le]
  have hunit : divide (remainder [] [0, a]) a = [0, 1] := by
    simp [remainder, orthogonalize, divide, hpos.ne']
  have hsecond : remainder [[0, 1]] [1, e] = [1, 0] := by
    simp [remainder, orthogonalize, combine, dot_eq_form]
  have hnorm : (1e-8 : ℝ) < Linear.norm [1, 0] := by
    show _ < √(dot [1, 0] [1, 0])
    rw [dot_eq_form]
    norm_num
  show List.map Prod.snd (independentFrom 1e-8 [] _) = _
  rw [hcandidates, independentFrom_cons, hfirst, if_pos ha, hunit, independentFrom_cons,
    List.nil_append, hsecond, if_pos hnorm]
  rfl

theorem analyze_steep {a : ℝ} (ha : 1e-8 < a) (e : ℝ) :
    (presetExact.analyzer.analyze (steep a e)).value = .feasible (steep a e) [0, 1] := by
  have hpos : 0 < a := lt_trans (by norm_num) ha
  have hsolves : (steep a e).Solves [-(e / a), a⁻¹] := by
    refine ⟨rfl, ?_⟩
    simp [steep, hpos.ne', div_eq_mul_inv]
  rw [Analyzer.value_analyze, keptRows_steep ha e, if_neg]
  · rfl
  · show ¬ 1e-8 < columnDistance _ _ _
    rw [(steep a e).columnDistance_eq_zero_iff.2 ⟨_, hsolves⟩]
    norm_num

theorem rhsScale_steep (a e : ℝ) : rhsScale (steep a e) = 2 := by
  simp [rhsScale, Scalar.maximum, StandardForm.rhs, steep]
  norm_num

theorem not_isFeasible_steep {a e : ℝ} (ha : 0 < a) (he : 0 < e) : ¬ (steep a e).IsFeasible := by
  rintro ⟨x, hx⟩
  obtain ⟨u, v, rfl⟩ := List.length_eq_two.1 hx.length_eq
  have hfirst : 0 * u + (a * v + 0) = 1 := hx.holds ⟨[0, a], 1⟩ List.mem_cons_self
  have hsecond : 1 * u + (e * v + 0) = 0 :=
    hx.holds ⟨[1, e], 0⟩ (List.mem_cons_of_mem _ List.mem_cons_self)
  have hu : 0 ≤ u := hx.nonneg u (by simp)
  have hv : 0 < v := (mul_pos_iff_of_pos_left ha).1 (by linarith)
  linarith [mul_pos he hv]

/-- The entries are the 20th and the 34th power of a half; the second one is just below the pivot
tolerance of `preset`. -/
noncomputable def steepest : StandardForm ℝ :=
  steep (1 / 1048576) (1 / 17179869184)

theorem analyze_steepest :
    (presetExact.analyzer.analyze steepest).value = .feasible steepest [0, 1] :=
  analyze_steep (by norm_num) _

/-- The tolerance of `preset` fits both entries. -/
theorem preset_steepest : (0 : ℝ) ≤ 1e-10 ∧ (1e-10 : ℝ) < 1 ∧ (1e-10 : ℝ) < 1 / 1048576 ∧
    (1 / 17179869184 : ℝ) ≤ 1e-10 ∧ (1e-10 : ℝ) < 1000000 ∧
    (1e-10 : ℝ) < 1000000 * (1 / 1048576) := by
  norm_num

theorem outcome_steepest : (presetExact.outcome steepest).stop = .optimal ∧
    (presetExact.outcome steepest).final =
      ⟨((steepest.startingTableau 1000000).pivot 2 0).pivot 1 1, [1, 0]⟩ := by
  obtain ⟨heps, hone, ha, he, hpenalty, hprod⟩ := preset_steepest
  exact solveFrom_steep heps hone ha he hpenalty hprod 9998

theorem status_steepest : (presetExact.solveStandard steepest).value.status = .optimal := by
  obtain ⟨hstop, hfinal⟩ := outcome_steepest
  rw [value_of_feasible analyze_steepest]
  refine status_conclude_of_none hstop ?_
  rw [residualArtificial?, hfinal]
  rfl

theorem values_steepest : (presetExact.solveStandard steepest).value.values =
    some [-(1 / 2 ^ 14), 2 ^ 20] := by
  have hstatus := status_steepest
  rw [value_of_feasible analyze_steepest] at hstatus ⊢
  obtain ⟨_, _, hvalue⟩ := conclude_optimal hstatus
  rw [hvalue, outcome_steepest.2, steepest, values_steep (by norm_num)]
  show some _ = some _
  norm_num

theorem shortfall_steepest : presetExact.shortfall steepest = 1e-10 * (2 ^ 20 + 1 / 2 ^ 20) := by
  obtain ⟨heps, hone, ha, he, hpenalty, hprod⟩ := preset_steepest
  have htotal := shortfall_steep heps hone ha he hpenalty hprod (by norm_num) (by norm_num) 9998
  refine htotal.trans ?_
  norm_num

/-- A run whose second exchange falls short and does not drift: the first value is below zero, by
more than the bound for artificial variables and by less than the shortfall. -/
theorem neg_shortfall_le_values_steepest :
    presetExact.pivotTolerance = 1e-10 ∧
    (presetExact.solveStandard steepest).value.status = .optimal ∧
    (presetExact.solveStandard steepest).value.values = some [-(1 / 2 ^ 14), 2 ^ 20] ∧
    presetExact.shortfall steepest = 1e-10 * (2 ^ 20 + 1 / 2 ^ 20) ∧
    presetExact.drift steepest ≤ 0 ∧
    -presetExact.shortfall steepest ≤ -(1 / 2 ^ 14) := by
  have heps : 0 ≤ presetExact.pivotTolerance := preset_steepest.1
  obtain ⟨_, _, h⟩ :=
    neg_shortfall_le_values steepest presetExact.analyzer presetExact.penalty
  obtain ⟨q, kept, values, hanalyze, hvalues, _, hle, _, _, hdrift, _⟩ :=
    h presetExact rfl rfl heps status_steepest
  obtain ⟨rfl, rfl⟩ : steepest = q ∧ [0, 1] = kept := by
    simpa using analyze_steepest.symm.trans hanalyze
  obtain rfl := Option.some.inj (values_steepest.symm.trans hvalues)
  have hnone : presetExact.drift steepest ≤ 0 := by
    refine hdrift.trans_eq ?_
    rw [show steepest.numRows - 2 = 0 from rfl, Nat.cast_zero, zero_mul, zero_mul]
  have hfirst := hle _ List.mem_cons_self
  exact ⟨rfl, status_steepest, values_steepest, shortfall_steepest, hnone, by linarith⟩

/-- With the settings that the program starts with an optimal answer has a value further below zero
than the bound for artificial variables. The problem has no feasible point. -/
theorem presetExact_negative :
    (∀ p : StandardForm ℝ, (presetExact.analyzer.measure p.numColumns p.rows p.rhs).distance =
      columnDistance p.numColumns p.rows p.rhs) ∧
    (presetExact.analyzer.analyze steepest).value = .feasible steepest [0, 1] ∧
    (presetExact.solveStandard steepest).value.status = .optimal ∧
    (presetExact.solveStandard steepest).value.values = some [-(1 / 2 ^ 14), 2 ^ 20] ∧
    -(1 / 2 ^ 14) < -(presetExact.analyzer.tolerance * rhsScale steepest) ∧
    ¬ steepest.IsFeasible := by
  refine ⟨fun _ => rfl, analyze_steepest, status_steepest, values_steepest, ?_,
    not_isFeasible_steep (by positivity) (by positivity)⟩
  rw [steepest, rhsScale_steep]
  show _ < -((1e-8 : ℝ) * 2)
  norm_num

end Solver
end PenaltySimplex
