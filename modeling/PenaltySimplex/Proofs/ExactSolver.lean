import PenaltySimplex.Proofs.RowReduction
import PenaltySimplex.Proofs.Threshold
import PenaltySimplex.Solver

/-!
# PenaltySimplex.Proofs.ExactSolver

A solver with real arithmetic, tolerances zero and an analyzer that measures the exact distance
from the column space, stage by stage.

* `conclude_optimal`, `conclude_infeasible` and `conclude_unbounded`: which stop of the pivot loop
  an answer comes from.
* `residual_eq_none_iff`: the check after an optimal stop passes exactly when the artificial
  variables are zero. So an optimal answer is right for every penalty (`solveStandard_optimal`).
* `isUnbounded_of_stop`: an unbounded stop is right for every penalty if neither the last point
  nor the unbounded column uses an artificial variable. The solver does not look at that.
-/

namespace PenaltySimplex

open Linear

namespace Solver

/-- Real arithmetic without tolerances and with an exact analysis. -/
structure IsExact (s : Solver ℝ) : Prop where
  pivotTolerance : s.pivotTolerance = 0
  analyzer : s.analyzer.IsExact

noncomputable def exact (penalty : ℝ) (cap : Nat) (prunes : Bool) : Solver ℝ where
  penalty
  pivotTolerance := 0
  maxIterations := cap
  analyzer := .exact prunes

theorem isExact_exact (penalty : ℝ) (cap : Nat) (prunes : Bool) :
    (exact penalty cap prunes).IsExact :=
  ⟨rfl, Analyzer.isExact_exact prunes⟩

/-! ## One lemma for each stage -/

section Analyze

variable {s : Solver ℝ} {p : StandardForm ℝ}

theorem value_of_feasible {q : StandardForm ℝ} {kept : List Nat}
    (h : (s.analyzer.analyze p).value = .feasible q kept) :
    (s.solveStandard p).value = (s.conclude q (s.outcome q)).value := by
  rw [solveStandard, Logged.value_bind, h]
  rfl

theorem value_of_infeasible {r : ℝ} (h : (s.analyzer.analyze p).value = .infeasible r) :
    (s.solveStandard p).value = .infeasible 0 := by
  rw [solveStandard, Logged.value_bind, h]
  rfl

end Analyze

theorem conclude_cases (s : Solver ℝ) (p : StandardForm ℝ) (o : Outcome ℝ) :
    (∃ c, o.stop = .unbounded c ∧ (s.conclude p o).value = .unbounded o.iterations) ∨
    (o.stop = .iterationLimit ∧ (s.conclude p o).value = .iterationLimit o.iterations) ∨
    (o.stop = .optimal ∧
      residualArtificial? p.numColumns (s.analyzer.tolerance * rhsScale p) o.final ≠ none ∧
      (s.conclude p o).value = .infeasible o.iterations) ∨
    (o.stop = .optimal ∧
      residualArtificial? p.numColumns (s.analyzer.tolerance * rhsScale p) o.final = none ∧
      (s.conclude p o).value =
        .optimal o.final.values (form p.objective o.final.values) o.iterations) := by
  unfold conclude
  cases o.stop with
  | unbounded c => exact Or.inl ⟨c, rfl, rfl⟩
  | iterationLimit => exact Or.inr (Or.inl ⟨rfl, rfl⟩)
  | optimal =>
    cases h : residualArtificial? p.numColumns (s.analyzer.tolerance * rhsScale p) o.final with
    | some r => exact Or.inr (Or.inr (Or.inl ⟨rfl, by simp, rfl⟩))
    | none =>
      refine Or.inr (Or.inr (Or.inr ⟨rfl, rfl, ?_⟩))
      simp [form]

section Conclude

variable {s : Solver ℝ} {p : StandardForm ℝ} {o : Outcome ℝ}

theorem conclude_optimal (h : (s.conclude p o).value.status = .optimal) :
    o.stop = .optimal ∧
      residualArtificial? p.numColumns (s.analyzer.tolerance * rhsScale p) o.final = none ∧
      (s.conclude p o).value =
        .optimal o.final.values (form p.objective o.final.values) o.iterations := by
  rcases s.conclude_cases p o with ⟨c, _, hv⟩ | ⟨_, hv⟩ | ⟨_, _, hv⟩ | hoptimal
  · rw [hv] at h
    cases h
  · rw [hv] at h
    cases h
  · rw [hv] at h
    cases h
  · exact hoptimal

theorem conclude_infeasible (h : (s.conclude p o).value.status = .infeasible) :
    o.stop = .optimal ∧
      residualArtificial? p.numColumns (s.analyzer.tolerance * rhsScale p) o.final ≠ none := by
  rcases s.conclude_cases p o with ⟨c, _, hv⟩ | ⟨_, hv⟩ | ⟨hstop, hsome, _⟩ | ⟨_, _, hv⟩
  · rw [hv] at h
    cases h
  · rw [hv] at h
    cases h
  · exact ⟨hstop, hsome⟩
  · rw [hv] at h
    cases h

theorem conclude_unbounded (h : (s.conclude p o).value.status = .unbounded) :
    ∃ c, o.stop = .unbounded c := by
  rcases s.conclude_cases p o with ⟨c, hstop, _⟩ | ⟨_, hv⟩ | ⟨_, _, hv⟩ | ⟨_, _, hv⟩
  · exact ⟨c, hstop⟩
  · rw [hv] at h
    cases h
  · rw [hv] at h
    cases h
  · rw [hv] at h
    cases h

theorem status_conclude_of_residual (hstop : o.stop = .optimal)
    (h : residualArtificial? p.numColumns (s.analyzer.tolerance * rhsScale p) o.final ≠ none) :
    (s.conclude p o).value.status = .infeasible := by
  obtain ⟨r, hr⟩ := Option.ne_none_iff_exists'.1 h
  unfold conclude
  rw [hstop]
  simp only [hr]
  rfl

theorem status_conclude_of_none (hstop : o.stop = .optimal)
    (h : residualArtificial? p.numColumns (s.analyzer.tolerance * rhsScale p) o.final = none) :
    (s.conclude p o).value.status = .optimal := by
  unfold conclude
  rw [hstop]
  simp only [h]
  rfl

end Conclude

theorem residualArtificial?_eq_none_iff {p : StandardForm ℝ} {penalty : ℝ} {d : Dictionary ℝ}
    (hd : d.IsDictionaryOf (p.startingTableau penalty)) :
    residualArtificial? p.numColumns 0 d = none ↔ p.artificialTotal d.basicPoint ≤ 0 := by
  rw [residualArtificial?, Option.map_eq_none_iff, List.find?_eq_none]
  constructor
  · intro h
    refine Finset.sum_nonpos ?_
    intro k _
    by_cases hk : p.numColumns + k ∈ d.basis
    · obtain ⟨i, hi⟩ := List.mem_iff_getElem?.1 hk
      have hmem := List.mk_mem_zipIdx_iff_getElem?.2 hi
      obtain ⟨hlt, hbasic⟩ := hd.canonical.basic_of_mem_zipIdx hmem
      rw [← hbasic, hd.canonical.basicPoint_basic hlt]
      have hsmall := h _ hmem
      simp only [decide_eq_true_eq, not_and, not_lt] at hsmall
      exact hsmall (Nat.le_add_right _ _)
    · exact le_of_eq (hd.canonical.basicPoint_eq_zero hk)
  · rintro h ⟨j, i⟩ hj
    obtain ⟨hi, hbasic⟩ := hd.canonical.basic_of_mem_zipIdx hj
    simp only [decide_eq_true_eq, not_and, not_lt]
    intro hle
    obtain ⟨k, rfl⟩ := Nat.exists_eq_add_of_le hle
    have hk : k < p.numRows := by
      have hlt := hd.canonical.basic_lt i hi
      have hn : d.tableau.numVariables = p.numColumns + p.numRows := hd.equivalent.numVariables
      omega
    rw [← hd.canonical.basicPoint_basic hi, hbasic,
      StandardForm.artificial_eq_zero hd.basicPoint_nonneg h k hk]

theorem values_final {p : StandardForm ℝ} {penalty : ℝ} {d : Dictionary ℝ}
    (hd : d.IsDictionaryOf (p.startingTableau penalty)) :
    d.values = point p.numColumns d.basicPoint := by
  rw [hd.values_eq, StandardForm.numStructural_startingTableau]

/-! ## Exact solvers -/

section Exact

variable {s : Solver ℝ} (hs : s.IsExact)

include hs

theorem isDictionaryOf_outcome (p : StandardForm ℝ) :
    (s.outcome p).final.IsDictionaryOf (p.startingTableau s.penalty) := by
  rw [outcome, hs.pivotTolerance]
  exact Tableau.isDictionaryOf_final (Tableau.resolvedBy_zero _)
    (p.hasUnitBasis_startingTableau _) (p.rhs_startingTableau_nonneg _) _

theorem reducedCost_nonneg (p : StandardForm ℝ) (h : (s.outcome p).stop = .optimal) :
    ∀ j < p.numColumns + p.numRows, 0 ≤ (s.outcome p).final.tableau.entry 0 j := by
  rw [outcome, hs.pivotTolerance] at h ⊢
  exact Tableau.reducedCost_nonneg_of_stop (Tableau.resolvedBy_zero _)
    (p.hasUnitBasis_startingTableau _) (p.rhs_startingTableau_nonneg _) h

theorem column_nonpos (p : StandardForm ℝ) {c : Nat} (h : (s.outcome p).stop = .unbounded c) :
    c < p.numColumns + p.numRows ∧ (s.outcome p).final.tableau.entry 0 c < 0 ∧
      ∀ i < p.numRows, (s.outcome p).final.tableau.entry (i + 1) c ≤ 0 := by
  rw [outcome, hs.pivotTolerance] at h ⊢
  exact Tableau.column_nonpos_of_stop (Tableau.resolvedBy_zero _)
    (p.hasUnitBasis_startingTableau _) (p.rhs_startingTableau_nonneg _) h

theorem residual_eq_none_iff (p : StandardForm ℝ) :
    residualArtificial? p.numColumns (s.analyzer.tolerance * rhsScale p) (s.outcome p).final =
      none ↔ p.artificialTotal (s.outcome p).final.basicPoint ≤ 0 := by
  rw [hs.analyzer.tolerance, zero_mul]
  exact residualArtificial?_eq_none_iff (isDictionaryOf_outcome hs p)

variable {p : StandardForm ℝ}

/-- What a check on the artificial variables would establish at an unbounded stop. -/
theorem isUnbounded_of_stop {c : Nat} (hstop : (s.outcome p).stop = .unbounded c)
    (hpoint : p.artificialTotal (s.outcome p).final.basicPoint ≤ 0)
    (hcolumn : p.artificialTotal ((s.outcome p).final.direction c) ≤ 0) : p.IsUnbounded := by
  have hd := isDictionaryOf_outcome hs p
  obtain ⟨hc, hcost, hle⟩ := column_nonpos hs p hstop
  exact StandardForm.isUnbounded_of_improves (StandardForm.feasible_basicPoint hd hpoint)
    (StandardForm.improves_direction hd hc hcost hle hcolumn)

theorem value_solveStandard (hp : ∃ x, p.Solves x) :
    (s.solveStandard p).value = (s.conclude (p.reduce s.analyzer.prunes)
      (s.outcome (p.reduce s.analyzer.prunes))).value := by
  rw [value_of_feasible (hs.analyzer.analyze_of_solves hp), hs.analyzer.selectRows_eq]

theorem value_solveStandard_inconsistent (hp : ¬ ∃ x, p.Solves x) :
    (s.solveStandard p).value = .infeasible 0 :=
  value_of_infeasible (hs.analyzer.analyze_of_not_solves hp)

theorem solves_of_status (h : (s.solveStandard p).value.status ≠ .infeasible) :
    ∃ x, p.Solves x := by
  by_contra hp
  rw [value_solveStandard_inconsistent hs hp] at h
  exact h rfl

theorem solveStandard_optimal (h : (s.solveStandard p).value.status = .optimal) :
    ∃ y k, (s.solveStandard p).value = .optimal y (form p.objective y) k ∧ p.Feasible y ∧
      ∀ z, p.Feasible z → form p.objective y ≤ form p.objective z := by
  have hp := solves_of_status hs (by rw [h]; simp)
  rw [value_solveStandard hs hp] at h ⊢
  have hd := isDictionaryOf_outcome hs (p.reduce s.analyzer.prunes)
  obtain ⟨hstop, hnone, hvalue⟩ := conclude_optimal h
  have htotal := (residual_eq_none_iff hs _).1 hnone
  have hfeasible := StandardForm.feasible_basicPoint hd htotal
  rw [values_final hd] at hvalue
  refine ⟨_, _, hvalue, (StandardForm.feasible_reduce_iff hp _).1 hfeasible, ?_⟩
  intro z hz
  have hleast := StandardForm.objectiveValue_le hd (reducedCost_nonneg hs _ hstop)
    ((StandardForm.feasible_reduce_iff hp _).2 hz)
  have hzero := le_antisymm htotal (Finset.sum_nonneg fun i _ => hd.basicPoint_nonneg _)
  rw [StandardForm.objectiveValue_eq hd, hzero, mul_zero, add_zero] at hleast
  exact hleast

end Exact

end Solver
end PenaltySimplex
