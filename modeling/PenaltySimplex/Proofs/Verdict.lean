import PenaltySimplex.Proofs.EqualityForm
import PenaltySimplex.Proofs.ExactSolver

/-!
# PenaltySimplex.Proofs.Verdict

What the answers of an exact solver say about the problem.

* `optimal` is right for every penalty (`solve_optimal`): the check on the artificial variables
  leaves only feasible points.
* `infeasible` is right for every large penalty, and so is `unbounded` if there is a feasible
  point (`solveStandard_exact`).
* `unbounded` does not look at the artificial variables, so a problem without a feasible point can
  be called unbounded; `unbounded_iff` says exactly when the answer is right.
-/

namespace PenaltySimplex
namespace Solver

open Linear

/-- Every accepted problem gets an answer, and one that is called optimal comes with an optimal
point and its objective value. -/
theorem solve_optimal {s : Solver ℝ} (hs : s.IsExact) {p : Problem ℝ}
    (hp : p.validate = .ok ()) :
    ∃ x, (s.solve p).value = .ok x ∧
      (x.status = .optimal → ∃ v, x.values = some v ∧
        x.objectiveValue = some (form p.objective v) ∧ p.Optimal v) := by
  obtain ⟨q, hq⟩ := Problem.exists_toStandardForm hp
  refine ⟨_, s.value_solve hq, ?_⟩
  intro hstatus
  obtain ⟨y, k, hy, hfeasible, hbest⟩ := solveStandard_optimal hs hstatus
  refine ⟨y.take p.numVariables, by rw [hy]; rfl, ?_, Problem.optimal_take hq hfeasible hbest⟩
  have hobjective := Problem.form_standardObjective hq hfeasible.length_eq
  rw [hy]
  unfold restore
  cases hsense : p.sense with
  | minimize =>
    rw [hsense] at hobjective
    exact congrArg some hobjective
  | maximize =>
    rw [hsense] at hobjective
    have hneg : -form q.objective y = form p.objective (y.take p.numVariables) :=
      neg_eq_iff_eq_neg.2 hobjective
    exact congrArg some hneg

/-- Maximize `x` subject to `x ≤ 1`. -/
def capped : Problem ℝ where
  names := ["x"]
  sense := .maximize
  objective := [1]
  constraints := [⟨"cap", [1], .le, 1⟩]

/-- Its equality form: minimize `-x` subject to `x + s = 1`. -/
def cappedForm : StandardForm ℝ where
  objective := [-1, 0]
  equations := [⟨[1, 1], 1⟩]
  width := by simp

theorem validate_capped : capped.validate = .ok () := by
  rw [Problem.validate_eq_ok_iff]
  simp [capped, Problem.numVariables]

theorem toStandardForm_capped : capped.toStandardForm = .ok cappedForm := by
  obtain ⟨q, hq⟩ := Problem.exists_toStandardForm validate_capped
  obtain ⟨_, hobjective, hequations⟩ := Problem.toStandardForm_eq_ok hq
  rw [hq]
  cases q
  simp [Problem.standardObjective, Problem.standardEquations, Problem.slacks,
    Problem.slackEntries, capped, Comparison.slackSign?] at hobjective hequations
  simp [cappedForm, hobjective, hequations]

theorem rows_capped :
    (cappedForm.startingTableau 1).rows = [[-2, -1, 0, -1], [1, 1, 1, 1]] := by
  have hrows : (cappedForm.startingTableau 1).numRows = 2 := rfl
  have hcolumns : (cappedForm.startingTableau 1).numColumns = 4 := rfl
  simp [Tableau.rows, Tableau.row, hrows, hcolumns, List.range_succ]
  simp [StandardForm.startingTableau, Tableau.entry_ofFn, StandardForm.startingCost,
    StandardForm.startingEntry, cappedForm, Equation.oriented, Equation.orientation,
    StandardForm.numRows, StandardForm.numColumns, StandardForm.rhs]
  norm_num

theorem outcome_capped : ((exact 1 1 true).outcome cappedForm).stop = .optimal ∧
    ((exact 1 1 true).outcome cappedForm).final.basis = [0] := by
  show ((cappedForm.startingTableau 1).solveFrom 0 1).stop = _ ∧
    ((cappedForm.startingTableau 1).solveFrom 0 1).final.basis = _
  have hrows := rows_capped
  generalize ht : cappedForm.startingTableau 1 = t at hrows ⊢
  have hm : t.numRows = 2 := by rw [← ht]; rfl
  have hn : t.numColumns = 4 := by rw [← ht]; rfl
  have hconstraints : t.numConstraints = 1 := by rw [Tableau.numConstraints, hm]
  have hvariables : t.numVariables = 3 := by rw [Tableau.numVariables, hn]
  simp [Tableau.rows, Tableau.row, hm, hn, List.range_succ] at hrows
  obtain ⟨⟨h00, h01, h02, h03⟩, h10, h11, h12, h13⟩ := hrows
  have hfirst : (Dictionary.start t).choose 0 = .exchange 1 0 := by
    simp [Dictionary.choose, Dictionary.start, Tableau.entering?, Tableau.leaving?,
      Tableau.ratios, hvariables, hconstraints, h00, h10, List.range_succ]
  have hsecond : ((Dictionary.start t).exchange 1 0).choose 0 = .optimal := by
    have hpivot : (t.pivot 1 0).numVariables = 3 := hvariables
    simp [Dictionary.choose, Dictionary.exchange, Dictionary.start, Tableau.entering?, hpivot,
      Tableau.entry_pivot_eq, hm, hn, h00, h01, h02, h10, h11, h12, List.range_succ]
  rw [Tableau.solveFrom, Dictionary.run_succ hfirst, Dictionary.next_of_choose hfirst,
    Dictionary.run_optimal hsecond]
  refine ⟨rfl, ?_⟩
  simp [Dictionary.exchange, Dictionary.start, Tableau.numStructural, hvariables, hconstraints]

theorem solves_capped : cappedForm.Solves [1, 0] := ⟨rfl, by simp [cappedForm]⟩

theorem status_capped : ((exact 1 1 true).solveStandard cappedForm).value.status = .optimal := by
  rw [value_solveStandard (isExact_exact 1 1 true) ⟨_, solves_capped⟩,
    StandardForm.reduce_singleton (p := cappedForm) rfl List.mem_cons_self one_ne_zero]
  obtain ⟨hstop, hbasis⟩ := outcome_capped
  unfold conclude
  rw [hstop]
  simp only [residualArtificial?, hbasis]
  rfl

/-- The answer for `cappedForm`, which has one optimal point. -/
theorem solveStandard_capped :
    ∃ k, ((exact 1 1 true).solveStandard cappedForm).value = .optimal [1, 0] (-1) k := by
  obtain ⟨y, k, hy, hfeasible, hbest⟩ :=
    solveStandard_optimal (isExact_exact 1 1 true) status_capped
  obtain ⟨u, v, rfl⟩ := List.length_eq_two.1 hfeasible.length_eq
  have hrow : u + v = 1 := by simpa using hfeasible.holds ⟨[1, 1], 1⟩ (by simp [cappedForm])
  have hv : 0 ≤ v := hfeasible.nonneg v (by simp)
  have hcost : 1 ≤ u := by
    simpa [cappedForm] using hbest [1, 0] ⟨solves_capped, by simp⟩
  obtain rfl : v = 0 := by linarith
  obtain rfl : u = 1 := by linarith
  refine ⟨k, ?_⟩
  rw [hy]
  simp [cappedForm]

theorem solve_optimal_capped : ∃ x, ((exact 1 1 true).solve capped).value = .ok x ∧
    x.status = .optimal ∧ ∃ v, x.values = some v ∧
      x.objectiveValue = some (form capped.objective v) ∧ capped.Optimal v := by
  have hs := isExact_exact 1 1 true
  obtain ⟨x, hx, hoptimal⟩ := solve_optimal hs validate_capped
  have hstatus : x.status = .optimal := by
    have hvalue := value_solve (exact 1 1 true) toStandardForm_capped
    rw [hx] at hvalue
    cases hvalue
    exact status_capped
  exact ⟨x, hx, hstatus, hoptimal hstatus⟩

theorem exists_outweighs (p : StandardForm ℝ) (v : ℝ) :
    ∃ bound, ∀ penalty, bound ≤ penalty → ∀ prunes d,
      d.IsDictionaryOf ((p.reduce prunes).startingTableau penalty) →
        (p.reduce prunes).Outweighs penalty v d := by
  refine Filter.eventually_atTop.1 (Filter.eventually_all.2 ?_)
  intro prunes
  exact (p.reduce prunes).eventually_outweighs v

theorem improves_of_unbounded {s : Solver ℝ} (hs : s.IsExact) {p : StandardForm ℝ} {v : ℝ}
    (hbound : ∀ d, d.IsDictionaryOf ((p.reduce s.analyzer.prunes).startingTableau s.penalty) →
      (p.reduce s.analyzer.prunes).Outweighs s.penalty v d)
    (h : (s.solveStandard p).value.status = .unbounded) : ∃ y, p.Improves y := by
  have hp := solves_of_status hs (by rw [h]; simp)
  rw [value_solveStandard hs hp] at h
  obtain ⟨c, hstop⟩ := conclude_unbounded h
  obtain ⟨hc, hcost, hcolumn⟩ := column_nonpos hs _ hstop
  have hd := isDictionaryOf_outcome hs (p.reduce s.analyzer.prunes)
  have htotal := (hbound _ hd).artificialTotal_direction hd hc hcost
  exact ⟨_, (StandardForm.improves_direction hd hc hcost hcolumn htotal).of_reduce⟩

/-- If there is a feasible point, every large penalty is exact: the problem is never called
infeasible, and called unbounded only if it is. -/
theorem solveStandard_exact {p : StandardForm ℝ} (hp : p.IsFeasible) :
    ∃ bound, ∀ s : Solver ℝ, s.IsExact → bound ≤ s.penalty →
      (s.solveStandard p).value.status ≠ .infeasible ∧
      ((s.solveStandard p).value.status = .unbounded → p.IsUnbounded) := by
  obtain ⟨x, hx⟩ := hp
  obtain ⟨bound, hbound⟩ := exists_outweighs p (form p.objective x)
  refine ⟨bound, ?_⟩
  intro s hs hle
  constructor
  · intro hstatus
    rw [value_solveStandard hs ⟨x, hx.toSolves⟩] at hstatus
    obtain ⟨hstop, hsome⟩ := conclude_infeasible hstatus
    have hd := isDictionaryOf_outcome hs (p.reduce s.analyzer.prunes)
    refine hsome ((residual_eq_none_iff hs _).2 ?_)
    exact (hbound _ hle _ _ hd).artificialTotal_nonpos hd (reducedCost_nonneg hs _ hstop)
      ((StandardForm.feasible_reduce_iff ⟨x, hx.toSolves⟩ _).2 hx) le_rfl
  · intro hstatus
    obtain ⟨y, hy⟩ := improves_of_unbounded hs (hbound _ hle _) hstatus
    exact StandardForm.isUnbounded_of_improves hx hy

/-- Minimize `-x` subject to `a * y = 1`: nothing bounds `x`, but some `y` must be feasible. -/
def oneSided (a : ℝ) : StandardForm ℝ where
  objective := [-1, 0]
  equations := [⟨[0, a], 1⟩]
  width := by simp

theorem stop_oneSided (a penalty : ℝ) (cap : Nat) :
    (((oneSided a).startingTableau penalty).solveFrom 0 cap).stop = .unbounded 0 := by
  have hvariables : ((oneSided a).startingTableau penalty).numVariables = 3 := rfl
  have hconstraints : ((oneSided a).startingTableau penalty).numConstraints = 1 := rfl
  have hcost : ((oneSided a).startingTableau penalty).entry 0 0 = -1 := by
    simp [StandardForm.startingTableau, Tableau.entry_ofFn, StandardForm.startingCost, oneSided,
      Equation.oriented, StandardForm.numRows, StandardForm.numColumns]
  have hcolumn : ((oneSided a).startingTableau penalty).entry 1 0 = 0 := by
    simp [StandardForm.startingTableau, Tableau.entry_ofFn, StandardForm.startingEntry, oneSided,
      Equation.oriented, StandardForm.numRows, StandardForm.numColumns]
  have hchoose : (Dictionary.start ((oneSided a).startingTableau penalty)).choose 0 =
      .unbounded 0 := by
    simp [Dictionary.choose, Dictionary.start, Tableau.entering?, Tableau.leaving?,
      Tableau.ratios, hvariables, hconstraints, hcost, hcolumn, List.range_succ]
  rw [Tableau.solveFrom, Dictionary.run_unbounded hchoose]

theorem status_oneSided {a : ℝ} (ha : a ≠ 0) (penalty : ℝ) (cap : Nat) (prunes : Bool) :
    ((exact penalty cap prunes).solveStandard (oneSided a)).value.status = .unbounded := by
  have hsolves : (oneSided a).Solves [0, a⁻¹] := by
    refine ⟨rfl, ?_⟩
    intro e he
    rw [List.mem_singleton.1 he]
    simp [mul_inv_cancel₀ ha]
  have hmem : a ∈ ([0, a] : List ℝ) := by simp
  rw [value_solveStandard (isExact_exact penalty cap prunes) ⟨_, hsolves⟩,
    StandardForm.reduce_singleton (p := oneSided a) rfl hmem ha]
  have hstop : ((exact penalty cap prunes).outcome (oneSided a)).stop = .unbounded 0 :=
    stop_oneSided a penalty cap
  unfold conclude
  rw [hstop]
  rfl

theorem isFeasible_oneSided : (oneSided 1).IsFeasible := by
  refine ⟨[0, 1], ⟨rfl, ?_⟩, by simp⟩
  intro e he
  rw [List.mem_singleton.1 he]
  simp

theorem solveStandard_exact_oneSided : (oneSided 1).IsFeasible ∧ ∃ bound,
    ((exact bound 0 true).solveStandard (oneSided 1)).value.status = .unbounded ∧
      (oneSided 1).IsUnbounded := by
  obtain ⟨bound, hbound⟩ := solveStandard_exact isFeasible_oneSided
  have hstatus := status_oneSided one_ne_zero bound 0 true
  exact ⟨isFeasible_oneSided, bound, hstatus,
    (hbound _ (isExact_exact bound 0 true) le_rfl).2 hstatus⟩

/-- An unbounded answer is right exactly when the problem has a feasible point and an improving
direction, and for every large penalty exactly when it has a feasible point. -/
theorem unbounded_iff (p : StandardForm ℝ) :
    ∃ bound, ∀ s : Solver ℝ, s.IsExact → (s.solveStandard p).value.status = .unbounded →
      (p.IsUnbounded ↔ p.IsFeasible ∧ ∃ y, p.Improves y) ∧
      (bound ≤ s.penalty → (p.IsUnbounded ↔ p.IsFeasible)) := by
  obtain ⟨bound, hbound⟩ := exists_outweighs p 0
  refine ⟨bound, ?_⟩
  intro s hs hstatus
  refine ⟨StandardForm.isUnbounded_iff, ?_⟩
  intro hle
  have hdirection := improves_of_unbounded hs (hbound _ hle _) hstatus
  rw [StandardForm.isUnbounded_iff]
  exact and_iff_left hdirection

theorem unbounded_iff_oneSided : ∃ bound,
    ((exact bound 0 true).solveStandard (oneSided 1)).value.status = .unbounded ∧
      ((oneSided 1).IsUnbounded ↔ (oneSided 1).IsFeasible) := by
  obtain ⟨bound, hbound⟩ := unbounded_iff (oneSided 1)
  have hstatus := status_oneSided one_ne_zero bound 0 true
  exact ⟨bound, hstatus, (hbound _ (isExact_exact bound 0 true) hstatus).2 le_rfl⟩

/-- A problem without a feasible point that is called unbounded, whatever the penalty. -/
theorem unbounded_without_feasible :
    (exact 1000000 10000 true).IsExact ∧ 0 < (exact 1000000 10000 true).penalty ∧
    ((exact 1000000 10000 true).solveStandard (oneSided (-1))).value.status = .unbounded ∧
      ¬ (oneSided (-1)).IsFeasible ∧ ¬ (oneSided (-1)).IsUnbounded := by
  have hinfeasible : ¬ (oneSided (-1)).IsFeasible := by
    rintro ⟨x, hx⟩
    have hrow := hx.holds ⟨[0, -1], 1⟩ (by simp [oneSided])
    obtain ⟨u, v, rfl⟩ := List.length_eq_two.1 hx.length_eq
    have hv := hx.nonneg v (by simp)
    simp at hrow
    linarith
  have hpenalty : (0 : ℝ) < 1000000 := by norm_num
  refine ⟨isExact_exact _ _ _, hpenalty, ?_, hinfeasible, fun h => hinfeasible h.isFeasible⟩
  exact status_oneSided (neg_ne_zero.2 one_ne_zero) _ _ _

end Solver
end PenaltySimplex
