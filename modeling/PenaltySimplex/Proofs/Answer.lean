import PenaltySimplex.Proofs.EqualityForm
import PenaltySimplex.Proofs.IterationCap
import PenaltySimplex.Proofs.Penalty

/-!
# PenaltySimplex.Proofs.Answer

What an answer consists of, whatever the arithmetic: an optimal one has an objective value and as
many values as the problem has variables, and no other one has values (`Solver.isWhole_solve`).
-/

namespace PenaltySimplex

/-- Values and an objective value belong to optimal solutions, and every one has them. -/
inductive Solution.IsWhole {α : Type} (n : Nat) (x : Solution α) : Prop where
  | optimal (values : List α) (objective : α) (hstatus : x.status = .optimal)
      (hvalues : x.values = some values) (hobjective : x.objectiveValue = some objective)
      (hlength : values.length = n)
  | bare (hstatus : x.status ≠ .optimal) (hvalues : x.values = none)
      (hobjective : x.objectiveValue = none)

theorem Solution.isWhole_bare {α : Type} {status : Status} (h : status ≠ .optimal)
    (n iterations : Nat) : (bare status iterations : Solution α).IsWhole n :=
  .bare h rfl rfl

variable {α : Type}

/-- Exchanges keep the shape of a tableau. -/
theorem Tableau.numStructural_final [Scalar α] (eps : α) (cap : Nat) (t : Tableau α) :
    (t.solveFrom eps cap).final.tableau.numStructural = t.numStructural :=
  final_induction (P := fun d => d.tableau.numStructural = t.numStructural) rfl
    fun _ _ _ h _ => h

namespace Solver

variable [RootScalar α] (s : Solver α)

theorem isWhole_solveReduced (p : StandardForm α) :
    (s.solveReduced p).value.IsWhole p.numColumns := by
  have hlength : (s.outcome p).final.values.length = p.numColumns := by
    rw [Dictionary.values, List.length_map, List.length_range, outcome,
      Tableau.numStructural_final, StandardForm.numStructural_startingTableau]
  show (s.conclude p (s.outcome p)).value.IsWhole p.numColumns
  unfold conclude
  split
  · exact Solution.isWhole_bare Status.noConfusion _ _
  · exact Solution.isWhole_bare Status.noConfusion _ _
  · split
    · exact Solution.isWhole_bare Status.noConfusion _ _
    · exact .optimal _ _ rfl rfl rfl hlength

theorem isWhole_solveStandard (p : StandardForm α) :
    (s.solveStandard p).value.IsWhole p.numColumns := by
  cases hanalyze : (s.analyzer.analyze p).value with
  | infeasible residual =>
    rw [solveStandard_of_infeasible hanalyze]
    exact Solution.isWhole_bare Status.noConfusion _ _
  | feasible q kept =>
    have hcolumns : q.numColumns = p.numColumns := by
      rw [Analyzer.value_analyze] at hanalyze
      split at hanalyze
      · cases hanalyze
      · cases hanalyze
        rfl
    rw [solveStandard_of_feasible hanalyze, ← hcolumns]
    exact s.isWhole_solveReduced q

theorem isWhole_restore (p : Problem α) {n : Nat} (hn : p.numVariables ≤ n) {x : Solution α}
    (h : x.IsWhole n) : (restore p x).IsWhole p.numVariables := by
  cases h with
  | optimal values objective hstatus hvalues hobjective hlength =>
    have htake : (values.take p.numVariables).length = p.numVariables := by
      rw [List.length_take, hlength, Nat.min_eq_left hn]
    cases hsense : p.sense with
    | minimize =>
      exact .optimal _ objective hstatus (by simp [restore, hvalues])
        (by simp [restore, hsense, hobjective]) htake
    | maximize =>
      exact .optimal _ (-objective) hstatus (by simp [restore, hvalues])
        (by simp [restore, hsense, hobjective]) htake
  | bare hstatus hvalues hobjective =>
    refine .bare hstatus (by simp [restore, hvalues]) ?_
    cases hsense : p.sense <;> simp [restore, hsense, hobjective]

theorem isWhole_solve {p : Problem α} {x : Solution α} (h : (s.solve p).value = .ok x) :
    x.IsWhole p.numVariables := by
  cases hstandard : p.toStandardForm with
  | error e =>
    rw [solve, Logged.value_bind, Problem.value_standardForm, hstandard] at h
    cases h
  | ok q =>
    rw [s.value_solve hstandard] at h
    cases h
    have hcolumns := Problem.numColumns_of_toStandardForm hstandard
    exact isWhole_restore p (hcolumns ▸ Nat.le_add_right _ _) (s.isWhole_solveStandard q)

end Solver

end PenaltySimplex
